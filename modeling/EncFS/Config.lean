import EncFS.CipherKey
import Mathlib.Logic.Function.Basic

/-! The configuration of a volume, in the three file formats that can be read. -/

set_option autoImplicit false

namespace EncFS

inductive ConfigType where
  | none
  | prehistoric
  | v3
  | v4
  | v5
  | v6
  deriving DecidableEq

structure EncFSConfig where
  cfgType : ConfigType
  creator : Bytes
  subVersion : ℤ
  cipherIface : Interface
  nameIface : Interface
  keySize : ℤ
  blockSize : ℤ
  keyData : Bytes
  salt : Bytes
  kdfIterations : ℤ
  desiredKDFDuration : ℤ
  blockMACBytes : ℤ
  blockMACRandBytes : ℤ
  uniqueIV : Bool
  externalIVChaining : Bool
  chainedNameIV : Bool
  allowHoles : Bool
  deriving DecidableEq

def EncFSConfig.new : EncFSConfig where
  cfgType := .none
  creator := []
  subVersion := 0
  cipherIface := ⟨[], 0, 0, 0⟩
  nameIface := ⟨[], 0, 0, 0⟩
  keySize := 0
  blockSize := 0
  keyData := []
  salt := []
  kdfIterations := 0
  desiredKDFDuration := 500
  blockMACBytes := 0
  blockMACRandBytes := 0
  uniqueIV := false
  externalIVChaining := false
  chainedNameIV := false
  allowHoles := false

def NormalKDFDuration : ℤ := 500
def V5SubVersion : ℤ := 20040813
def V5SubVersionDefault : ℤ := 0
def V6SubVersion : ℤ := 20100713

def Interface.implements (A B : Interface) : Bool :=
  A.name = B.name ∧ 0 ≤ A.current - B.current ∧ A.current - B.current ≤ A.age

structure CipherAlgorithm where
  iface : Interface
  constructor : Interface → (keyLen : ℤ) → Option KeyCipher

inductive Element where
  | int (name : String) (value : ℤ)
  | bool (name : String) (value : Bool)
  | string (name : String) (value : Bytes)
  | binary (name : String) (value : Bytes)
  | interface (name : String) (iface : Bytes) (major minor : ℤ)
  deriving DecidableEq

inductive FileContent where
  | bytes (content : Bytes)
  | archive (version : ℕ) (elements : List Element)
  deriving DecidableEq

abbrev Files := Bytes → Option FileContent

/-- What the program finds where it runs: the ciphers that are registered, the version of the
archive library, and whether that library raises an error at the end of an object that has more
entries than were read. -/
structure Installation where
  algorithms : List CipherAlgorithm
  boostVersion : ℕ
  checksEndTag : Bool
  getenv : String → Option Bytes
  estimate : (iter desired delta : ℤ) → ℤ

namespace EncFSConfig

variable (I : Installation)

def getCipher (cfg : EncFSConfig) : Option KeyCipher :=
  (I.algorithms.find? (·.iface.implements cfg.cipherIface)).bind
    (·.constructor cfg.cipherIface cfg.keySize)

def save (cfg : EncFSConfig) : List Element :=
  [.int "version" (if cfg.subVersion = 0 then V6SubVersion else cfg.subVersion),
    .string "creator" cfg.creator,
    .interface "cipherAlg" cfg.cipherIface.name cfg.cipherIface.current cfg.cipherIface.revision,
    .interface "nameAlg" cfg.nameIface.name cfg.nameIface.current cfg.nameIface.revision,
    .int "keySize" cfg.keySize,
    .int "blockSize" cfg.blockSize,
    .bool "uniqueIV" cfg.uniqueIV,
    .bool "chainedNameIV" cfg.chainedNameIV,
    .bool "externalIVChaining" cfg.externalIVChaining,
    .int "blockMACBytes" cfg.blockMACBytes,
    .int "blockMACRandBytes" cfg.blockMACRandBytes,
    .bool "allowHoles" cfg.allowHoles,
    .int "encodedKeySize" cfg.keyData.length,
    .binary "encodedKeyData" cfg.keyData,
    .int "saltLen" cfg.salt.length,
    .binary "saltData" cfg.salt,
    .int "kdfIterations" cfg.kdfIterations,
    .int "desiredKDFDuration" cfg.desiredKDFDuration]

def loadInt (name : String) : List Element → Option (ℤ × List Element)
  | .int n value :: rest => if n = name then some (value, rest) else none
  | _ => none

def loadBool (name : String) : List Element → Option (Bool × List Element)
  | .bool n value :: rest => if n = name then some (value, rest) else none
  | _ => none

def loadString (name : String) : List Element → Option (Bytes × List Element)
  | .string n value :: rest => if n = name then some (value, rest) else none
  | _ => none

def loadBinary (name : String) (size : ℤ) : List Element → Option (Bytes × List Element)
  | .binary n value :: rest => if n = name ∧ value.length = size then some (value, rest) else none
  | _ => none

def loadInterface (name : String) : List Element → Option (Interface × List Element)
  | .interface n iface major minor :: rest =>
    if n = name then some (⟨iface, major, minor, 0⟩, rest) else none
  | _ => none

def loadSubVersion (version : ℕ) (ar : List Element) : Option (ℤ × List Element) :=
  if version = 20 ∨ 20100713 ≤ version then loadInt "version" ar
  else if version = 26800 then some (20080816, ar)
  else if version = 26797 then some (20080813, ar)
  else if version < 20040813 then
    -- an error is logged, and the sub-version stays as it was constructed
    some (new.subVersion, ar)
  else some (version, ar)

def loadSalt (cfg : EncFSConfig) (ar : List Element) : Option (EncFSConfig × List Element) := do
  if 20080816 ≤ cfg.subVersion then
    let (saltLen, ar) ← loadInt "saltLen" ar
    let (salt, ar) ← loadBinary "saltData" saltLen ar
    let (kdfIterations, ar) ← loadInt "kdfIterations" ar
    let (desiredKDFDuration, ar) ← loadInt "desiredKDFDuration" ar
    some ({ cfg with salt, kdfIterations, desiredKDFDuration }, ar)
  else
    some ({ cfg with salt := [], kdfIterations := 16, desiredKDFDuration := NormalKDFDuration }, ar)

def loadParameters (version : ℕ) (ar : List Element) : Option (EncFSConfig × List Element) := do
  let (subVersion, ar) ← loadSubVersion version ar
  let (creator, ar) ← loadString "creator" ar
  let (cipherIface, ar) ← loadInterface "cipherAlg" ar
  let (nameIface, ar) ← loadInterface "nameAlg" ar
  let (keySize, ar) ← loadInt "keySize" ar
  let (blockSize, ar) ← loadInt "blockSize" ar
  let (uniqueIV, ar) ← loadBool "uniqueIV" ar
  let (chainedNameIV, ar) ← loadBool "chainedNameIV" ar
  let (externalIVChaining, ar) ← loadBool "externalIVChaining" ar
  let (blockMACBytes, ar) ← loadInt "blockMACBytes" ar
  let (blockMACRandBytes, ar) ← loadInt "blockMACRandBytes" ar
  let (allowHoles, ar) ← loadBool "allowHoles" ar
  some ({ new with
    subVersion, creator, cipherIface, nameIface, keySize, blockSize, uniqueIV, chainedNameIV,
    externalIVChaining, blockMACBytes, blockMACRandBytes, allowHoles }, ar)

def load (version : ℕ) (ar : List Element) : Option (EncFSConfig × List Element) := do
  let (cfg, ar) ← loadParameters version ar
  let (encodedSize, ar) ← loadInt "encodedKeySize" ar
  let cipher ← cfg.getCipher I
  if encodedSize ≠ cipher.encodedKeySize then none else
  let (keyData, ar) ← loadBinary "encodedKeyData" encodedSize ar
  loadSalt { cfg with keyData } ar

def readV6Config : FileContent → Option EncFSConfig
  | .bytes _ => none
  | .archive version elements => do
    let (cfg, rest) ← load I version elements
    if I.checksEndTag ∧ rest ≠ [] then none else some cfg

def classVersion : ℕ := if I.boostVersion ≤ 104100 then V6SubVersion.toNat else 20

def writeV6Config (cfg : EncFSConfig) (_ : Option FileContent) : Option FileContent :=
  some (.archive (classVersion I) cfg.save)

def readVars : FileContent → Option ConfigReader
  | .bytes content => ConfigReader.load content
  | .archive _ _ => none

def writeVars (vars : ConfigReader) : (file : Option FileContent) → Option FileContent
  | some (.bytes content) => (vars.save content).map .bytes
  | some (.archive _ _) => none
  | none => (vars.save []).map .bytes

open ConfigVar

def readV5Config (currentSubVersion defaultSubVersion : ℤ) (file : FileContent) :
    Option EncFSConfig := do
  let cfgRdr ← readVars file
  let (subVersion, _) ← readIntOr defaultSubVersion (cfgRdr.get "subVersion")
  if currentSubVersion < subVersion then none else
  if subVersion < 20040813 then none else
  let (creator, _) ← readString (cfgRdr.get "creator")
  let (cipherIface, _) ← readInterface (cfgRdr.get "cipher")
  let (nameIface, _) ← readInterface (cfgRdr.get "naming")
  let (keySize, _) ← readInt (cfgRdr.get "keySize")
  let (blockSize, _) ← readInt (cfgRdr.get "blockSize")
  let (keyData, _) ← readString (cfgRdr.get "keyData")
  let (uniqueIV, _) ← readBoolOr false (cfgRdr.get "uniqueIV")
  let (chainedNameIV, _) ← readBoolOr false (cfgRdr.get "chainedIV")
  let (externalIVChaining, _) ← readBoolOr false (cfgRdr.get "externalIV")
  let (blockMACBytes, _) ← readIntOr 0 (cfgRdr.get "blockMACBytes")
  let (blockMACRandBytes, _) ← readIntOr 0 (cfgRdr.get "blockMACRandBytes")
  some { new with
    subVersion, creator, cipherIface, nameIface, keySize, blockSize, keyData, uniqueIV,
    chainedNameIV, externalIVChaining, blockMACBytes, blockMACRandBytes }

def varsV5 (cfg : EncFSConfig) : ConfigReader :=
  let vars : ConfigReader := .empty
  let vars := vars.set "creator" (writeString cfg.creator)
  let vars := vars.set "subVersion" (writeInt cfg.subVersion)
  let vars := vars.set "cipher" (writeInterface cfg.cipherIface)
  let vars := vars.set "naming" (writeInterface cfg.nameIface)
  let vars := vars.set "keySize" (writeInt cfg.keySize)
  let vars := vars.set "blockSize" (writeInt cfg.blockSize)
  let vars := vars.set "keyData" (writeString cfg.keyData)
  let vars := vars.set "blockMACBytes" (writeInt cfg.blockMACBytes)
  let vars := vars.set "blockMACRandBytes" (writeInt cfg.blockMACRandBytes)
  let vars := vars.set "uniqueIV" (writeBool cfg.uniqueIV)
  let vars := vars.set "chainedIV" (writeBool cfg.chainedNameIV)
  vars.set "externalIV" (writeBool cfg.externalIVChaining)

def writeV5Config (cfg : EncFSConfig) : Option FileContent → Option FileContent :=
  writeVars cfg.varsV5

def readV4Config (defaultSubVersion : ℤ) (file : FileContent) : Option EncFSConfig := do
  let cfgRdr ← readVars file
  let (cipherIface, _) ← readInterface (cfgRdr.get "cipher")
  let (keySize, _) ← readInt (cfgRdr.get "keySize")
  let (blockSize, _) ← readInt (cfgRdr.get "blockSize")
  let (keyData, _) ← readString (cfgRdr.get "keyData")
  some { new with
    cipherIface, keySize, blockSize, keyData
    nameIface := ⟨bytes "nameio/stream", 1, 0, 0⟩
    creator := bytes "EncFS 1.0.x"
    subVersion := defaultSubVersion }

def varsV4 (cfg : EncFSConfig) : ConfigReader :=
  let vars : ConfigReader := .empty
  let vars := vars.set "cipher" (writeInterface cfg.cipherIface)
  let vars := vars.set "keySize" (writeInt cfg.keySize)
  let vars := vars.set "blockSize" (writeInt cfg.blockSize)
  vars.set "keyData" (writeString cfg.keyData)

def writeV4Config (cfg : EncFSConfig) : Option FileContent → Option FileContent :=
  writeVars cfg.varsV4

end EncFSConfig

structure ConfigInfo where
  fileName : String
  type : ConfigType
  environmentOverride : Option String
  loadFunc : Option (FileContent → Option EncFSConfig)
  saveFunc : Option (EncFSConfig → Option FileContent → Option FileContent)

namespace ConfigInfo

variable (I : Installation)

def v6 : ConfigInfo where
  fileName := ".encfs6.xml"
  type := .v6
  environmentOverride := some "ENCFS6_CONFIG"
  loadFunc := some (EncFSConfig.readV6Config I)
  saveFunc := some (EncFSConfig.writeV6Config I)

def v5 : ConfigInfo where
  fileName := ".encfs5"
  type := .v5
  environmentOverride := some "ENCFS5_CONFIG"
  loadFunc := some (EncFSConfig.readV5Config V5SubVersion V5SubVersionDefault)
  saveFunc := some EncFSConfig.writeV5Config

def v4 : ConfigInfo where
  fileName := ".encfs4"
  type := .v4
  environmentOverride := none
  loadFunc := some (EncFSConfig.readV4Config 0)
  saveFunc := some EncFSConfig.writeV4Config

def old (fileName : String) (type : ConfigType) : ConfigInfo where
  fileName := fileName
  type := type
  environmentOverride := none
  loadFunc := none
  saveFunc := none

def configFileMapping : List ConfigInfo :=
  [v6 I, v5, v4, old ".encfs3" .v3, old ".encfs2" .prehistoric, old ".encfs" .prehistoric]

def path (rootDir : Bytes) (nm : ConfigInfo) : Bytes :=
  (nm.environmentOverride.bind I.getenv).getD (rootDir ++ bytes nm.fileName)

end ConfigInfo

section

variable (I : Installation) (files : Files) (rootDir : Bytes)

def readConfigLoad (nm : ConfigInfo) (path : Bytes) : Option EncFSConfig :=
  match nm.loadFunc with
  | some loadFunc => do
    let file ← files path
    let config ← loadFunc file
    some { config with cfgType := nm.type }
  | none => some { EncFSConfig.new with cfgType := nm.type }

def readConfigFrom : List ConfigInfo → Option EncFSConfig
  | [] => none
  | nm :: rest =>
    if (nm.environmentOverride.bind I.getenv).isSome ∨ (files (nm.path I rootDir)).isSome then
      readConfigLoad files nm (nm.path I rootDir)
    else readConfigFrom rest

def readConfig : Option EncFSConfig :=
  readConfigFrom I files rootDir (ConfigInfo.configFileMapping I)

def saveConfigTo (opened : Bool) (type : ConfigType) (config : EncFSConfig) :
    List ConfigInfo → Option Files
  | [] => none
  | nm :: rest =>
    match nm.saveFunc with
    | some saveFunc =>
      if nm.type = type then
        if opened then
          (saveFunc config (files (nm.path I rootDir))).map fun file =>
            Function.update files (nm.path I rootDir) (some file)
        else none
      else saveConfigTo opened type config rest
    | none => saveConfigTo opened type config rest

def saveConfig (opened : Bool) (type : ConfigType) (config : EncFSConfig) : Option Files :=
  saveConfigTo I files rootDir opened type config (ConfigInfo.configFileMapping I)

end

end EncFS
