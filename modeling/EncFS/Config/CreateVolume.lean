import EncFS.Config.Passwords
import EncFS.Config.Registry
import EncFS.DirNode

set_option autoImplicit false

namespace EncFS

open ConfigVar

inductive ConfigMode
  | prompt
  | standard
  | paranoia
  deriving DecidableEq

structure EncFS_Opts where
  rootDir : Bytes
  createIfNotFound : Bool
  checkKey : Bool
  forceDecode : Bool
  useStdin : Bool
  reverseEncryption : Bool
  configMode : ConfigMode
  deriving DecidableEq

/-- A dialog on the standard input. It has no result where the program asks for ever. -/
abbrev Prompt := StateT Bytes Option

namespace Prompt

def isSpace (c : UInt8) : Bool :=
  c = 32 || (9 ≤ c && c ≤ 13)

def isDigit (c : UInt8) : Bool :=
  48 ≤ c && c ≤ 57

def digits (str : Bytes) : ℤ :=
  (str.takeWhile isDigit).foldl (fun n c => n * 10 + (c.toNat - 48 : ℕ)) 0

def atoi (str : Bytes) : ℤ :=
  match str.dropWhile isSpace with
  | [] => 0
  | c :: str => if c = 45 then -digits str else if c = 43 then digits str else digits (c :: str)

def fgets (n : ℕ) : Prompt (Option Bytes) := fun stdin =>
  let line := (stdin.take (n - 1)).take
    (((stdin.take (n - 1)).takeWhile (· != Passwords.newline)).length + 1)
  if stdin = [] then some (none, []) else some (some line, stdin.drop line.length)

def answer : Prompt (Option Bytes) := fgets 10

def number : Prompt ℤ := do
  let res ← answer
  pure (match res with
    | none => 0
    | some str => atoi str)

def letter : Prompt (Option UInt8) := do
  let res ← answer
  pure (res.bind fun str => str.head?.map fun c => if 65 ≤ c ∧ c ≤ 90 then c + 32 else c)

def boolDefaultNo : Prompt Bool := do
  let c ← letter
  pure (c == some 121)

def boolDefaultYes : Prompt Bool := do
  let c ← letter
  pure (c != some 110)

def selectWithin {α : Type} (algorithms : List α) : (fuel : ℕ) → Prompt α
  | 0 => failure
  | fuel + 1 => do
    let num ← number
    if num < 1 ∨ (algorithms.length : ℤ) < num then selectWithin algorithms fuel else
    match algorithms[(num - 1).toNat]? with
    | some alg => pure alg
    | none => failure

def select {α : Type} (algorithms : List α) : Prompt α := do
  let stdin ← get
  selectWithin algorithms (stdin.length + 1)

def ofOption {α : Type} (x : Option α) : Prompt α := fun stdin => x.map (·, stdin)

end Prompt

open Prompt

def DefaultBlockSize : ℤ := 1024
def ParanoiaKDFDuration : ℤ := 3000

def selectKeySize (alg : CipherAlg) : Prompt ℤ :=
  if alg.keyLength.minVal = alg.keyLength.maxVal then pure alg.keyLength.minVal else do
    let keySize ← number
    ofOption (closestSize alg.keyLength keySize)

def selectBlockSize (alg : CipherAlg) : Prompt ℤ :=
  if alg.blockSize.minVal = alg.blockSize.maxVal then pure alg.blockSize.minVal else do
    let res ← answer
    let blockSize := match res with
      | none => DefaultBlockSize
      | some str => if alg.blockSize.minVal ≤ atoi str then atoi str else DefaultBlockSize
    ofOption (closestSize alg.blockSize blockSize)

def selectBlockMAC : Prompt (ℤ × ℤ) := do
  let addMAC ← boolDefaultNo
  let randSize ← number
  let randSize := if randSize < 0 then 0 else randSize
  let randSize := if 8 < randSize then 8 else randSize
  pure (if addMAC then 8 else 0, randSize)

def selectExternalIV (chainedIV uniqueIV : Bool) : Prompt Bool :=
  if chainedIV && uniqueIV then boolDefaultNo else pure false

structure Settings where
  alg : Option CipherAlg
  keySize : ℤ
  blockSize : ℤ
  nameIOIface : Interface
  blockMACBytes : ℤ
  blockMACRandBytes : ℤ
  uniqueIV : Bool
  chainedIV : Bool
  externalIV : Bool
  allowHoles : Bool
  desiredKDFDuration : ℤ

namespace Platform

variable (P : Platform)

def findCipherAlgorithm (name : Bytes) (keySize : ℤ) : Option CipherAlg :=
  (P.GetAlgorithmList false).find? fun alg =>
    alg.name = name && (alg.keyLength.allowed keySize).toOption == some true

def initialSettings : Settings where
  alg := none
  keySize := 0
  blockSize := 0
  nameIOIface := ⟨[], 0, 0, 0⟩
  blockMACBytes := 0
  blockMACRandBytes := 0
  uniqueIV := false
  chainedIV := false
  externalIV := false
  allowHoles := true
  desiredKDFDuration := NormalKDFDuration

def paranoiaSettings : Settings :=
  { initialSettings with
    keySize := 256
    blockSize := DefaultBlockSize
    alg := P.findCipherAlgorithm (bytes "AES") 256
    nameIOIface := Interface.blockNames
    blockMACBytes := 8
    uniqueIV := true
    chainedIV := true
    externalIV := true
    desiredKDFDuration := ParanoiaKDFDuration }

def standardSettings (reverseEncryption : Bool) : Settings :=
  { initialSettings with
    keySize := 192
    blockSize := DefaultBlockSize
    alg := P.findCipherAlgorithm (bytes "AES") 192
    nameIOIface := Interface.blockNames
    uniqueIV := !reverseEncryption
    chainedIV := !reverseEncryption }

def manualSettings (reverseEncryption : Bool) (s : Settings) : Prompt Settings := do
  let alg ← select (P.GetAlgorithmList false)
  let keySize ← selectKeySize alg
  let blockSize ← selectBlockSize alg
  let nameIO ← select NameIO.gNameIOMap
  let s := { s with alg := some alg, keySize, blockSize, nameIOIface := nameIO.iface }
  if reverseEncryption then pure s else do
    let chainedIV ← boolDefaultYes
    let uniqueIV ← boolDefaultYes
    let externalIV ← selectExternalIV chainedIV uniqueIV
    let (blockMACBytes, blockMACRandBytes) ← selectBlockMAC
    let allowHoles ← boolDefaultYes
    pure { s with
      chainedIV, uniqueIV, externalIV, blockMACBytes, blockMACRandBytes, allowHoles }

def choose (opts : EncFS_Opts) : Prompt UInt8 :=
  if opts.configMode = .prompt then do
    let res ← answer
    pure ((res.bind List.head?).getD 0)
  else pure 0

def presetSettings (opts : EncFS_Opts) (c : UInt8) : Prompt Settings :=
  if opts.configMode = .paranoia ∨ c = 112 then
    -- not supported for --reverse
    if opts.reverseEncryption then failure else pure P.paranoiaSettings
  else if opts.configMode = .standard ∨ c ≠ 120 then
    pure (P.standardSettings opts.reverseEncryption)
  else pure initialSettings

def settings (opts : EncFS_Opts) : Prompt Settings := do
  let c ← choose opts
  let s ← P.presetSettings opts c
  if c = 120 ∨ s.alg.isNone then P.manualSettings opts.reverseEncryption s else pure s

def newConfig (s : Settings) : Option (EncFSConfig × KeyCipher) := do
  let alg ← s.alg
  let (cipherIface, cipher) ← P.NewCipherNamed alg.name s.keySize
  some ({ EncFSConfig.new with
    cfgType := .v6
    cipherIface
    keySize := s.keySize
    blockSize := s.blockSize
    nameIface := s.nameIOIface
    creator := bytes "EncFS 1.7.4"
    subVersion := V6SubVersion
    blockMACBytes := s.blockMACBytes
    blockMACRandBytes := s.blockMACRandBytes
    uniqueIV := s.uniqueIV
    chainedNameIV := s.chainedIV
    externalIVChaining := s.externalIV
    allowHoles := s.allowHoles
    salt := []
    kdfIterations := 0
    desiredKDFDuration := s.desiredKDFDuration }, cipher)

end Platform

structure FSConfig where
  config : EncFSConfig
  opts : EncFS_Opts
  cipher : KeyCipher
  key : Bytes
  nameCoding : NameIO
  forceDecode : Bool
  reverseEncryption : Bool

structure EncFS_Root where
  cipher : KeyCipher
  volumeKey : Bytes
  root : DirNode
  fsConfig : FSConfig

def DirNode.new (sourceDir : Bytes) (fsConfig : FSConfig) : DirNode where
  rootDir := if sourceDir.getLast? = some slash then sourceDir else sourceDir ++ [slash]
  naming := fsConfig.nameCoding

def EncFS_Root.new (opts : EncFS_Opts) (config : EncFSConfig) (cipher : KeyCipher)
    (volumeKey : Bytes) : Option EncFS_Root := do
  let nameCoder ← NameIO.New config.nameIface cipher volumeKey
  let nameCoder := nameCoder.setChainedNameIV config.chainedNameIV
  let nameCoder := nameCoder.setReverseEncryption opts.reverseEncryption
  let fsConfig : FSConfig :=
    ⟨config, opts, cipher, volumeKey, nameCoder, opts.forceDecode, opts.reverseEncryption⟩
  some ⟨cipher, volumeKey, DirNode.new opts.rootDir fsConfig, fsConfig⟩

/-- What a creation gets from outside: the input, the random bytes for the volume key, the passwords
that are typed, and whether the file of the configuration can be opened for writing. -/
structure Surroundings where
  stdin : Bytes
  random : ℕ → Option (ℕ → UInt8)
  attempts : List Attempt
  opened : Bool

structure NewVolume where
  password : Bytes
  volumeKey : Bytes
  config : EncFSConfig
  files : Files

section

variable (P : Platform) (files : Files)

def saveNewVolume (rootDir : Bytes) (useStdin : Bool) (u : Surroundings) (config : EncFSConfig)
    (cipher : KeyCipher) : Option NewVolume := do
  let volumeKey ← cipher.newRandomKey u.random
  let (password, userKey, config) ← config.newKey P.installation useStdin u.attempts
  let config := { config with keyData := cipher.writeKey volumeKey userKey }
  let files ← saveConfig P.installation files rootDir u.opened .v6 config
  some ⟨password, volumeKey, config, files⟩

def createV6Config (opts : EncFS_Opts) (u : Surroundings) : Option (Bytes × EncFS_Root) × Files :=
  let created := do
    let (s, _) ← (P.settings opts).run u.stdin
    let (config, cipher) ← P.newConfig s
    let v ← saveNewVolume P files opts.rootDir opts.useStdin u config cipher
    some (v, cipher)
  match created with
  | none => (none, files)
  | some (v, cipher) =>
    ((EncFS_Root.new opts v.config cipher v.volumeKey).map (v.password, ·), v.files)

def EncFSConfig.FitsReverse (config : EncFSConfig) : Prop :=
  config.blockMACBytes = 0 ∧ config.blockMACRandBytes = 0 ∧ config.uniqueIV = false ∧
    config.externalIVChaining = false ∧ config.chainedNameIV = false

instance EncFSConfig.FitsReverse.decidable (config : EncFSConfig) :
    Decidable config.FitsReverse :=
  inferInstanceAs (Decidable (_ ∧ _))

def openVolume (opts : EncFS_Opts) (config : EncFSConfig) (a : Attempt) : Option EncFS_Root :=
  if opts.reverseEncryption = true ∧ ¬config.FitsReverse then none else do
    let cipher ← config.getCipher P.installation
    let (userKey, config) := config.getUserKey P.installation a
    let userKey ← userKey
    let volumeKey ← cipher.readKey config.keyData userKey opts.checkKey
    EncFS_Root.new opts config cipher volumeKey

def initFS (opts : EncFS_Opts) (a : Attempt) (u : Surroundings) : Option EncFS_Root × Files :=
  match readConfig P.installation files opts.rootDir with
  | some config => (openVolume P opts config a, files)
  | none =>
    if opts.createIfNotFound then
      let created := createV6Config P files opts u
      (created.1.map Prod.snd, created.2)
    else (none, files)

end

end EncFS
