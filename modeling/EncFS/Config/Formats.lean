import EncFS.Config

set_option autoImplicit false

namespace EncFS

open ConfigVar

def EncFSConfig.ReadsSalt (cfg : EncFSConfig) : Prop :=
  cfg.subVersion = 0 ∨ 20080816 ≤ cfg.subVersion

instance (cfg : EncFSConfig) : Decidable cfg.ReadsSalt :=
  inferInstanceAs (Decidable (_ ∨ _))

namespace EncFSConfig

variable {I : Installation}

lemma loadSubVersion_save (cfg : EncFSConfig) :
    loadSubVersion (classVersion I) cfg.save =
      some (if cfg.subVersion = 0 then V6SubVersion else cfg.subVersion, cfg.save.tail) := by
  have hversion : classVersion I = 20 ∨ 20100713 ≤ classVersion I := by
    rw [classVersion]
    split
    · exact Or.inr (le_refl _)
    · exact Or.inl rfl
  rw [loadSubVersion, if_pos hversion]
  rfl

def withoutSalt (cfg : EncFSConfig) : EncFSConfig :=
  { cfg with
    cfgType := .none
    subVersion := if cfg.subVersion = 0 then V6SubVersion else cfg.subVersion
    salt := []
    kdfIterations := 0
    desiredKDFDuration := 500 }

lemma loadParameters_save {cfg : EncFSConfig} (hcipherAge : cfg.cipherIface.age = 0)
    (hnameAge : cfg.nameIface.age = 0) :
    loadParameters (classVersion I) cfg.save = some ({ cfg.withoutSalt with keyData := [] },
      [.int "encodedKeySize" cfg.keyData.length, .binary "encodedKeyData" cfg.keyData,
        .int "saltLen" cfg.salt.length, .binary "saltData" cfg.salt,
        .int "kdfIterations" cfg.kdfIterations,
        .int "desiredKDFDuration" cfg.desiredKDFDuration]) := by
  have hcipherIface : (⟨cfg.cipherIface.name, cfg.cipherIface.current, cfg.cipherIface.revision, 0⟩ :
      Interface) = cfg.cipherIface := by rw [← hcipherAge]
  have hnameIface : (⟨cfg.nameIface.name, cfg.nameIface.current, cfg.nameIface.revision, 0⟩ :
      Interface) = cfg.nameIface := by rw [← hnameAge]
  rw [loadParameters, loadSubVersion_save, withoutSalt]
  refine Eq.trans ?_ (congrArg₂ (fun cipherIface nameIface => some (({ cfg with
    cfgType := .none
    subVersion := if cfg.subVersion = 0 then V6SubVersion else cfg.subVersion
    cipherIface, nameIface
    keyData := []
    salt := []
    kdfIterations := 0
    desiredKDFDuration := 500 } : EncFSConfig), _)) hcipherIface hnameIface)
  rfl

lemma load_save {cfg : EncFSConfig} {cipher : KeyCipher} (hcipherAge : cfg.cipherIface.age = 0)
    (hnameAge : cfg.nameIface.age = 0) (hcipher : cfg.getCipher I = some cipher)
    (hsize : cfg.keyData.length = cipher.encodedKeySize) :
    load I (classVersion I) cfg.save = loadSalt cfg.withoutSalt
      [.int "saltLen" cfg.salt.length, .binary "saltData" cfg.salt,
        .int "kdfIterations" cfg.kdfIterations,
        .int "desiredKDFDuration" cfg.desiredKDFDuration] := by
  have hsame : getCipher I { cfg.withoutSalt with keyData := [] } = some cipher := hcipher
  rw [load, loadParameters_save hcipherAge hnameAge]
  simp only [loadInt, loadBinary, Option.bind_eq_bind, Option.bind_some, if_true, hsame, hsize,
    ne_eq, not_true, if_false, and_self]
  rw [withoutSalt]

lemma age_of_loadInterface {name : String} {ar ar' : List Element} {iface : Interface}
    (h : loadInterface name ar = some (iface, ar')) : iface.age = 0 := by
  rw [loadInterface.eq_def] at h
  split at h
  · split at h
    · cases h
      rfl
    · cases h
  · cases h

lemma ages_of_loadParameters {version : ℕ} {ar ar' : List Element} {cfg : EncFSConfig}
    (h : loadParameters version ar = some (cfg, ar')) :
    cfg.cipherIface.age = 0 ∧ cfg.nameIface.age = 0 := by
  obtain ⟨⟨subVersion, ar⟩, -, h⟩ := Option.bind_eq_some_iff.mp h
  obtain ⟨⟨creator, ar⟩, -, h⟩ := Option.bind_eq_some_iff.mp h
  obtain ⟨⟨cipherIface, ar⟩, hcipher, h⟩ := Option.bind_eq_some_iff.mp h
  obtain ⟨⟨nameIface, ar⟩, hname, h⟩ := Option.bind_eq_some_iff.mp h
  obtain ⟨⟨keySize, ar⟩, -, h⟩ := Option.bind_eq_some_iff.mp h
  obtain ⟨⟨blockSize, ar⟩, -, h⟩ := Option.bind_eq_some_iff.mp h
  obtain ⟨⟨uniqueIV, ar⟩, -, h⟩ := Option.bind_eq_some_iff.mp h
  obtain ⟨⟨chainedNameIV, ar⟩, -, h⟩ := Option.bind_eq_some_iff.mp h
  obtain ⟨⟨externalIVChaining, ar⟩, -, h⟩ := Option.bind_eq_some_iff.mp h
  obtain ⟨⟨blockMACBytes, ar⟩, -, h⟩ := Option.bind_eq_some_iff.mp h
  obtain ⟨⟨blockMACRandBytes, ar⟩, -, h⟩ := Option.bind_eq_some_iff.mp h
  obtain ⟨⟨allowHoles, ar⟩, -, h⟩ := Option.bind_eq_some_iff.mp h
  cases h
  exact ⟨age_of_loadInterface hcipher, age_of_loadInterface hname⟩

lemma loadSalt_eq_some {cfg cfg' : EncFSConfig} {ar ar' : List Element}
    (h : loadSalt cfg ar = some (cfg', ar')) :
    ∃ salt kdfIterations desired, cfg' = { cfg with
      salt := salt, kdfIterations := kdfIterations, desiredKDFDuration := desired } ∧
      (cfg.subVersion < 20080816 → salt = [] ∧ kdfIterations = 16) := by
  rw [loadSalt] at h
  split at h
  · obtain ⟨⟨saltLen, ar⟩, -, h⟩ := Option.bind_eq_some_iff.mp h
    obtain ⟨⟨salt, ar⟩, -, h⟩ := Option.bind_eq_some_iff.mp h
    obtain ⟨⟨kdfIterations, ar⟩, -, h⟩ := Option.bind_eq_some_iff.mp h
    obtain ⟨⟨desired, ar⟩, -, h⟩ := Option.bind_eq_some_iff.mp h
    cases h
    exact ⟨salt, kdfIterations, desired, rfl, fun hlt => (by omega)⟩
  · cases h
    exact ⟨[], 16, NormalKDFDuration, rfl, fun _ => ⟨rfl, rfl⟩⟩

lemma readV6Config_eq_some {file : FileContent} {cfg : EncFSConfig}
    (h : readV6Config I file = some cfg) : cfg.cipherIface.age = 0 ∧ cfg.nameIface.age = 0 := by
  cases file with
  | bytes content => cases h
  | archive version elements =>
    obtain ⟨⟨cfg', rest⟩, hload, h⟩ := Option.bind_eq_some_iff.mp h
    dsimp only at h
    split at h
    · cases h
    obtain rfl := Option.some.inj h
    obtain ⟨⟨parameters, ar⟩, hparameters, hload⟩ := Option.bind_eq_some_iff.mp hload
    obtain ⟨⟨encodedSize, ar⟩, -, hload⟩ := Option.bind_eq_some_iff.mp hload
    obtain ⟨cipher, -, hload⟩ := Option.bind_eq_some_iff.mp hload
    dsimp only at hload
    split at hload
    · cases hload
    obtain ⟨⟨keyData, ar⟩, -, hload⟩ := Option.bind_eq_some_iff.mp hload
    obtain ⟨salt, kdf, desired, rfl, -⟩ := loadSalt_eq_some hload
    have hages := ages_of_loadParameters hparameters
    exact hages

lemma readV6Config_save (cfg : EncFSConfig) {cipher : KeyCipher}
    (hcipherAge : cfg.cipherIface.age = 0) (hnameAge : cfg.nameIface.age = 0)
    (hcipher : cfg.getCipher I = some cipher) (hsize : cfg.keyData.length = cipher.encodedKeySize)
    (hsalt : cfg.ReadsSalt) : readV6Config I (.archive (classVersion I) cfg.save) =
      some { cfg with
        cfgType := .none
        subVersion := if cfg.subVersion = 0 then V6SubVersion else cfg.subVersion } := by
  have hsubVersion : 20080816 ≤ cfg.withoutSalt.subVersion := by
    change 20080816 ≤ if cfg.subVersion = 0 then V6SubVersion else cfg.subVersion
    rcases hsalt with h | h
    · rw [if_pos h]
      decide
    · rwa [if_neg (by omega)]
  rw [readV6Config, load_save hcipherAge hnameAge hcipher hsize, loadSalt, if_pos hsubVersion]
  simp [loadInt, loadBinary, withoutSalt]

lemma readV6Config_save_cut (cfg : EncFSConfig) {cfg' : EncFSConfig} {cipher : KeyCipher}
    (hcipherAge : cfg.cipherIface.age = 0) (hnameAge : cfg.nameIface.age = 0)
    (hcipher : cfg.getCipher I = some cipher) (hsize : cfg.keyData.length = cipher.encodedKeySize)
    (hsalt : ¬ cfg.ReadsSalt) (h : readV6Config I (.archive (classVersion I) cfg.save) = some cfg') :
    cfg'.salt = [] ∧ cfg'.kdfIterations = 16 ∧ cfg'.keyData = cfg.keyData ∧
      cfg'.getCipher I = some cipher := by
  have hsubVersion : ¬ 20080816 ≤ cfg.withoutSalt.subVersion := by
    rw [ReadsSalt, not_or] at hsalt
    change ¬ 20080816 ≤ if cfg.subVersion = 0 then V6SubVersion else cfg.subVersion
    rw [if_neg hsalt.1]
    exact hsalt.2
  rw [readV6Config, load_save hcipherAge hnameAge hcipher hsize, loadSalt,
    if_neg hsubVersion] at h
  dsimp only [Option.bind_eq_bind, Option.bind_some] at h
  split at h
  · cases h
  · obtain rfl := Option.some.inj h
    exact ⟨rfl, rfl, rfl, hcipher⟩

lemma bind_eq {α β : Type} {x : Option α} {a : α} {f : α → Option β} {y : Option β}
    (hx : x = some a) (hf : f a = y) : x.bind f = y := by
  rw [hx, Option.bind_some, hf]

lemma get_varsV5 (cfg : EncFSConfig) :
    cfg.varsV5.get "creator" = writeString cfg.creator ∧
    cfg.varsV5.get "subVersion" = writeInt cfg.subVersion ∧
    cfg.varsV5.get "cipher" = writeInterface cfg.cipherIface ∧
    cfg.varsV5.get "naming" = writeInterface cfg.nameIface ∧
    cfg.varsV5.get "keySize" = writeInt cfg.keySize ∧
    cfg.varsV5.get "blockSize" = writeInt cfg.blockSize ∧
    cfg.varsV5.get "keyData" = writeString cfg.keyData ∧
    cfg.varsV5.get "blockMACBytes" = writeInt cfg.blockMACBytes ∧
    cfg.varsV5.get "blockMACRandBytes" = writeInt cfg.blockMACRandBytes ∧
    cfg.varsV5.get "uniqueIV" = writeBool cfg.uniqueIV ∧
    cfg.varsV5.get "chainedIV" = writeBool cfg.chainedNameIV ∧
    cfg.varsV5.get "externalIV" = writeBool cfg.externalIVChaining := by
  simp +decide [varsV5, ConfigReader.get, ConfigReader.find_set]

lemma get_varsV4 (cfg : EncFSConfig) :
    cfg.varsV4.get "cipher" = writeInterface cfg.cipherIface ∧
    cfg.varsV4.get "keySize" = writeInt cfg.keySize ∧
    cfg.varsV4.get "blockSize" = writeInt cfg.blockSize ∧
    cfg.varsV4.get "keyData" = writeString cfg.keyData := by
  simp +decide [varsV4, ConfigReader.get, ConfigReader.find_set]

lemma keys_varsV5 (cfg : EncFSConfig) : ∀ entry ∈ cfg.varsV5.entries, entry.1 ≠ [] := by
  rw [varsV5]
  repeat refine ConfigReader.keys_set _ (by decide) ?_
  exact fun _ h => absurd h List.not_mem_nil

lemma keys_varsV4 (cfg : EncFSConfig) : ∀ entry ∈ cfg.varsV4.entries, entry.1 ≠ [] := by
  rw [varsV4]
  repeat refine ConfigReader.keys_set _ (by decide) ?_
  exact fun _ h => absurd h List.not_mem_nil

lemma readVars_writeVars {vars vars' : ConfigReader} (hkeys : ∀ entry ∈ vars.entries, entry.1 ≠ [])
    {file file' : FileContent} (hread : readVars file = some vars')
    (h : writeVars vars (some file) = some file') :
    readVars file' = some vars ∧ ∀ varName, (vars.get varName).length < 2 ^ 31 := by
  cases file with
  | archive version elements => cases hread
  | bytes content =>
    obtain ⟨content', hsave, rfl⟩ := Option.map_eq_some_iff.mp h
    have hsize : content.length < 2 ^ 31 := by
      by_contra hlarge
      rw [readVars, ConfigReader.load, if_neg hlarge] at hread
      cases hread
    exact ⟨ConfigReader.load_save hkeys hsize hsave, ConfigReader.get_lt hsave⟩

lemma readString_get {vars : ConfigReader} {varName : String} {data : Bytes}
    (hget : vars.get varName = writeString data) (hsize : (vars.get varName).length < 2 ^ 31) :
    readString (vars.get varName) = some (data, []) := by
  have hdata : data.length < 2 ^ 31 := by
    rw [hget, writeString, List.length_append] at hsize
    omega
  have hread := readString_writeString hdata []
  rw [List.append_nil] at hread
  rw [hget, hread]

lemma readInt_get {vars : ConfigReader} {varName : String} {val : ℤ}
    (hget : vars.get varName = writeInt val) (hval : IsInt val) :
    readInt (vars.get varName) = some (val, []) := by
  have hread := readInt_writeInt hval []
  rw [List.append_nil] at hread
  rw [hget, hread]

lemma readIntOr_get {vars : ConfigReader} {varName : String} {defaultValue val : ℤ}
    (hget : vars.get varName = writeInt val) (hval : IsInt val) :
    readIntOr defaultValue (vars.get varName) = some (val, []) := by
  have hne : vars.get varName ≠ [] := by
    rw [hget]
    exact writeInt_ne_nil val
  rw [readIntOr, if_neg hne, readInt_get hget hval]

lemma readBoolOr_get {vars : ConfigReader} {varName : String} {value : Bool}
    (hget : vars.get varName = writeBool value) :
    readBoolOr false (vars.get varName) = some (value, []) := by
  rw [hget]
  cases value <;> decide

def IsInterface (iface : Interface) : Prop :=
  IsInt iface.current ∧ IsInt iface.revision ∧ IsInt iface.age

lemma readInterface_get {vars : ConfigReader} {varName : String} {iface : Interface}
    (hget : vars.get varName = writeInterface iface) (hiface : IsInterface iface)
    (hsize : (vars.get varName).length < 2 ^ 31) :
    readInterface (vars.get varName) = some (iface, []) := by
  have hname : iface.name.length < 2 ^ 31 := by
    rw [hget, writeInterface, writeString] at hsize
    simp only [List.length_append] at hsize
    omega
  have hread := readInterface_writeInterface hname hiface.1 hiface.2.1 hiface.2.2 []
  rw [List.append_nil] at hread
  rw [hget, hread]

lemma isInt_of_readIntOr {src rest : Bytes} {defaultValue val : ℤ} (hdefault : IsInt defaultValue)
    (h : readIntOr defaultValue src = some (val, rest)) : IsInt val := by
  rw [readIntOr] at h
  split at h
  · cases h
    exact hdefault
  · exact isInt_of_readInt h

structure IsV5 (currentSubVersion : ℤ) (cfg : EncFSConfig) : Prop where
  subVersion : IsInt cfg.subVersion
  subVersion_le : cfg.subVersion ≤ currentSubVersion
  le_subVersion : 20040813 ≤ cfg.subVersion
  cipherIface : IsInterface cfg.cipherIface
  nameIface : IsInterface cfg.nameIface
  keySize : IsInt cfg.keySize
  blockSize : IsInt cfg.blockSize
  blockMACBytes : IsInt cfg.blockMACBytes
  blockMACRandBytes : IsInt cfg.blockMACRandBytes
  plain : cfg.salt = [] ∧ cfg.kdfIterations = 0 ∧ cfg.desiredKDFDuration = 500 ∧
    cfg.allowHoles = false ∧ cfg.cfgType = .none

lemma isV5_of_read {currentSubVersion : ℤ} {file : FileContent} {cfg : EncFSConfig}
    (h : readV5Config currentSubVersion V5SubVersionDefault file = some cfg) :
    IsV5 currentSubVersion cfg ∧ ∃ vars, readVars file = some vars := by
  obtain ⟨vars, hvars, h⟩ := Option.bind_eq_some_iff.mp h
  obtain ⟨⟨subVersion, _⟩, hsubVersion, h⟩ := Option.bind_eq_some_iff.mp h
  dsimp only at h
  split at h
  · cases h
  split at h
  · cases h
  rename_i hmax hmin
  obtain ⟨⟨creator, _⟩, -, h⟩ := Option.bind_eq_some_iff.mp h
  obtain ⟨⟨cipherIface, _⟩, hcipherIface, h⟩ := Option.bind_eq_some_iff.mp h
  obtain ⟨⟨nameIface, _⟩, hnameIface, h⟩ := Option.bind_eq_some_iff.mp h
  obtain ⟨⟨keySize, _⟩, hkeySize, h⟩ := Option.bind_eq_some_iff.mp h
  obtain ⟨⟨blockSize, _⟩, hblockSize, h⟩ := Option.bind_eq_some_iff.mp h
  obtain ⟨⟨keyData, _⟩, -, h⟩ := Option.bind_eq_some_iff.mp h
  obtain ⟨⟨uniqueIV, _⟩, -, h⟩ := Option.bind_eq_some_iff.mp h
  obtain ⟨⟨chainedNameIV, _⟩, -, h⟩ := Option.bind_eq_some_iff.mp h
  obtain ⟨⟨externalIVChaining, _⟩, -, h⟩ := Option.bind_eq_some_iff.mp h
  obtain ⟨⟨blockMACBytes, _⟩, hmac, h⟩ := Option.bind_eq_some_iff.mp h
  obtain ⟨⟨blockMACRandBytes, _⟩, hrand, h⟩ := Option.bind_eq_some_iff.mp h
  cases h
  have hzero : IsInt 0 := ⟨le_refl 0, by decide⟩
  refine ⟨?_, vars, hvars⟩
  exact {
    subVersion := isInt_of_readIntOr hzero hsubVersion
    subVersion_le := not_lt.mp hmax
    le_subVersion := not_lt.mp hmin
    cipherIface := isInt_of_readInterface hcipherIface
    nameIface := isInt_of_readInterface hnameIface
    keySize := isInt_of_readInt hkeySize
    blockSize := isInt_of_readInt hblockSize
    blockMACBytes := isInt_of_readIntOr hzero hmac
    blockMACRandBytes := isInt_of_readIntOr hzero hrand
    plain := ⟨rfl, rfl, rfl, rfl, rfl⟩ }

lemma readV5Config_write {currentSubVersion : ℤ} {cfg : EncFSConfig} {vars : ConfigReader}
    {file file' : FileContent} (hcfg : IsV5 currentSubVersion cfg)
    (hread : readVars file = some vars) (h : writeV5Config cfg (some file) = some file') :
    readV5Config currentSubVersion V5SubVersionDefault file' = some cfg := by
  obtain ⟨hvars, hsize⟩ := readVars_writeVars (keys_varsV5 cfg) hread h
  obtain ⟨hcreator, hsubVersion, hcipher, hname, hkeySize, hblockSize, hkeyData, hmac, hrand,
    huniqueIV, hchained, hexternal⟩ := get_varsV5 cfg
  refine bind_eq hvars ?_
  refine bind_eq (readIntOr_get hsubVersion hcfg.subVersion) ?_
  refine (if_neg (not_lt.mpr hcfg.subVersion_le)).trans ?_
  refine (if_neg (not_lt.mpr hcfg.le_subVersion)).trans ?_
  refine bind_eq (readString_get hcreator (hsize _)) ?_
  refine bind_eq (readInterface_get hcipher hcfg.cipherIface (hsize _)) ?_
  refine bind_eq (readInterface_get hname hcfg.nameIface (hsize _)) ?_
  refine bind_eq (readInt_get hkeySize hcfg.keySize) ?_
  refine bind_eq (readInt_get hblockSize hcfg.blockSize) ?_
  refine bind_eq (readString_get hkeyData (hsize _)) ?_
  refine bind_eq (readBoolOr_get huniqueIV) ?_
  refine bind_eq (readBoolOr_get hchained) ?_
  refine bind_eq (readBoolOr_get hexternal) ?_
  refine bind_eq (readIntOr_get hmac hcfg.blockMACBytes) ?_
  refine bind_eq (readIntOr_get hrand hcfg.blockMACRandBytes) ?_
  obtain ⟨hsalt, hkdf, hdesired, hholes, htype⟩ := hcfg.plain
  dsimp only [new]
  rw [← hsalt, ← hkdf, ← hdesired, ← hholes, ← htype]

structure IsV4 (cfg : EncFSConfig) : Prop where
  cipherIface : IsInterface cfg.cipherIface
  keySize : IsInt cfg.keySize
  blockSize : IsInt cfg.blockSize
  plain : cfg = { new with
    cipherIface := cfg.cipherIface
    keySize := cfg.keySize
    blockSize := cfg.blockSize
    keyData := cfg.keyData
    nameIface := ⟨bytes "nameio/stream", 1, 0, 0⟩
    creator := bytes "EncFS 1.0.x"
    subVersion := 0 }

lemma isV4_of_read {file : FileContent} {cfg : EncFSConfig} (h : readV4Config 0 file = some cfg) :
    IsV4 cfg ∧ ∃ vars, readVars file = some vars := by
  obtain ⟨vars, hvars, h⟩ := Option.bind_eq_some_iff.mp h
  obtain ⟨⟨cipherIface, _⟩, hcipherIface, h⟩ := Option.bind_eq_some_iff.mp h
  obtain ⟨⟨keySize, _⟩, hkeySize, h⟩ := Option.bind_eq_some_iff.mp h
  obtain ⟨⟨blockSize, _⟩, hblockSize, h⟩ := Option.bind_eq_some_iff.mp h
  obtain ⟨⟨keyData, _⟩, -, h⟩ := Option.bind_eq_some_iff.mp h
  cases h
  refine ⟨?_, vars, hvars⟩
  exact {
    cipherIface := isInt_of_readInterface hcipherIface
    keySize := isInt_of_readInt hkeySize
    blockSize := isInt_of_readInt hblockSize
    plain := rfl }

lemma readV4Config_write {cfg : EncFSConfig} {vars : ConfigReader} {file file' : FileContent}
    (hcfg : IsV4 cfg) (hread : readVars file = some vars)
    (h : writeV4Config cfg (some file) = some file') : readV4Config 0 file' = some cfg := by
  obtain ⟨hvars, hsize⟩ := readVars_writeVars (keys_varsV4 cfg) hread h
  obtain ⟨hcipher, hkeySize, hblockSize, hkeyData⟩ := get_varsV4 cfg
  refine bind_eq hvars ?_
  refine bind_eq (readInterface_get hcipher hcfg.cipherIface (hsize _)) ?_
  refine bind_eq (readInt_get hkeySize hcfg.keySize) ?_
  refine bind_eq (readInt_get hblockSize hcfg.blockSize) ?_
  refine bind_eq (readString_get hkeyData (hsize _)) ?_
  exact congrArg some hcfg.plain.symm

end EncFSConfig

section

variable {I : Installation} {files files' : Files} {rootDir : Bytes}

lemma readConfigFrom_eq_some {table : List ConfigInfo} {config : EncFSConfig}
    (h : readConfigFrom I files rootDir table = some config) :
    ∃ nm ∈ table, readConfigLoad files nm (nm.path I rootDir) = some config ∧
      ∀ file, (files (nm.path I rootDir)).isSome →
        readConfigFrom I (Function.update files (nm.path I rootDir) (some file)) rootDir table =
          readConfigLoad (Function.update files (nm.path I rootDir) (some file)) nm
            (nm.path I rootDir) := by
  induction table with
  | nil => cases h
  | cons nm rest ih =>
    rw [readConfigFrom] at h
    split at h
    · rename_i hhere
      refine ⟨nm, List.mem_cons_self, h, fun file _ => ?_⟩
      rw [readConfigFrom, if_pos]
      right
      simp
    · rename_i hhere
      rw [not_or] at hhere
      obtain ⟨nm', hmem, hload, hagain⟩ := ih h
      refine ⟨nm', List.mem_cons_of_mem nm hmem, hload, fun file hfile => ?_⟩
      have hne : nm.path I rootDir ≠ nm'.path I rootDir := by
        intro heq
        rw [heq] at hhere
        exact hhere.2 hfile
      rw [readConfigFrom, if_neg, hagain file hfile]
      rw [Function.update_of_ne hne, not_or]
      exact hhere

lemma saveConfigTo_eq_some {table : List ConfigInfo} {opened : Bool} {type : ConfigType}
    {config : EncFSConfig} (h : saveConfigTo I files rootDir opened type config table = some files') :
    ∃ nm ∈ table, ∃ saveFunc file, nm.saveFunc = some saveFunc ∧ nm.type = type ∧
      saveFunc config (files (nm.path I rootDir)) = some file ∧
      files' = Function.update files (nm.path I rootDir) (some file) := by
  induction table with
  | nil => cases h
  | cons nm rest ih =>
    rw [saveConfigTo] at h
    split at h
    · rename_i saveFunc hsave
      split at h
      · rename_i htype
        split at h
        · obtain ⟨file, hfile, rfl⟩ := Option.map_eq_some_iff.mp h
          exact ⟨nm, List.mem_cons_self, saveFunc, file, hsave, htype, hfile, rfl⟩
        · cases h
      · obtain ⟨nm', hmem, hrest⟩ := ih h
        exact ⟨nm', List.mem_cons_of_mem nm hmem, hrest⟩
    · obtain ⟨nm', hmem, hrest⟩ := ih h
      exact ⟨nm', List.mem_cons_of_mem nm hmem, hrest⟩

lemma cfgType_of_load {nm : ConfigInfo} {path : Bytes} {config : EncFSConfig}
    (h : readConfigLoad files nm path = some config) : config.cfgType = nm.type := by
  rw [readConfigLoad] at h
  split at h
  · obtain ⟨file, -, h⟩ := Option.bind_eq_some_iff.mp h
    obtain ⟨loaded, -, h⟩ := Option.bind_eq_some_iff.mp h
    cases h
    rfl
  · cases h
    rfl

inductive IsFormat (I : Installation) : ConfigInfo → Prop
  | v6 : IsFormat I (ConfigInfo.v6 I)
  | v5 : IsFormat I ConfigInfo.v5
  | v4 : IsFormat I ConfigInfo.v4

lemma isFormat_of_mem {nm nm' : ConfigInfo} (hmem : nm ∈ ConfigInfo.configFileMapping I)
    (hmem' : nm' ∈ ConfigInfo.configFileMapping I) (hsave : nm'.saveFunc.isSome)
    (htype : nm'.type = nm.type) : nm' = nm ∧ IsFormat I nm := by
  simp only [ConfigInfo.configFileMapping, List.mem_cons, List.not_mem_nil, or_false] at hmem hmem'
  rcases hmem' with rfl | rfl | rfl | rfl | rfl | rfl
  · rcases hmem with rfl | rfl | rfl | rfl | rfl | rfl <;> first | exact ⟨rfl, .v6⟩ | cases htype
  · rcases hmem with rfl | rfl | rfl | rfl | rfl | rfl <;> first | exact ⟨rfl, .v5⟩ | cases htype
  · rcases hmem with rfl | rfl | rfl | rfl | rfl | rfl <;> first | exact ⟨rfl, .v4⟩ | cases htype
  all_goals cases hsave

lemma readConfig_saveConfig {config config' : EncFSConfig} {opened : Bool}
    (hread : readConfig I files rootDir = some config)
    (hsave : saveConfig I files rootDir opened config.cfgType config' = some files') :
    ∃ nm loadFunc saveFunc file file' loaded, IsFormat I nm ∧
      nm.loadFunc = some loadFunc ∧ nm.saveFunc = some saveFunc ∧
      loadFunc file = some loaded ∧ config = { loaded with cfgType := nm.type } ∧
      saveFunc config' (some file) = some file' ∧
      readConfig I files' rootDir =
        (loadFunc file').map fun again => { again with cfgType := nm.type } := by
  obtain ⟨nm, hmem, hload, hagain⟩ := readConfigFrom_eq_some hread
  obtain ⟨nm', hmem', saveFunc, file', hsaveFunc, htype, hfile', rfl⟩ := saveConfigTo_eq_some hsave
  rw [cfgType_of_load hload] at htype
  obtain ⟨rfl, hformat⟩ := isFormat_of_mem hmem hmem' (by simp [hsaveFunc]) htype
  obtain ⟨loadFunc, hloadFunc⟩ : ∃ loadFunc, nm'.loadFunc = some loadFunc := by
    cases hformat <;> exact ⟨_, rfl⟩
  rw [readConfigLoad, hloadFunc] at hload
  obtain ⟨file, hfile, hload⟩ := Option.bind_eq_some_iff.mp hload
  obtain ⟨loaded, hloaded, hload⟩ := Option.bind_eq_some_iff.mp hload
  rw [hfile] at hfile'
  refine ⟨nm', loadFunc, saveFunc, file, file', loaded, hformat, hloadFunc, hsaveFunc, hloaded,
    (Option.some.inj hload).symm, hfile', ?_⟩
  refine (hagain file' (by simp [hfile])).trans ?_
  rw [readConfigLoad, hloadFunc, Function.update_self]
  dsimp only [Option.bind_eq_bind, Option.bind_some]
  cases loadFunc file' <;> rfl

end

end EncFS
