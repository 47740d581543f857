import EncFS.Config.Formats

set_option autoImplicit false

namespace EncFS

open ConfigVar

structure Attempt where
  passBuf : Option Bytes
  passBuf2 : Option Bytes
  random : Option (ℕ → UInt8)
  deltas : List ℤ

namespace EncFSConfig

variable (I : Installation)

def upgradeSalt (cfg : EncFSConfig) : EncFSConfig :=
  if cfg.salt = [] ∧ cfg.kdfIterations = 0 ∧ cfg.cfgType = .v6 then
    { cfg with salt := List.replicate 20 0 }
  else cfg

def makeKey (cfg : EncFSConfig) (password : Bytes) (a : Attempt) : Option Bytes × EncFSConfig :=
  match cfg.getCipher I with
  | none => (none, cfg)
  | some cipher =>
    let cfg := cfg.upgradeSalt
    if cfg.salt ≠ [] then
      let salt := if cfg.kdfIterations = 0 then cipher.randomize a.random cfg.salt.length
        else some cfg.salt
      match salt with
      | none => (none, { cfg with salt := List.replicate cfg.salt.length 0 })
      | some salt =>
        match cipher.newSaltedKey I.estimate a.deltas password cfg.kdfIterations
          cfg.desiredKDFDuration salt with
        | none => (none, { cfg with salt })
        | some (userKey, kdfIterations) => (some userKey, { cfg with salt, kdfIterations })
    else (some (cipher.newKey password), cfg)

def getUserKey (cfg : EncFSConfig) (a : Attempt) : Option Bytes × EncFSConfig :=
  match a.passBuf with
  | none => (none, cfg)
  | some password => makeKey I cfg password a

def getNewUserKey (cfg : EncFSConfig) : List Attempt → Option (Bytes × Bytes × EncFSConfig)
  | [] => none
  | a :: attempts =>
    match a.passBuf with
    | none => getNewUserKey cfg attempts
    | some password =>
      if a.passBuf2 = some password then
        match makeKey I cfg password a with
        | (some userKey, cfg) => some (password, userKey, cfg)
        | (none, cfg) => getNewUserKey cfg attempts
      else getNewUserKey cfg attempts

def newKey (useStdin : Bool) (cfg : EncFSConfig) (attempts : List Attempt) :
    Option (Bytes × Bytes × EncFSConfig) :=
  if useStdin then
    match attempts with
    | [] => none
    | a :: _ =>
      match a.passBuf with
      | none => none
      | some password =>
        match makeKey I cfg password a with
        | (some userKey, cfg) => some (password, userKey, cfg)
        | (none, _) => none
  else getNewUserKey I cfg attempts

def volumeKey (cfg : EncFSConfig) (password : Bytes) (a : Attempt) : Option Bytes := do
  let cipher ← cfg.getCipher I
  let userKey ← (makeKey I cfg password a).1
  cipher.readKey cfg.keyData userKey true

end EncFSConfig

def doChpasswd (I : Installation) (files : Files) (rootDir : Bytes) (useStdin : Bool)
    (old : Attempt) (attempts : List Attempt) (opened : Bool) : Option (Bytes × Files) := do
  let config ← readConfig I files rootDir
  let cfgType := config.cfgType
  let cipher ← config.getCipher I
  let (userKey, config) := config.getUserKey I old
  let userKey ← userKey
  let volumeKey ← cipher.readKey config.keyData userKey true
  let config := { config with kdfIterations := 0 }
  let (password, userKey, config) ← config.newKey I useStdin attempts
  let config := { config with keyData := cipher.writeKey volumeKey userKey }
  let files ← saveConfig I files rootDir opened cfgType config
  some (password, files)

structure CodingParameters where
  cipherIface : Interface
  nameIface : Interface
  keySize : ℤ
  blockSize : ℤ
  blockMACBytes : ℤ
  blockMACRandBytes : ℤ
  uniqueIV : Bool
  externalIVChaining : Bool
  chainedNameIV : Bool
  allowHoles : Bool

def EncFSConfig.parameters (cfg : EncFSConfig) : CodingParameters where
  cipherIface := cfg.cipherIface
  nameIface := cfg.nameIface
  keySize := cfg.keySize
  blockSize := cfg.blockSize
  blockMACBytes := cfg.blockMACBytes
  blockMACRandBytes := cfg.blockMACRandBytes
  uniqueIV := cfg.uniqueIV
  externalIVChaining := cfg.externalIVChaining
  chainedNameIV := cfg.chainedNameIV
  allowHoles := cfg.allowHoles

/-- The saved configuration gives the volume key for the new password and has the parameters of the
old one. -/
def KeepsVolume (I : Installation) (rootDir : Bytes) (config : EncFSConfig)
    (volumeKey password : Bytes) (files : Files) : Prop :=
  ∃ config', readConfig I files rootDir = some config' ∧
    config'.parameters = config.parameters ∧
    ∀ a : Attempt, config'.volumeKey I password a = some volumeKey

namespace EncFSConfig

variable {I : Installation}

lemma upgradeSalt_plain {cfg : EncFSConfig} (h : ¬ (cfg.kdfIterations = 0 ∧ cfg.cfgType = .v6)) :
    cfg.upgradeSalt = cfg :=
  if_neg fun hnew => h hnew.2

lemma upgradeSalt_v6 {cfg : EncFSConfig} (hkdf : cfg.kdfIterations = 0) (hv6 : cfg.cfgType = .v6) :
    ∃ salt, salt ≠ [] ∧ cfg.upgradeSalt = { cfg with salt := salt } := by
  by_cases hsalt : cfg.salt = []
  · refine ⟨List.replicate 20 0, by simp, ?_⟩
    exact if_pos ⟨hsalt, hkdf, hv6⟩
  · exact ⟨cfg.salt, hsalt, if_neg fun hnew => hsalt hnew.1⟩

lemma upgradeSalt_config (cfg : EncFSConfig) :
    ∃ salt, cfg.upgradeSalt = { cfg with salt := salt } := by
  by_cases hnew : cfg.salt = [] ∧ cfg.kdfIterations = 0 ∧ cfg.cfgType = .v6
  · exact ⟨_, if_pos hnew⟩
  · exact ⟨cfg.salt, if_neg hnew⟩

lemma makeKey_plain {cfg : EncFSConfig} {cipher : KeyCipher} (password : Bytes) (a : Attempt)
    (hcipher : cfg.getCipher I = some cipher) (hsalt : cfg.salt = [])
    (hplain : ¬ (cfg.kdfIterations = 0 ∧ cfg.cfgType = .v6)) :
    makeKey I cfg password a = (some (cipher.newKey password), cfg) := by
  simp only [makeKey, hcipher, upgradeSalt_plain hplain]
  rw [if_neg (not_not.mpr hsalt)]

lemma makeKey_config (cfg : EncFSConfig) (password : Bytes) (a : Attempt) :
    ∃ salt kdfIterations, (makeKey I cfg password a).2 =
      { cfg with salt := salt, kdfIterations := kdfIterations } := by
  obtain ⟨salt, hupgrade⟩ := upgradeSalt_config cfg
  rw [makeKey]
  split
  · exact ⟨cfg.salt, cfg.kdfIterations, rfl⟩
  · rw [hupgrade]
    dsimp only
    split
    · split
      · exact ⟨_, _, rfl⟩
      · split
        · exact ⟨_, _, rfl⟩
        · exact ⟨_, _, rfl⟩
    · exact ⟨_, _, rfl⟩

lemma makeKey_v6 {cfg : EncFSConfig} {cipher : KeyCipher} (password : Bytes) (a : Attempt)
    (hcipher : cfg.getCipher I = some cipher) (hkdf : cfg.kdfIterations = 0)
    (hv6 : cfg.cfgType = .v6) :
    match makeKey I cfg password a with
    | (none, cfg') => cfg'.kdfIterations = 0
    | (some key, cfg') => cfg'.salt ≠ [] ∧
      cipher.newSaltedKey I.estimate a.deltas password 0 cfg.desiredKDFDuration cfg'.salt =
        some (key, cfg'.kdfIterations) := by
  obtain ⟨salt, hsalt, hupgrade⟩ := upgradeSalt_v6 hkdf hv6
  simp only [makeKey, hcipher, hupgrade]
  rw [if_pos hsalt, if_pos hkdf]
  cases hrandom : cipher.randomize a.random salt.length with
  | none => exact hkdf
  | some buf =>
    have hbuf : buf ≠ [] := by
      apply List.ne_nil_of_length_pos
      rw [KeyCipher.randomize_length hrandom]
      exact List.length_pos_iff.mpr hsalt
    rw [hkdf]
    dsimp only
    cases hkey : cipher.newSaltedKey I.estimate a.deltas password 0 cfg.desiredKDFDuration buf with
    | none => rfl
    | some made => exact ⟨hbuf, hkey⟩

lemma makeKey_again {cfg : EncFSConfig} {cipher : KeyCipher} {password key : Bytes}
    {deltas : List ℤ} {desired : ℤ} (a : Attempt) (hcipher : cfg.getCipher I = some cipher)
    (hsalt : cfg.salt ≠ [])
    (hkey : cipher.newSaltedKey I.estimate deltas password 0 desired cfg.salt =
      some (key, cfg.kdfIterations)) : (makeKey I cfg password a).1 = some key := by
  have hupgrade : cfg.upgradeSalt = cfg := if_neg fun hnew => hsalt hnew.1
  simp only [makeKey, hcipher, hupgrade]
  rw [if_pos hsalt]
  cases cipher with
  | ssl S =>
    have hne := (S.newKey_eq_some hkey).1
    simp only [if_neg hne, KeyCipher.newSaltedKey_again hkey]
  | null =>
    obtain ⟨rfl, hzero⟩ : KeyCipher.gNullKey = key ∧ 0 = cfg.kdfIterations :=
      Prod.mk.inj (Option.some.inj hkey)
    rw [if_pos hzero.symm]
    rfl

lemma getNewUserKey_plain {cfg cfg' : EncFSConfig} {cipher : KeyCipher} {attempts : List Attempt}
    {password key : Bytes} (hcipher : cfg.getCipher I = some cipher) (hsalt : cfg.salt = [])
    (hplain : cfg.cfgType ≠ .v6)
    (h : getNewUserKey I cfg attempts = some (password, key, cfg')) :
    cfg' = cfg ∧ key = cipher.newKey password := by
  induction attempts with
  | nil => cases h
  | cons a attempts ih =>
    rw [getNewUserKey] at h
    split at h
    · exact ih h
    · split at h
      · rw [makeKey_plain _ a hcipher hsalt fun hv6 => hplain hv6.2] at h
        cases h
        exact ⟨rfl, rfl⟩
      · exact ih h

lemma newKey_plain {cfg cfg' : EncFSConfig} {cipher : KeyCipher} {attempts : List Attempt}
    {useStdin : Bool} {password key : Bytes} (hcipher : cfg.getCipher I = some cipher)
    (hsalt : cfg.salt = []) (hplain : cfg.cfgType ≠ .v6)
    (h : newKey I useStdin cfg attempts = some (password, key, cfg')) :
    cfg' = cfg ∧ key = cipher.newKey password := by
  rw [newKey.eq_def] at h
  split at h
  · split at h
    · cases h
    · split at h
      · cases h
      · rw [makeKey_plain _ _ hcipher hsalt fun hv6 => hplain hv6.2] at h
        cases h
        exact ⟨rfl, rfl⟩
  · exact getNewUserKey_plain hcipher hsalt hplain h

def HasKey (I : Installation) (cipher : KeyCipher) (cfg cfg' : EncFSConfig)
    (password key : Bytes) : Prop :=
  ∃ salt kdfIterations deltas, salt ≠ [] ∧
    cfg' = { cfg with salt := salt, kdfIterations := kdfIterations } ∧
    cipher.newSaltedKey I.estimate deltas password 0 cfg.desiredKDFDuration salt =
      some (key, kdfIterations)

lemma hasKey_of_makeKey {cfg cfg' : EncFSConfig} {cipher : KeyCipher} {password key : Bytes}
    {a : Attempt} (hcipher : cfg.getCipher I = some cipher) (hkdf : cfg.kdfIterations = 0)
    (hv6 : cfg.cfgType = .v6) (h : makeKey I cfg password a = (some key, cfg')) :
    HasKey I cipher cfg cfg' password key := by
  have hmade := makeKey_v6 password a hcipher hkdf hv6
  obtain ⟨salt, kdf, hconfig⟩ := makeKey_config (I := I) cfg password a
  rw [h] at hmade hconfig
  obtain ⟨hsalt, hkey⟩ := hmade
  subst hconfig
  exact ⟨salt, kdf, a.deltas, hsalt, rfl, hkey⟩

lemma getNewUserKey_v6 {cfg cfg' : EncFSConfig} {cipher : KeyCipher} {attempts : List Attempt}
    {password key : Bytes} (hcipher : cfg.getCipher I = some cipher) (hkdf : cfg.kdfIterations = 0)
    (hv6 : cfg.cfgType = .v6) (h : getNewUserKey I cfg attempts = some (password, key, cfg')) :
    HasKey I cipher cfg cfg' password key := by
  induction attempts generalizing cfg with
  | nil => cases h
  | cons a attempts ih =>
    rw [getNewUserKey] at h
    split at h
    · exact ih hcipher hkdf hv6 h
    · rename_i typed htyped
      split at h
      · cases hmake : makeKey I cfg typed a with
        | mk made cfg₁ =>
          rw [hmake] at h
          cases made with
          | some userKey =>
            cases h
            exact hasKey_of_makeKey hcipher hkdf hv6 hmake
          | none =>
            -- the salt is another one, and the next password gets yet another
            have hfailed := makeKey_v6 typed a hcipher hkdf hv6
            obtain ⟨salt, kdf, hconfig⟩ := makeKey_config (I := I) cfg typed a
            rw [hmake] at hfailed hconfig
            dsimp only at hfailed hconfig
            subst hconfig
            have hnext : HasKey I cipher { cfg with salt := salt, kdfIterations := kdf } cfg' password
                key := ih hcipher hfailed hv6 h
            obtain ⟨salt', kdf', deltas, hsalt, rfl, hkey⟩ := hnext
            exact ⟨salt', kdf', deltas, hsalt, rfl, hkey⟩
      · exact ih hcipher hkdf hv6 h

lemma newKey_v6 {cfg cfg' : EncFSConfig} {cipher : KeyCipher} {attempts : List Attempt}
    {useStdin : Bool} {password key : Bytes} (hcipher : cfg.getCipher I = some cipher)
    (hkdf : cfg.kdfIterations = 0) (hv6 : cfg.cfgType = .v6)
    (h : newKey I useStdin cfg attempts = some (password, key, cfg')) :
    HasKey I cipher cfg cfg' password key := by
  rw [newKey.eq_def] at h
  split at h
  · split at h
    · cases h
    · rename_i a _
      split at h
      · cases h
      · rename_i typed _
        cases hmake : makeKey I cfg typed a with
        | mk made cfg₁ =>
          rw [hmake] at h
          cases made with
          | none => cases h
          | some userKey =>
            cases h
            exact hasKey_of_makeKey hcipher hkdf hv6 hmake
  · exact getNewUserKey_v6 hcipher hkdf hv6 h

end EncFSConfig

section

variable {I : Installation} {files files' : Files} {rootDir oldPassword password volumeKey : Bytes}
  {useStdin opened : Bool} {old : Attempt} {attempts : List Attempt} {config : EncFSConfig}

lemma doChpasswd_eq_some (hread : readConfig I files rootDir = some config)
    (hold : old.passBuf = some oldPassword)
    (hunlock : config.volumeKey I oldPassword old = some volumeKey)
    (h : doChpasswd I files rootDir useStdin old attempts opened = some (password, files')) :
    ∃ cipher oldKey key salt config', config.getCipher I = some cipher ∧
      cipher.readKey config.keyData oldKey true = some volumeKey ∧
      (config.salt = [] → config.cfgType ≠ .v6 → salt = []) ∧
      EncFSConfig.newKey I useStdin { config with salt := salt, kdfIterations := 0 } attempts =
        some (password, key, config') ∧
      saveConfig I files rootDir opened config.cfgType
        { config' with keyData := cipher.writeKey volumeKey key } = some files' := by
  obtain ⟨config₀, hread', h⟩ := Option.bind_eq_some_iff.mp h
  obtain rfl : config = config₀ := Option.some.inj (hread.symm.trans hread')
  obtain ⟨cipher, hcipher, h⟩ := Option.bind_eq_some_iff.mp h
  obtain ⟨cipher', hcipher', hunlock⟩ := Option.bind_eq_some_iff.mp hunlock
  obtain rfl : cipher = cipher' := Option.some.inj (hcipher.symm.trans hcipher')
  obtain ⟨oldKey, holdKey, hunlock⟩ := Option.bind_eq_some_iff.mp hunlock
  have hmake : config.getUserKey I old = config.makeKey I oldPassword old := by
    rw [EncFSConfig.getUserKey, hold]
  obtain ⟨salt, kdf, hconfig⟩ := EncFSConfig.makeKey_config (I := I) config oldPassword old
  have hplain : config.salt = [] → config.cfgType ≠ .v6 → salt = [] := by
    intro hsalt htype
    rw [EncFSConfig.makeKey_plain oldPassword old hcipher hsalt fun hv6 => htype hv6.2] at hconfig
    exact (congrArg EncFSConfig.salt hconfig).symm.trans hsalt
  rw [hmake] at h
  cases hmade : config.makeKey I oldPassword old with
  | mk made config₁ =>
    rw [hmade] at h holdKey hconfig
    dsimp only at holdKey hconfig
    subst holdKey hconfig
    obtain ⟨oldKey', hkey, h⟩ := Option.bind_eq_some_iff.mp h
    obtain rfl : oldKey = oldKey' := Option.some.inj hkey
    obtain ⟨volumeKey', hvolume, h⟩ := Option.bind_eq_some_iff.mp h
    obtain rfl : volumeKey = volumeKey' := Option.some.inj (hunlock.symm.trans hvolume)
    obtain ⟨⟨password', key, config'⟩, hnew, h⟩ := Option.bind_eq_some_iff.mp h
    obtain ⟨files₁, hsave, h⟩ := Option.bind_eq_some_iff.mp h
    cases h
    exact ⟨cipher, oldKey, key, salt, config', hcipher, hunlock, hplain, hnew, hsave⟩

/-- No key derived from the password with a salt writes a volume key that the key derived without a
salt reads. -/
def ToldApart (I : Installation) (config : EncFSConfig) (volumeKey password : Bytes) : Prop :=
  ∃ S, config.getCipher I = some (.ssl S) ∧ ∀ salt iterations key,
    S.pbkdf2 password salt iterations = some key →
      S.readKey (S.writeKey volumeKey key) (S.bytesToKey password) true ≠ some volumeKey

lemma volumeKey_eq {cipher : KeyCipher} {key : Bytes} (a : Attempt)
    (hcipher : config.getCipher I = some cipher)
    (hkey : (config.makeKey I password a).1 = some key) :
    config.volumeKey I password a = cipher.readKey config.keyData key true := by
  rw [EncFSConfig.volumeKey, hcipher, Option.bind_eq_bind, Option.bind_some, hkey]
  rfl

lemma getCipher_congr {cfg cfg' : EncFSConfig} (h : cfg'.parameters = cfg.parameters) :
    cfg'.getCipher I = cfg.getCipher I := by
  rw [EncFSConfig.getCipher, EncFSConfig.getCipher,
    show cfg'.cipherIface = cfg.cipherIface from congrArg CodingParameters.cipherIface h,
    show cfg'.keySize = cfg.keySize from congrArg CodingParameters.keySize h]

lemma keepsVolume_plain {again : EncFSConfig} {cipher : KeyCipher} {oldKey : Bytes}
    (hcipher : config.getCipher I = some cipher)
    (hvolume : cipher.readKey config.keyData oldKey true = some volumeKey)
    (hagain : readConfig I files' rootDir = some again)
    (hparameters : again.parameters = config.parameters) (htype : again.cfgType ≠ .v6)
    (hsalt : again.salt = [])
    (hdata : again.keyData = cipher.writeKey volumeKey (cipher.newKey password)) :
    KeepsVolume I rootDir config volumeKey password files' := by
  refine ⟨again, hagain, hparameters, fun a => ?_⟩
  have hcipher' : again.getCipher I = some cipher := (getCipher_congr hparameters).trans hcipher
  have hmake := EncFSConfig.makeKey_plain password a hcipher' hsalt fun hv6 => htype hv6.2
  rw [volumeKey_eq a hcipher' (congrArg Prod.fst hmake), hdata]
  exact (KeyCipher.readKey_writeKey _ hvolume).1

lemma keepsVolume_salted {again : EncFSConfig} {cipher : KeyCipher} {oldKey key : Bytes}
    {deltas : List ℤ} {desired : ℤ} (hcipher : config.getCipher I = some cipher)
    (hvolume : cipher.readKey config.keyData oldKey true = some volumeKey)
    (hagain : readConfig I files' rootDir = some again)
    (hparameters : again.parameters = config.parameters) (hsalt : again.salt ≠ [])
    (hkey : cipher.newSaltedKey I.estimate deltas password 0 desired again.salt =
      some (key, again.kdfIterations))
    (hdata : again.keyData = cipher.writeKey volumeKey key) :
    KeepsVolume I rootDir config volumeKey password files' := by
  refine ⟨again, hagain, hparameters, fun a => ?_⟩
  have hcipher' : again.getCipher I = some cipher := (getCipher_congr hparameters).trans hcipher
  rw [volumeKey_eq a hcipher' (EncFSConfig.makeKey_again a hcipher' hsalt hkey), hdata]
  exact (KeyCipher.readKey_writeKey _ hvolume).1

lemma not_keepsVolume {again : EncFSConfig} {cipher : KeyCipher} {key : Bytes} {deltas : List ℤ}
    {desired kdfIterations : ℤ} {salt : Bytes} (hcipher : config.getCipher I = some cipher)
    (happart : ToldApart I config volumeKey password)
    (hagain : readConfig I files' rootDir = some again)
    (hcipher' : again.getCipher I = some cipher) (hsalt : again.salt = [])
    (hkdf : again.kdfIterations = 16)
    (hkey : cipher.newSaltedKey I.estimate deltas password 0 desired salt =
      some (key, kdfIterations))
    (hdata : again.keyData = cipher.writeKey volumeKey key) :
    ¬ KeepsVolume I rootDir config volumeKey password files' := by
  rintro ⟨again', hagain', -, hunlock⟩
  obtain rfl : again = again' := Option.some.inj (hagain.symm.trans hagain')
  obtain ⟨S, hS, happart⟩ := happart
  obtain rfl : cipher = .ssl S := Option.some.inj (hcipher.symm.trans hS)
  have ha := hunlock ⟨none, none, none, []⟩
  have hmake := EncFSConfig.makeKey_plain password ⟨none, none, none, []⟩ hcipher' hsalt
    fun hzero => (by omega)
  rw [volumeKey_eq _ hcipher' (congrArg Prod.fst hmake), hdata] at ha
  exact happart salt kdfIterations key (S.newKey_eq_some hkey).2 ha

lemma keepsVolume_v6 {loaded config' : EncFSConfig} {cipher : KeyCipher} {oldKey key salt : Bytes}
    {file file' : FileContent} (hloaded : EncFSConfig.readV6Config I file = some loaded)
    (hconfig : config = { loaded with cfgType := .v6 }) (hcipher : config.getCipher I = some cipher)
    (hvolume : cipher.readKey config.keyData oldKey true = some volumeKey)
    (hnew : EncFSConfig.newKey I useStdin { config with salt := salt, kdfIterations := 0 } attempts =
      some (password, key, config'))
    (hsaved : EncFSConfig.writeV6Config I { config' with keyData := cipher.writeKey volumeKey key }
      (some file) = some file')
    (hagain : readConfig I files' rootDir =
      (EncFSConfig.readV6Config I file').map fun again => { again with cfgType := .v6 }) :
    (config.ReadsSalt → KeepsVolume I rootDir config volumeKey password files') ∧
    (ToldApart I config volumeKey password →
      KeepsVolume I rootDir config volumeKey password files' → config.ReadsSalt) := by
  cases hsaved
  have htype : config.cfgType = .v6 := congrArg EncFSConfig.cfgType hconfig
  obtain ⟨hcipherAge, hnameAge⟩ : config.cipherIface.age = 0 ∧ config.nameIface.age = 0 := by
    have hages := EncFSConfig.readV6Config_eq_some hloaded
    rw [hconfig]
    exact hages
  obtain ⟨salt', kdf, deltas, hsalt', rfl, hkey⟩ : EncFSConfig.HasKey I cipher
    { config with salt := salt, kdfIterations := 0 } config' password key :=
      EncFSConfig.newKey_v6 hcipher rfl htype hnew
  have hsize := (KeyCipher.readKey_writeKey key hvolume).2
  let saved := { config with
    salt := salt', kdfIterations := kdf, keyData := cipher.writeKey volumeKey key }
  constructor
  · intro hsalt
    rw [EncFSConfig.readV6Config_save saved hcipherAge hnameAge hcipher hsize hsalt] at hagain
    exact keepsVolume_salted hcipher hvolume hagain rfl hsalt' hkey rfl
  · intro happart hkeeps
    by_contra hsalt
    obtain ⟨again, hagain', -, -⟩ := id hkeeps
    rw [hagain] at hagain'
    obtain ⟨again', hread, rfl⟩ := Option.map_eq_some_iff.mp hagain'
    obtain ⟨hempty, hkdf, hdata, hcipher'⟩ :=
      EncFSConfig.readV6Config_save_cut saved hcipherAge hnameAge hcipher hsize hsalt hread
    exact not_keepsVolume hcipher happart (hagain.trans hagain') hcipher' hempty hkdf hkey hdata
      hkeeps

lemma keepsVolume_unsalted {loaded config' : EncFSConfig} {type : ConfigType} {cipher : KeyCipher}
    {oldKey key salt : Bytes} {file file' : FileContent}
    {loadFunc : FileContent → Option EncFSConfig}
    {saveFunc : EncFSConfig → Option FileContent → Option FileContent} (htype : type ≠ .v6)
    (hsalt : loaded.salt = []) (hconfig : config = { loaded with cfgType := type })
    (hcipher : config.getCipher I = some cipher)
    (hvolume : cipher.readKey config.keyData oldKey true = some volumeKey)
    (hplain : config.salt = [] → config.cfgType ≠ .v6 → salt = [])
    (hnew : EncFSConfig.newKey I useStdin { config with salt := salt, kdfIterations := 0 } attempts =
      some (password, key, config'))
    (hsaved : saveFunc { config' with keyData := cipher.writeKey volumeKey key } (some file) =
      some file')
    (hreload : ∀ keyData, saveFunc { loaded with
        cfgType := type, salt := [], kdfIterations := 0, keyData := keyData } (some file) =
      some file' → loadFunc file' = some { loaded with keyData := keyData })
    (hagain : readConfig I files' rootDir =
      (loadFunc file').map fun again => { again with cfgType := type }) :
    KeepsVolume I rootDir config volumeKey password files' := by
  subst hconfig
  obtain rfl := hplain hsalt htype
  obtain ⟨rfl, rfl⟩ : config' = { loaded with cfgType := type, salt := [], kdfIterations := 0 } ∧
      key = cipher.newKey password := EncFSConfig.newKey_plain hcipher rfl htype hnew
  rw [hreload _ hsaved] at hagain
  exact keepsVolume_plain hcipher hvolume hagain rfl htype hsalt rfl

theorem password_change (hread : readConfig I files rootDir = some config)
    (hold : old.passBuf = some oldPassword)
    (hunlock : config.volumeKey I oldPassword old = some volumeKey)
    (h : doChpasswd I files rootDir useStdin old attempts opened = some (password, files')) :
    (config.cfgType ≠ .v6 ∨ config.ReadsSalt →
      KeepsVolume I rootDir config volumeKey password files') ∧
    (ToldApart I config volumeKey password →
      KeepsVolume I rootDir config volumeKey password files' →
        config.cfgType ≠ .v6 ∨ config.ReadsSalt) := by
  obtain ⟨cipher, oldKey, key, salt, config', hcipher, hvolume, hplain, hnew, hsave⟩ :=
    doChpasswd_eq_some hread hold hunlock h
  obtain ⟨nm, loadFunc, saveFunc, file, file', loaded, hformat, hloadFunc, hsaveFunc, hloaded,
    hconfig, hsaved, hagain⟩ := readConfig_saveConfig hread hsave
  have htype : config.cfgType = nm.type := congrArg EncFSConfig.cfgType hconfig
  cases hformat with
  | v6 =>
    cases hloadFunc
    cases hsaveFunc
    obtain ⟨hkeeps, hreads⟩ :=
      keepsVolume_v6 hloaded hconfig hcipher hvolume hnew hsaved hagain
    constructor
    · rintro (hne | hsalt)
      · exact absurd htype hne
      · exact hkeeps hsalt
    · exact fun happart hkeep => Or.inr (hreads happart hkeep)
  | v5 =>
    cases hloadFunc
    cases hsaveFunc
    have hne : config.cfgType ≠ .v6 := fun h => (by cases htype.symm.trans h)
    obtain ⟨hv5, vars, hvars⟩ := EncFSConfig.isV5_of_read hloaded
    have hkeeps := keepsVolume_unsalted (by decide) hv5.plain.1 hconfig hcipher hvolume hplain hnew
      hsaved (fun keyData h => EncFSConfig.readV5Config_write
        (show EncFSConfig.IsV5 V5SubVersion { loaded with keyData := keyData } from { hv5 with })
        hvars h) hagain
    exact ⟨fun _ => hkeeps, fun _ _ => Or.inl hne⟩
  | v4 =>
    cases hloadFunc
    cases hsaveFunc
    have hne : config.cfgType ≠ .v6 := fun h => (by cases htype.symm.trans h)
    obtain ⟨hv4, vars, hvars⟩ := EncFSConfig.isV4_of_read hloaded
    have hkeeps := keepsVolume_unsalted (by decide) (congrArg EncFSConfig.salt hv4.plain) hconfig
      hcipher hvolume hplain hnew hsaved (fun keyData h => EncFSConfig.readV4Config_write
        (show EncFSConfig.IsV4 { loaded with keyData := keyData } from { hv4 with
          plain := congrArg (fun cfg => { cfg with keyData := keyData }) hv4.plain })
        hvars h) hagain
    exact ⟨fun _ => hkeeps, fun _ _ => Or.inl hne⟩

end

def maskInstallation : Installation where
  algorithms := [⟨⟨bytes "ssl/aes", 3, 0, 2⟩, fun _ _ => some (.ssl maskSSL)⟩]
  boostVersion := 105000
  checksEndTag := false
  getenv _ := none
  estimate iter _ _ := iter

def maskConfig : EncFSConfig :=
  { EncFSConfig.new with
    creator := bytes "EncFS"
    subVersion := V6SubVersion
    cipherIface := ⟨bytes "ssl/aes", 3, 0, 0⟩
    nameIface := ⟨bytes "nameio/block", 3, 0, 0⟩
    keySize := 128
    blockSize := 1024
    keyData := maskSSL.writeKey [1, 2] (maskSSL.bytesToKey (bytes "old"))
    kdfIterations := 16 }

def rootFiles (file : FileContent) : Files :=
  fun path => if path = bytes "/.encfs6.xml" then some file else none

def typed (password : String) : Attempt := ⟨some (bytes password), none, some fun _ => 9, [500000]⟩

def changed : EncFSConfig :=
  { maskConfig with
    salt := List.replicate 20 9, kdfIterations := 1000
    keyData := maskSSL.writeKey [1, 2] [(bytes "new").sum + 180, (1000 : ℕ).toUInt8] }

theorem password_change_salted :
    KeepsVolume maskInstallation (bytes "/") { maskConfig with cfgType := .v6 } [1, 2] (bytes "new")
      (Function.update (rootFiles (.archive 20 maskConfig.save)) (bytes "/.encfs6.xml")
        (some (.archive 20 changed.save))) := by
  have hread : readConfig maskInstallation (rootFiles (.archive 20 maskConfig.save)) (bytes "/") =
      some { maskConfig with cfgType := .v6 } := by decide
  have hunlock : EncFSConfig.volumeKey maskInstallation { maskConfig with cfgType := .v6 }
      (bytes "old") (typed "old") = some [1, 2] := by decide
  have hchange : doChpasswd maskInstallation (rootFiles (.archive 20 maskConfig.save)) (bytes "/")
      true (typed "old") [typed "new"] true =
        some (bytes "new", Function.update (rootFiles (.archive 20 maskConfig.save))
          (bytes "/.encfs6.xml") (some (.archive 20 changed.save))) := rfl
  exact (password_change hread rfl hunlock hchange).1 (Or.inr (Or.inr (by decide)))

def unsaltedFile : FileContent := .archive 26797 (maskConfig.save.tail.take 13)

theorem not_password_change :
    ¬ ∀ (I : Installation) (files files' : Files) (rootDir oldPassword password volumeKey : Bytes)
      (useStdin opened : Bool) (old : Attempt) (attempts : List Attempt) (config : EncFSConfig),
      readConfig I files rootDir = some config → old.passBuf = some oldPassword →
      config.volumeKey I oldPassword old = some volumeKey →
      doChpasswd I files rootDir useStdin old attempts opened = some (password, files') →
      KeepsVolume I rootDir config volumeKey password files' := by
  intro h
  have hkeeps := h maskInstallation (rootFiles unsaltedFile)
    (Function.update (rootFiles unsaltedFile) (bytes "/.encfs6.xml")
      (some (.archive 20 { changed with subVersion := 20080813 }.save)))
    (bytes "/") (bytes "old") (bytes "new") [1, 2] true true (typed "old") [typed "new"]
    { maskConfig with cfgType := .v6, subVersion := 20080813 } (by decide) rfl (by decide) rfl
  obtain ⟨again, hagain, -, hunlock⟩ := hkeeps
  have hread : readConfig maskInstallation (Function.update (rootFiles unsaltedFile)
      (bytes "/.encfs6.xml") (some (.archive 20 { changed with subVersion := 20080813 }.save)))
      (bytes "/") = some { changed with
        cfgType := .v6, subVersion := 20080813, salt := [], kdfIterations := 16 } := by decide
  obtain rfl := Option.some.inj (hread.symm.trans hagain)
  exact absurd (hunlock (typed "new")) (by decide)

end EncFS
