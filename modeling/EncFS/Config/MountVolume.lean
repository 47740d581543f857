import EncFS.Config.CreateVolume

set_option autoImplicit false

namespace EncFS

open ConfigVar
open NameIO (BlockIO_registered gNameIOMap)

def Ensures {σ α : Type} (m : StateT σ Option α) (Q : α → Prop) : Prop :=
  ∀ s x s', m s = some (x, s') → Q x

namespace Ensures

variable {σ α β : Type} {m : StateT σ Option α} {Q Q' : α → Prop} {R : β → Prop}

lemma trivial (m : StateT σ Option α) : Ensures m fun _ => True :=
  fun _ _ _ _ => ⟨⟩

lemma pure {x : α} (h : Q x) : Ensures (pure x : StateT σ Option α) Q := by
  intro s y s' hrun
  cases hrun
  exact h

lemma failure : Ensures (failure : StateT σ Option α) Q := by
  intro s y s' hrun
  cases hrun

lemma bind {f : α → StateT σ Option β} (h : Ensures m Q) (hf : ∀ x, Q x → Ensures (f x) R) :
    Ensures (m >>= f) R := by
  intro s y s' hrun
  obtain ⟨⟨x, s₁⟩, hm, hrun⟩ := Option.bind_eq_some_iff.mp hrun
  exact hf x (h s x s₁ hm) s₁ y s' hrun

lemma after {f : α → StateT σ Option β} (hf : ∀ x, Ensures (f x) R) : Ensures (m >>= f) R :=
  bind (trivial m) fun x _ => hf x

lemma ite {p : Prop} [Decidable p] {m' : StateT σ Option α} (h : p → Ensures m Q)
    (h' : ¬p → Ensures m' Q) : Ensures (if p then m else m') Q := by
  split
  · exact h ‹_›
  · exact h' ‹_›

lemma mono (h : Ensures m Q) (hQ : ∀ x, Q x → Q' x) : Ensures m Q' :=
  fun s x s' hrun => hQ x (h s x s' hrun)

end Ensures

namespace Prompt

lemma selectWithin_mem {α : Type} (algorithms : List α) (fuel : ℕ) :
    Ensures (selectWithin algorithms fuel) (· ∈ algorithms) := by
  induction fuel with
  | zero => exact .failure
  | succ fuel ih =>
    refine .after fun num => .ite (fun _ => ih) fun _ => ?_
    split
    · rename_i alg halg
      exact .pure (List.mem_of_getElem? halg)
    · exact .failure

lemma select_mem {α : Type} (algorithms : List α) : Ensures (select algorithms) (· ∈ algorithms) :=
  .after fun stdin => selectWithin_mem algorithms (stdin.length + 1)

lemma ofOption_ensures {α : Type} {x : Option α} {Q : α → Prop} (h : ∀ y, x = some y → Q y) :
    Ensures (ofOption x) Q := by
  intro stdin y rest hrun
  obtain ⟨z, hz, hrun⟩ := Option.map_eq_some_iff.mp hrun
  obtain ⟨rfl, rfl⟩ := Prod.mk.inj hrun
  exact h z hz

end Prompt

namespace Range

variable {R : Range} {value size : ℤ}

lemma allowed_of_ok (h : R.allowed value = .ok true) : R.Allowed value := by
  rcases R.allowed_cases value with he | ⟨res, he, hres⟩
  · rw [he] at h
    cases h
  · rw [he] at h
    cases h
    exact hres.mp rfl

lemma allowed_of_closest (h : R.Sound) (fuel : ℕ) (hclosest : R.closest fuel value = .ok size) :
    R.Allowed size := by
  induction fuel generalizing value with
  | zero => cases hclosest
  | succ fuel ih =>
    rw [closest] at hclosest
    cases hall : R.allowed value with
    | error e =>
      rw [hall] at hclosest
      cases hclosest
    | ok res =>
      rw [hall] at hclosest
      dsimp only [bind, Except.bind] at hclosest
      split at hclosest
      · rename_i htrue
        cases hclosest
        exact allowed_of_ok (by rw [hall, htrue])
      split at hclosest
      · cases hclosest
        exact h.allowed_min
      split at hclosest
      · cases hclosest
        exact h.allowed_max
      cases hround : R.rounded value with
      | error e =>
        rw [hround] at hclosest
        cases hclosest
      | ok next =>
        rw [hround] at hclosest
        exact ih hclosest

lemma allowed_of_closestSize (h : R.Sound) (hsize : closestSize R value = some size) :
    R.Allowed size := by
  rw [closestSize] at hsize
  cases hclosest : R.closest 5000 value with
  | error e =>
    rw [hclosest] at hsize
    cases hsize
  | ok w =>
    rw [hclosest] at hsize
    cases hsize
    exact allowed_of_closest h 5000 hclosest

lemma AESBlockRange_sound : AESBlockRange.Sound := ⟨by decide, by decide, by decide⟩
lemma BFKeyRange_sound : BFKeyRange.Sound := ⟨by decide, by decide, by decide⟩
lemma BFBlockRange_sound : BFBlockRange.Sound := ⟨by decide, by decide, by decide⟩

lemma AESBlockRange_default : AESBlockRange.Allowed DefaultBlockSize :=
  ⟨by decide, by decide, by decide⟩

end Range

section Registered

variable {P : Platform}

lemma implements_congr (A : Interface) {iface iface' : Interface} (hname : iface.name = iface'.name)
    (hcurrent : iface.current = iface'.current) : A.implements iface = A.implements iface' := by
  rw [Interface.implements, Interface.implements, hname, hcurrent]

lemma mem_gCipherMap {alg : CipherAlg} (h : alg ∈ P.gCipherMap) :
    (∃ F, P.aes = some F ∧ alg = Platform.AES_Cipher_registered F) ∨
    (∃ F, P.blowfish = some F ∧ alg = Platform.BF_Cipher_registered F) ∨
    alg = Platform.NullCipher_registered := by
  rw [Platform.gCipherMap, List.mem_append, List.mem_append, List.mem_singleton] at h
  rcases h with (h | h) | h
  · obtain ⟨F, hF, rfl⟩ := Option.map_eq_some_iff.mp (Option.mem_toList.mp h)
    exact .inl ⟨F, hF, rfl⟩
  · obtain ⟨F, hF, rfl⟩ := Option.map_eq_some_iff.mp (Option.mem_toList.mp h)
    exact .inr (.inl ⟨F, hF, rfl⟩)
  · exact .inr (.inr h)

lemma find_named {alg : CipherAlg} (h : alg ∈ P.gCipherMap) :
    P.gCipherMap.find? (·.name = alg.name) = some alg := by
  rcases mem_gCipherMap h with ⟨F, hF, rfl⟩ | ⟨F, hF, rfl⟩ | rfl
  · rw [Platform.gCipherMap, hF]
    rfl
  · rw [Platform.gCipherMap, hF]
    cases P.aes <;> rfl
  · rw [Platform.gCipherMap]
    cases P.aes <;> cases P.blowfish <;> rfl

lemma find_implements {alg : CipherAlg} (h : alg ∈ P.gCipherMap) :
    P.gCipherMap.find? (·.iface.implements alg.iface) = some alg := by
  rcases mem_gCipherMap h with ⟨F, hF, rfl⟩ | ⟨F, hF, rfl⟩ | rfl
  · rw [Platform.gCipherMap, hF]
    rfl
  · rw [Platform.gCipherMap, hF]
    cases P.aes <;> rfl
  · rw [Platform.gCipherMap]
    cases P.aes <;> cases P.blowfish <;> rfl

structure IsSSL (alg : CipherAlg) (keyLen : ℤ) (made : Interface × KeyCipher) : Prop where
  iface : made.1 = alg.iface
  ssl : ∃ S, made.2 = .ssl S
  again (iface : Interface) : iface.current = alg.iface.current →
    alg.constructor iface keyLen = some made

lemma NewSSL_eq_some {blockSize : ℕ} {F : SSLFamily blockSize} {realIface iface : Interface}
    {keyRange : Range} {defaultKeyLen keyLen : ℤ} {made : Interface × KeyCipher}
    (h : NewSSL F realIface keyRange defaultKeyLen iface keyLen = some made) :
    made.1 = realIface ∧ (∃ S, made.2 = .ssl S) ∧
      ∀ iface' : Interface, iface'.current = iface.current →
        NewSSL F realIface keyRange defaultKeyLen iface' keyLen = some made := by
  obtain ⟨len, hlen, hmade⟩ := Option.bind_eq_some_iff.mp h
  cases hmade
  refine ⟨rfl, ⟨_, rfl⟩, fun iface' hcurrent => ?_⟩
  rw [NewSSL, hcurrent]
  exact h

lemma isSSL_of_constructor {alg : CipherAlg} {keyLen : ℤ} {made : Interface × KeyCipher}
    (hmem : alg ∈ P.GetAlgorithmList false)
    (h : alg.constructor alg.iface keyLen = some made) : IsSSL alg keyLen made := by
  obtain ⟨hmem, hshown⟩ := List.mem_filter.mp hmem
  rcases mem_gCipherMap hmem with ⟨F, -, rfl⟩ | ⟨F, -, rfl⟩ | rfl
  · obtain ⟨hiface, hssl, hagain⟩ := NewSSL_eq_some h
    exact ⟨hiface, hssl, hagain⟩
  · obtain ⟨hiface, hssl, hagain⟩ := NewSSL_eq_some h
    exact ⟨hiface, hssl, hagain⟩
  · exact absurd hshown (by decide)

lemma getCipher_installation (cfg : EncFSConfig) :
    cfg.getCipher P.installation =
      (P.NewCipher cfg.cipherIface cfg.keySize).map Prod.snd := by
  rw [EncFSConfig.getCipher, Platform.installation, List.find?_map, Option.bind_map,
    Platform.NewCipher, Option.map_bind]
  rfl

open NameIO in
lemma New_congr {iface iface' : Interface} (hname : iface.name = iface'.name)
    (hcurrent : iface.current = iface'.current) (cipher : KeyCipher) (key : Bytes) :
    NameIO.New iface cipher key = NameIO.New iface' cipher key := by
  have hsame : (fun alg : NameIOAlg => alg.iface.implements iface) =
      fun alg => alg.iface.implements iface' :=
    funext fun alg => implements_congr alg.iface hname hcurrent
  rw [New, NameIO.New, hsame]
  cases hfind : NameIO.gNameIOMap.find? (·.iface.implements iface') with
  | none => rfl
  | some alg =>
    have hmem := List.mem_of_find?_eq_some hfind
    simp only [gNameIOMap, List.mem_cons, List.not_mem_nil, or_false] at hmem
    rcases hmem with rfl | rfl | rfl
    · simp only [Option.bind_some, NameIO.BlockIO_registered, NameIO.NewBlockNameIO, hcurrent]
    · rfl
    · simp only [Option.bind_some, NameIO.StreamIO_registered, NameIO.NewStreamNameIO, hcurrent]

end Registered

namespace EncFSConfig

def stored (cfg : EncFSConfig) : EncFSConfig :=
  { cfg with
    cipherIface := { cfg.cipherIface with age := 0 }
    nameIface := { cfg.nameIface with age := 0 } }

variable {I : Installation} {files files' : Files} {rootDir : Bytes}

lemma saveConfig_v6 {opened : Bool} {cfg : EncFSConfig}
    (h : saveConfig I files rootDir opened .v6 cfg = some files') :
    files' = Function.update files ((ConfigInfo.v6 I).path I rootDir)
      (some (.archive (classVersion I) cfg.save)) := by
  obtain ⟨nm, hmem, saveFunc, file, hsave, htype, hfile, rfl⟩ := saveConfigTo_eq_some h
  have hv6 : ConfigInfo.v6 I ∈ ConfigInfo.configFileMapping I := List.mem_cons_self
  obtain ⟨rfl, -⟩ := isFormat_of_mem hv6 hmem (by simp [hsave]) htype
  cases hsave
  cases hfile
  rfl

lemma readConfig_saved {opened : Bool} {cfg : EncFSConfig} {cipher : KeyCipher}
    (h : saveConfig I files rootDir opened .v6 cfg = some files')
    (hcipher : cfg.stored.getCipher I = some cipher)
    (hsize : cfg.keyData.length = cipher.encodedKeySize) (htype : cfg.cfgType = .v6)
    (hversion : cfg.subVersion = V6SubVersion) :
    readConfig I files' rootDir = some cfg.stored := by
  have hread : readV6Config I (.archive (classVersion I) cfg.save) =
      some { cfg.stored with
        cfgType := .none
        subVersion := if cfg.subVersion = 0 then V6SubVersion else cfg.subVersion } :=
    readV6Config_save cfg.stored rfl rfl hcipher hsize (.inr (by
      change 20080816 ≤ cfg.subVersion
      rw [hversion]
      decide))
  obtain rfl := saveConfig_v6 h
  have hhere : readConfig I (Function.update files ((ConfigInfo.v6 I).path I rootDir)
      (some (.archive (classVersion I) cfg.save))) rootDir =
      (readV6Config I (.archive (classVersion I) cfg.save)).map fun again =>
        { again with cfgType := .v6 } := by
    rw [readConfig, ConfigInfo.configFileMapping, readConfigFrom, if_pos (.inr (by simp)),
      readConfigLoad]
    change (do
      let file ← Function.update files ((ConfigInfo.v6 I).path I rootDir)
        (some (.archive (classVersion I) cfg.save)) ((ConfigInfo.v6 I).path I rootDir)
      let config ← readV6Config I file
      some { config with cfgType := .v6 }) = _
    rw [Function.update_self]
    dsimp only [Option.bind_eq_bind, Option.bind_some]
    cases readV6Config I (.archive (classVersion I) cfg.save) <;> rfl
  rw [hhere, hread, Option.map_some, hversion, if_neg (by decide), stored, hversion, htype]

lemma makeKey_salted {cfg : EncFSConfig} {S : SSL_Cipher} {password key : Bytes}
    {deltas : List ℤ} {desired : ℤ} (a : Attempt) (hcipher : cfg.getCipher I = some (.ssl S))
    (hsalt : cfg.salt ≠ [])
    (hkey : (KeyCipher.ssl S).newSaltedKey I.estimate deltas password 0 desired cfg.salt =
      some (key, cfg.kdfIterations)) : makeKey I cfg password a = (some key, cfg) := by
  have hupgrade : cfg.upgradeSalt = cfg := if_neg fun hnew => hsalt hnew.1
  have hne := (S.newKey_eq_some hkey).1
  simp only [makeKey, hcipher, hupgrade]
  rw [if_pos hsalt]
  simp only [if_neg hne, KeyCipher.newSaltedKey_again hkey]

end EncFSConfig

/-- The settings are among those that are offered. -/
structure Settings.Offered (P : Platform) (reverseEncryption : Bool) (s : Settings)
    (alg : CipherAlg) : Prop where
  alg_eq : s.alg = some alg
  alg_mem : alg ∈ P.GetAlgorithmList false
  keySize : alg.keyLength.Allowed s.keySize
  blockSize : alg.blockSize.Allowed s.blockSize
  nameIOIface : ∃ nameIO ∈ NameIO.gNameIOMap, s.nameIOIface = nameIO.iface
  blockMACBytes : s.blockMACBytes = 0 ∨ s.blockMACBytes = 8
  blockMACRandBytes : 0 ≤ s.blockMACRandBytes ∧ s.blockMACRandBytes ≤ 8
  externalIV : s.externalIV = true → s.chainedIV = true ∧ s.uniqueIV = true
  plain : reverseEncryption = true → s.blockMACBytes = 0 ∧ s.blockMACRandBytes = 0 ∧
    s.uniqueIV = false ∧ s.externalIV = false ∧ s.chainedIV = false

section Dialog

variable {P : Platform}

lemma sound_of_mem {alg : CipherAlg} (h : alg ∈ P.gCipherMap) :
    alg.keyLength.Sound ∧ alg.blockSize.Sound := by
  rcases mem_gCipherMap h with ⟨F, -, rfl⟩ | ⟨F, -, rfl⟩ | rfl
  · exact ⟨Range.AESKeyRange_sound, Range.AESBlockRange_sound⟩
  · exact ⟨Range.BFKeyRange_sound, Range.BFBlockRange_sound⟩
  · exact ⟨⟨by decide, by decide, by decide⟩, by decide, by decide, by decide⟩

lemma selectKeySize_allowed {alg : CipherAlg} (h : alg.keyLength.Sound) :
    Ensures (selectKeySize alg) fun keySize => alg.keyLength.Allowed keySize := by
  refine .ite (fun _ => .pure h.allowed_min) fun _ => .after fun keySize => ?_
  exact Prompt.ofOption_ensures fun size => Range.allowed_of_closestSize h

lemma selectBlockSize_allowed {alg : CipherAlg} (h : alg.blockSize.Sound) :
    Ensures (selectBlockSize alg) fun blockSize => alg.blockSize.Allowed blockSize := by
  refine .ite (fun _ => .pure h.allowed_min) fun _ => .after fun res => ?_
  exact Prompt.ofOption_ensures fun size => Range.allowed_of_closestSize h

lemma selectBlockMAC_bounds : Ensures selectBlockMAC fun mac =>
    (mac.1 = 0 ∨ mac.1 = 8) ∧ 0 ≤ mac.2 ∧ mac.2 ≤ 8 := by
  refine .after fun addMAC => .after fun randSize => .pure ⟨?_, ?_, ?_⟩
  · cases addMAC
    · exact .inl rfl
    · exact .inr rfl
  · dsimp only
    split_ifs <;> omega
  · dsimp only
    split_ifs <;> omega

lemma findCipherAlgorithm_spec {keySize : ℤ} {alg : CipherAlg}
    (h : P.findCipherAlgorithm (bytes "AES") keySize = some alg) :
    alg ∈ P.GetAlgorithmList false ∧ alg.keyLength.Allowed keySize ∧
      alg.blockSize.Allowed DefaultBlockSize := by
  have hmem := List.mem_of_find?_eq_some h
  have hfound := List.find?_some h
  rw [Bool.and_eq_true, decide_eq_true_eq, beq_iff_eq] at hfound
  obtain ⟨hname, hkey⟩ := hfound
  refine ⟨hmem, ?_, ?_⟩
  · cases hall : alg.keyLength.allowed keySize with
    | error e =>
      rw [hall] at hkey
      cases hkey
    | ok res =>
      rw [hall] at hkey
      cases hkey
      exact Range.allowed_of_ok hall
  · rcases mem_gCipherMap (List.mem_filter.mp hmem).1 with ⟨F, -, rfl⟩ | ⟨F, -, rfl⟩ | rfl
    · exact Range.AESBlockRange_default
    · exact absurd (show bytes "Blowfish" = bytes "AES" from hname) (by decide)
    · exact absurd hname (by decide)

lemma blockNames_registered : ∃ nameIO ∈ NameIO.gNameIOMap,
    Interface.blockNames = nameIO.iface :=
  ⟨BlockIO_registered, List.mem_cons_self, rfl⟩

lemma randBytes_zero : (0 : ℤ) ≤ 0 ∧ (0 : ℤ) ≤ 8 := by
  decide

lemma paranoiaSettings_offered {alg : CipherAlg} (h : P.paranoiaSettings.alg = some alg) :
    P.paranoiaSettings.Offered P false alg := by
  obtain ⟨hmem, hkey, hblock⟩ := findCipherAlgorithm_spec h
  exact ⟨h, hmem, hkey, hblock, blockNames_registered, .inr rfl, randBytes_zero,
    fun _ => ⟨rfl, rfl⟩, fun hfalse => by cases hfalse⟩

lemma standardSettings_offered {reverseEncryption : Bool} {alg : CipherAlg}
    (h : (P.standardSettings reverseEncryption).alg = some alg) :
    (P.standardSettings reverseEncryption).Offered P reverseEncryption alg := by
  obtain ⟨hmem, hkey, hblock⟩ := findCipherAlgorithm_spec h
  refine ⟨h, hmem, hkey, hblock, blockNames_registered, .inl rfl, randBytes_zero, ?_, ?_⟩
  · intro hext
    cases hext
  · rintro rfl
    exact ⟨rfl, rfl, rfl, rfl, rfl⟩

lemma manualSettings_offered {reverseEncryption : Bool} {s : Settings}
    (hplain : reverseEncryption = true → s.blockMACBytes = 0 ∧ s.blockMACRandBytes = 0 ∧
      s.uniqueIV = false ∧ s.externalIV = false ∧ s.chainedIV = false) :
    Ensures (P.manualSettings reverseEncryption s) fun s' =>
      ∃ alg, s'.Offered P reverseEncryption alg := by
  refine .bind (Prompt.select_mem _) fun alg hmem => ?_
  obtain ⟨hkeys, hblocks⟩ := sound_of_mem (List.mem_filter.mp hmem).1
  refine .bind (selectKeySize_allowed hkeys) fun keySize hkey => ?_
  refine .bind (selectBlockSize_allowed hblocks) fun blockSize hblock => ?_
  refine .bind (Prompt.select_mem _) fun nameIO hnameIO => ?_
  refine .ite (fun hreverse => ?_) fun hforward => ?_
  · obtain ⟨hmac, hrand, hunique, hexternal, hchained⟩ := hplain hreverse
    refine .pure ⟨alg, rfl, hmem, hkey, hblock, ⟨_, hnameIO, rfl⟩, .inl hmac, ?_, ?_,
      fun _ => hplain hreverse⟩
    · change 0 ≤ s.blockMACRandBytes ∧ s.blockMACRandBytes ≤ 8
      rw [hrand]
      exact randBytes_zero
    · intro hext
      rw [hexternal] at hext
      cases hext
  · refine .after fun chainedIV => .after fun uniqueIV => ?_
    have hask : Ensures (selectExternalIV chainedIV uniqueIV) fun externalIV =>
        externalIV = true → chainedIV = true ∧ uniqueIV = true := by
      refine .ite (fun hboth => ?_) fun _ => .pure fun hext => by cases hext
      exact (Ensures.trivial _).mono fun _ _ _ => Bool.and_eq_true_iff.mp hboth
    refine .bind hask fun externalIV hexternal => ?_
    refine .bind selectBlockMAC_bounds fun mac hmac => .after fun allowHoles => ?_
    exact .pure ⟨alg, rfl, hmem, hkey, hblock, ⟨_, hnameIO, rfl⟩, hmac.1, hmac.2, hexternal,
      fun hreverse => absurd hreverse hforward⟩

lemma presetSettings_offered (opts : EncFS_Opts) (c : UInt8) :
    Ensures (P.presetSettings opts c) fun s =>
      (opts.reverseEncryption = true → s.blockMACBytes = 0 ∧ s.blockMACRandBytes = 0 ∧
        s.uniqueIV = false ∧ s.externalIV = false ∧ s.chainedIV = false) ∧
      ∀ alg, s.alg = some alg → s.Offered P opts.reverseEncryption alg := by
  refine .ite (fun _ => .ite (fun _ => .failure) fun hforward => .pure ⟨?_, ?_⟩) fun _ =>
    .ite (fun _ => .pure ⟨?_, ?_⟩) fun _ => .pure ⟨?_, ?_⟩
  · exact fun hreverse => absurd hreverse hforward
  · intro alg halg
    rw [Bool.not_eq_true] at hforward
    rw [hforward]
    exact paranoiaSettings_offered halg
  · intro hreverse
    rw [hreverse]
    exact ⟨rfl, rfl, rfl, rfl, rfl⟩
  · exact fun alg halg => standardSettings_offered halg
  · exact fun _ => ⟨rfl, rfl, rfl, rfl, rfl⟩
  · intro alg halg
    cases halg

lemma settings_offered (opts : EncFS_Opts) : Ensures (P.settings opts) fun s =>
    ∃ alg, s.Offered P opts.reverseEncryption alg := by
  refine .after fun c => .bind (presetSettings_offered opts c) fun s hs =>
    .ite (fun _ => manualSettings_offered hs.1) fun hauto => ?_
  rw [not_or, Option.isNone_iff_eq_none] at hauto
  obtain ⟨alg, halg⟩ := Option.ne_none_iff_exists'.mp hauto.2
  exact .pure ⟨alg, hs.2 alg halg⟩

end Dialog

def EncFS_Root.reopened (root : EncFS_Root) (opts : EncFS_Opts) : EncFS_Root :=
  let nameCoding := root.fsConfig.nameCoding.setReverseEncryption opts.reverseEncryption
  { root with
    root := { root.root with naming := nameCoding }
    fsConfig := { root.fsConfig with
      config := root.fsConfig.config.stored
      opts, nameCoding
      forceDecode := opts.forceDecode
      reverseEncryption := opts.reverseEncryption } }

section Creation

variable {P : Platform} {files : Files} {rootDir : Bytes} {useStdin : Bool} {u : Surroundings}
  {config : EncFSConfig} {cipher : KeyCipher} {v : NewVolume}

structure IsNew (P : Platform) (config : EncFSConfig) (cipher : KeyCipher) : Prop where
  cfgType : config.cfgType = .v6
  subVersion : config.subVersion = V6SubVersion
  kdfIterations : config.kdfIterations = 0
  ssl : ∃ S, cipher = .ssl S
  getCipher : config.getCipher P.installation = some cipher
  getCipher_stored : config.stored.getCipher P.installation = some cipher

lemma getCipher_made {alg : CipherAlg} {cfg : EncFSConfig} {keyLen : ℤ}
    {made : Interface × KeyCipher} (hmem : alg ∈ P.GetAlgorithmList false)
    (hmade : IsSSL alg keyLen made) (hname : cfg.cipherIface.name = alg.iface.name)
    (hcurrent : cfg.cipherIface.current = alg.iface.current) (hkey : cfg.keySize = keyLen) :
    cfg.getCipher P.installation = some made.2 := by
  have hfind := find_implements (List.mem_filter.mp hmem).1
  have hsame : (fun other : CipherAlg => other.iface.implements cfg.cipherIface) =
      fun other => other.iface.implements alg.iface :=
    funext fun other => implements_congr other.iface hname hcurrent
  rw [getCipher_installation, Platform.NewCipher, hsame, hfind, Option.bind_some, hkey, hmade.again _ hcurrent]
  rfl

lemma newConfig_eq_some {s : Settings} {alg : CipherAlg} {reverseEncryption : Bool}
    (hs : s.Offered P reverseEncryption alg) (h : P.newConfig s = some (config, cipher)) :
    IsNew P config cipher ∧ alg.constructor alg.iface s.keySize = some (alg.iface, cipher) ∧
      config.nameIface = s.nameIOIface ∧ config.parameters =
        { cipherIface := alg.iface, nameIface := s.nameIOIface, keySize := s.keySize,
          blockSize := s.blockSize, blockMACBytes := s.blockMACBytes,
          blockMACRandBytes := s.blockMACRandBytes, uniqueIV := s.uniqueIV,
          externalIVChaining := s.externalIV, chainedNameIV := s.chainedIV,
          allowHoles := s.allowHoles } := by
  obtain ⟨alg', halg, h⟩ := Option.bind_eq_some_iff.mp h
  obtain rfl : alg = alg' := Option.some.inj (hs.alg_eq.symm.trans halg)
  obtain ⟨⟨iface, made⟩, hnew, h⟩ := Option.bind_eq_some_iff.mp h
  rw [Platform.NewCipherNamed, find_named (List.mem_filter.mp hs.alg_mem).1,
    Option.bind_some] at hnew
  have hssl := isSSL_of_constructor hs.alg_mem hnew
  obtain rfl : iface = alg.iface := hssl.iface
  obtain ⟨hconfig, rfl⟩ := Prod.mk.inj (Option.some.inj h)
  have hiface : config.cipherIface = alg.iface := by rw [← hconfig]
  have hkey : config.keySize = s.keySize := by rw [← hconfig]
  have hname : config.cipherIface.name = alg.iface.name := by rw [hiface]
  have hcurrent : config.cipherIface.current = alg.iface.current := by rw [hiface]
  have hcipher := getCipher_made hs.alg_mem hssl hname hcurrent hkey
  have hstored : config.stored.getCipher P.installation = some made :=
    getCipher_made hs.alg_mem hssl hname hcurrent hkey
  subst hconfig
  exact ⟨⟨rfl, rfl, rfl, hssl.ssl, hcipher, hstored⟩, hnew, rfl, rfl⟩

structure Unlocks (P : Platform) (rootDir : Bytes) (S : SSL_Cipher) (volumeKey : Bytes)
    (files : Files) (password : Bytes) (config : EncFSConfig) (userKey : Bytes) : Prop where
  read : readConfig P.installation files rootDir = some config
  cfgType : config.cfgType = .v6
  subVersion : config.subVersion = V6SubVersion
  stored : config.stored = config
  getCipher : config.getCipher P.installation = some (.ssl S)
  key : volumeKey.length = S.keySize + S.ivLength
  keyData : config.keyData = S.writeKey volumeKey userKey
  makeKey (a : Attempt) : a.passBuf = some password →
    config.getUserKey P.installation a = (some userKey, config)

lemma unlocks_saved {S : SSL_Cipher} {volumeKey userKey password salt : Bytes} {files' : Files}
    {opened : Bool} {kdf desired : ℤ} {deltas : List ℤ} (htype : config.cfgType = .v6)
    (hversion : config.subVersion = V6SubVersion)
    (hcipher : config.stored.getCipher P.installation = some (.ssl S))
    (hkey : volumeKey.length = S.keySize + S.ivLength) (hsalt : salt ≠ [])
    (hderived : (KeyCipher.ssl S).newSaltedKey P.installation.estimate deltas password 0 desired salt =
      some (userKey, kdf))
    (hsave : saveConfig P.installation files rootDir opened .v6
      { config with salt := salt, kdfIterations := kdf, keyData := S.writeKey volumeKey userKey } =
        some files') :
    Unlocks P rootDir S volumeKey files' password (EncFSConfig.stored { config with
      salt := salt, kdfIterations := kdf, keyData := S.writeKey volumeKey userKey }) userKey := by
  have hread := EncFSConfig.readConfig_saved hsave hcipher
    (SSL_Cipher.writeKey_length userKey hkey) htype hversion
  refine ⟨hread, htype, hversion, rfl, hcipher, hkey, rfl, fun a ha => ?_⟩
  rw [EncFSConfig.getUserKey, ha]
  exact EncFSConfig.makeKey_salted a hcipher hsalt hderived

lemma Unlocks.openVolume_eq {S : SSL_Cipher} {volumeKey userKey password : Bytes}
    (h : Unlocks P rootDir S volumeKey files password config userKey) (opts : EncFS_Opts)
    {a : Attempt} (ha : a.passBuf = some password) :
    openVolume P opts config a = if opts.reverseEncryption = true ∧ ¬config.FitsReverse then none
      else EncFS_Root.new opts config (.ssl S) volumeKey := by
  rw [openVolume]
  refine ite_congr rfl (fun _ => rfl) fun _ => ?_
  refine (congrArg (· >>= _) h.getCipher).trans ?_
  rw [h.makeKey a ha]
  dsimp only [Option.bind_eq_bind, Option.bind_some]
  rw [h.keyData, KeyCipher.readKey, SSL_Cipher.readKey_writeKey userKey _ h.key]
  rfl

lemma saveNewVolume_spec (hnew : IsNew P config cipher)
    (h : saveNewVolume P files rootDir useStdin u config cipher = some v) :
    v.config.parameters = config.parameters ∧ ∃ S userKey, cipher = .ssl S ∧
      Unlocks P rootDir S v.volumeKey v.files v.password v.config.stored userKey := by
  obtain ⟨volumeKey, hrandom, h⟩ := Option.bind_eq_some_iff.mp h
  obtain ⟨⟨password, userKey, config'⟩, hkey, h⟩ := Option.bind_eq_some_iff.mp h
  obtain ⟨files', hsave, h⟩ := Option.bind_eq_some_iff.mp h
  cases h
  obtain ⟨S, rfl⟩ := hnew.ssl
  obtain ⟨salt, kdf, deltas, hsalt, rfl, hderived⟩ :=
    EncFSConfig.newKey_v6 hnew.getCipher hnew.kdfIterations hnew.cfgType hkey
  exact ⟨rfl, S, userKey, rfl, unlocks_saved hnew.cfgType hnew.subVersion hnew.getCipher_stored
    (KeyCipher.newRandomKey_length hrandom) hsalt hderived hsave⟩

lemma new_reopened {opts opts' : EncFS_Opts} {volumeKey : Bytes} {root : EncFS_Root}
    (h : EncFS_Root.new opts config cipher volumeKey = some root)
    (hroot : opts'.rootDir = opts.rootDir) :
    root.fsConfig.config = config ∧
      EncFS_Root.new opts' config.stored cipher volumeKey = some (root.reopened opts') := by
  obtain ⟨nameCoder, hcoder, h⟩ := Option.bind_eq_some_iff.mp h
  cases h
  have hstored : NameIO.New config.stored.nameIface cipher volumeKey = some nameCoder := by
    have hname : config.stored.nameIface.name = config.nameIface.name := rfl
    have hcurrent : config.stored.nameIface.current = config.nameIface.current := rfl
    rw [New_congr hname hcurrent, hcoder]
  refine ⟨rfl, ?_⟩
  rw [EncFS_Root.new, hstored]
  dsimp only [Option.bind_eq_bind, Option.bind_some]
  rw [DirNode.new, hroot]
  rfl

lemma createV6Config_eq_some {opts : EncFS_Opts} {files' : Files} {password : Bytes}
    {root : EncFS_Root} (h : createV6Config P files opts u = (some (password, root), files')) :
    ∃ s alg config cipher v, s.Offered P opts.reverseEncryption alg ∧
      P.newConfig s = some (config, cipher) ∧
      saveNewVolume P files opts.rootDir opts.useStdin u config cipher = some v ∧
      v.password = password ∧ v.files = files' ∧
      EncFS_Root.new opts v.config cipher v.volumeKey = some root := by
  rw [createV6Config] at h
  split at h
  · cases h
  · rename_i v cipher hcreated
    obtain ⟨⟨s, rest⟩, hsettings, hcreated⟩ := Option.bind_eq_some_iff.mp hcreated
    obtain ⟨⟨config, cipher'⟩, hconfig, hcreated⟩ := Option.bind_eq_some_iff.mp hcreated
    obtain ⟨v', hv, hcreated⟩ := Option.bind_eq_some_iff.mp hcreated
    cases hcreated
    obtain ⟨alg, hs⟩ := settings_offered opts u.stdin s rest hsettings
    obtain ⟨hmade, rfl⟩ := Prod.mk.inj h
    obtain ⟨made, hnew, hmade⟩ := Option.map_eq_some_iff.mp hmade
    cases hmade
    exact ⟨s, alg, config, cipher, v, hs, hconfig, hv, rfl, rfl, hnew⟩

lemma fitsReverse_of_offered {s : Settings} {alg : CipherAlg}
    (hs : s.Offered P true alg) (h : P.newConfig s = some (config, cipher))
    (hv : v.config.parameters = config.parameters) : v.config.FitsReverse := by
  obtain ⟨-, -, -, hparameters⟩ := newConfig_eq_some hs h
  obtain ⟨hmac, hrand, hunique, hexternal, hchained⟩ := hs.plain rfl
  rw [hparameters] at hv
  exact ⟨(congrArg CodingParameters.blockMACBytes hv).trans hmac,
    (congrArg CodingParameters.blockMACRandBytes hv).trans hrand,
    (congrArg CodingParameters.uniqueIV hv).trans hunique,
    (congrArg CodingParameters.externalIVChaining hv).trans hexternal,
    (congrArg CodingParameters.chainedNameIV hv).trans hchained⟩

lemma createV6Config_initFS {opts opts' : EncFS_Opts} {u' : Surroundings} {files' : Files}
    {password : Bytes} {root : EncFS_Root} {a : Attempt}
    (h : createV6Config P files opts u = (some (password, root), files'))
    (hroot : opts'.rootDir = opts.rootDir) (ha : a.passBuf = some password) :
    initFS P files' opts' a u' =
      (if opts'.reverseEncryption = true ∧ ¬root.fsConfig.config.FitsReverse then none
        else some (root.reopened opts'), files') := by
  obtain ⟨s, alg, config, cipher, v, hs, hconfig, hv, rfl, rfl, hnew⟩ := createV6Config_eq_some h
  obtain ⟨-, S, userKey, rfl, hunlocks⟩ := saveNewVolume_spec (newConfig_eq_some hs hconfig).1 hv
  obtain ⟨hsame, hagain⟩ := new_reopened hnew hroot
  rw [initFS, hroot, hunlocks.read]
  dsimp only
  rw [hunlocks.openVolume_eq opts' ha, hagain, hsame]
  rfl

end Creation

/-- With its password a volume that was created is opened as the same volume, whatever the options
are, except that one with IVs or headers is not opened with `--reverse`. -/
theorem initFS_created {P : Platform} {files files' : Files} {opts opts' : EncFS_Opts}
    {u u' : Surroundings} {password : Bytes} {root : EncFS_Root} {a : Attempt}
    (h : createV6Config P files opts u = (some (password, root), files'))
    (hroot : opts'.rootDir = opts.rootDir) (ha : a.passBuf = some password) :
    initFS P files' opts' a u' =
        (if opts'.reverseEncryption = true ∧ ¬root.fsConfig.config.FitsReverse then none
          else some (root.reopened opts'), files') ∧
      (opts.reverseEncryption = true → root.fsConfig.config.FitsReverse) := by
  refine ⟨createV6Config_initFS h hroot ha, fun hreverse => ?_⟩
  obtain ⟨s, alg, config, cipher, v, hs, hconfig, hv, rfl, rfl, hnew⟩ := createV6Config_eq_some h
  obtain ⟨hparameters, -⟩ := saveNewVolume_spec (newConfig_eq_some hs hconfig).1 hv
  rw [hreverse] at hs
  rw [(new_reopened hnew (Eq.refl opts.rootDir)).1]
  exact fitsReverse_of_offered hs hconfig hparameters

def maskFamily (blockSize : ℕ) : SSLFamily blockSize where
  evp _ := { maskEVP with blockSize }
  laws _ := maskEVP_laws blockSize
  blockSize_eq _ := rfl
  ivLength := maskCodings.ivLength
  ivLength_eq := maskCodings.ivLength_eq
  keys interface keySize :=
    { bytesToKey := fun password => List.replicate (keySize + 8) (password.foldl (· + ·) 0)
      pbkdf2 := fun password salt iterations => some (List.replicate (keySize + 8)
        ((password ++ salt).foldl (· + ·) 0 + interface.toNat.toUInt8 +
          iterations.toNat.toUInt8))
      bytesToKey_length := fun _ => List.length_replicate
      pbkdf2_length := fun h => by
        cases h
        exact List.length_replicate }

def maskPlatform : Platform where
  aes := some (maskFamily 16)
  blowfish := some (maskFamily 8)
  boostVersion := 105000
  checksEndTag := true
  getenv _ := none
  estimate iter _ _ := iter

def noFiles : Files := fun _ => none

def expertOpts : EncFS_Opts where
  rootDir := bytes "/r"
  createIfNotFound := true
  checkKey := true
  forceDecode := false
  useStdin := false
  reverseEncryption := false
  configMode := .prompt

def expertAnswers : Surroundings where
  stdin := bytes "x\n0\n2\n300\n512\n3\n\n\ny\ny\n2\nn\n"
  random _ := some fun i => i.toUInt8
  attempts := [typed "other", { typed "pw" with passBuf2 := some (bytes "pw") }]
  opened := true

lemma createV6Config_of_isSome (u : Surroundings) (fact : EncFS_Root → Bool)
    (h : (createV6Config maskPlatform noFiles expertOpts u).1.map (fun made =>
      (made.1, fact made.2)) = some (bytes "pw", true)) :
    ∃ root, createV6Config maskPlatform noFiles expertOpts u =
        (some (bytes "pw", root), (createV6Config maskPlatform noFiles expertOpts u).2) ∧
      fact root = true := by
  obtain ⟨⟨password, root⟩, hroot, hfact⟩ := Option.map_eq_some_iff.mp h
  obtain ⟨rfl, hfact⟩ := Prod.mk.inj hfact
  exact ⟨root, Prod.ext hroot rfl, hfact⟩

lemma expert_created :
    ∃ root, createV6Config maskPlatform noFiles expertOpts expertAnswers =
        (some (bytes "pw", root),
          (createV6Config maskPlatform noFiles expertOpts expertAnswers).2) ∧
      root.fsConfig.config.allowHoles = false := by
  obtain ⟨root, hroot, hfact⟩ := createV6Config_of_isSome expertAnswers
    (fun root => !root.fsConfig.config.allowHoles) (by decide)
  exact ⟨root, hroot, by simpa using hfact⟩

theorem initFS_created_expert :
    ∃ root files', createV6Config maskPlatform noFiles expertOpts expertAnswers =
        (some (bytes "pw", root), files') ∧
      initFS maskPlatform files' expertOpts (typed "pw") expertAnswers =
        (some (root.reopened expertOpts), files') := by
  obtain ⟨root, hcreated, -⟩ := expert_created
  refine ⟨root, _, hcreated, ?_⟩
  refine Eq.trans (initFS_created hcreated rfl rfl).1 ?_
  rw [if_neg]
  exact fun hreverse => absurd hreverse.1 (by decide)

end EncFS
