import EncFS.Config.FileSessions
import EncFS.NameIO.PathCoding

set_option autoImplicit false

namespace EncFS

open NameIO (gNameIOMap)

/-- The assertions of the constructors hold, the codings of the files and of the names can be
undone, and a feature comes with those that it needs. -/
structure FSConfig.Sound (C : FSConfig) : Prop where
  whole : (C.cipher.cipherBlockSize : ℤ) ∣ C.config.blockSize
  coding : (C.cipher.coding C.key).Lawful C.config.blockSize.toNat
  nodes {τ : Type} (base : FileIO τ) (random macRandom : RandomSource) (ext : UInt64) :
    (C.newFileNode base random macRandom ext).isSome
  names : C.config.nameIface.name ≠ NameIO.NNIOIface.name →
    C.nameCoding.Lawful ∧ (C.reverseEncryption = false → C.nameCoding.Supported)
  externalIV : C.config.externalIVChaining = true →
    C.config.chainedNameIV = true ∧ C.config.uniqueIV = true
  reverse : C.reverseEncryption = true → C.config.FitsReverse

lemma namesLawful_of_lawful {C : Cipher} {bs : ℕ} (h : ∀ n, C.Lawful (n * bs)) :
    C.NamesLawful bs where
  streamEncode_length := (h 0).streamEncode_length
  streamDecode_streamEncode := (h 0).streamDecode_streamEncode
  blockEncode_length iv d hd := by
    obtain ⟨n, hn⟩ := hd
    rw [Nat.mul_comm] at hn
    rw [(h n).blockEncode_length iv hn, hn]
  blockDecode_blockEncode iv d hd := by
    obtain ⟨n, hn⟩ := hd
    rw [Nat.mul_comm] at hn
    exact (h n).blockDecode_blockEncode iv hn

structure KeyCipher.Fits (cipher : KeyCipher) (blockSize : ℤ) : Prop where
  large : 64 ≤ blockSize
  whole : (cipher.cipherBlockSize : ℤ) ∣ blockSize
  small : 0 < cipher.cipherBlockSize ∧ cipher.cipherBlockSize < 128
  coding (key : Bytes) (n : ℕ) : (cipher.coding key).Lawful (n * cipher.cipherBlockSize)

section Sound

variable {P : Platform}

lemma NewSSL_coding {blockSize : ℕ} {F : SSLFamily blockSize} {realIface iface : Interface}
    {keyRange : Range} {defaultKeyLen keyLen : ℤ} {made : Interface × KeyCipher}
    (h : NewSSL F realIface keyRange defaultKeyLen iface keyLen = some made) :
    made.2.cipherBlockSize = blockSize ∧
      ∀ key n, (made.2.coding key).Lawful (n * made.2.cipherBlockSize) := by
  obtain ⟨len, -, hmade⟩ := Option.bind_eq_some_iff.mp h
  cases hmade
  have hsize := F.cipherBlockSize_eq iface.current (len.tdiv 8).toNat
  refine ⟨hsize, fun key n => ?_⟩
  change ((F.cipher iface.current (len.tdiv 8).toNat).coding key).Lawful
    (n * (F.cipher iface.current (len.tdiv 8).toNat).cipherBlockSize)
  rw [hsize]
  exact F.cipher_lawful _ _ key n

lemma fits_of_constructor {alg : CipherAlg} {keyLen blockSize : ℤ} {made : Interface × KeyCipher}
    (hmem : alg ∈ P.GetAlgorithmList false) (h : alg.constructor alg.iface keyLen = some made)
    (hblock : alg.blockSize.Allowed blockSize) : made.2.Fits blockSize := by
  obtain ⟨hmem, hshown⟩ := List.mem_filter.mp hmem
  have hlow := hblock.min_le
  have hwhole := hblock.whole
  rcases mem_gCipherMap hmem with ⟨F, -, rfl⟩ | ⟨F, -, rfl⟩ | rfl
  · obtain ⟨hsize, hcoding⟩ := NewSSL_coding h
    change (64 : ℤ) ≤ blockSize at hlow
    change (16 : ℤ) ∣ blockSize - 64 at hwhole
    refine ⟨hlow, ?_, ?_, hcoding⟩
    · rw [hsize]
      omega
    · rw [hsize]
      decide
  · obtain ⟨hsize, hcoding⟩ := NewSSL_coding h
    change (64 : ℤ) ≤ blockSize at hlow
    change (8 : ℤ) ∣ blockSize - 64 at hwhole
    refine ⟨hlow, ?_, ?_, hcoding⟩
    · rw [hsize]
      omega
    · rw [hsize]
      decide
  · exact absurd hshown (by decide)

lemma KeyCipher.Fits.lawful {cipher : KeyCipher} {blockSize : ℤ} (h : cipher.Fits blockSize)
    (key : Bytes) : (cipher.coding key).Lawful blockSize.toNat := by
  obtain ⟨n, hn⟩ := h.whole
  have hpos := h.small.1
  have hlarge := h.large
  have hnat : blockSize.toNat = n.toNat * cipher.cipherBlockSize := by
    have hnonneg : 0 ≤ n := by
      by_contra hneg
      have := mul_neg_of_pos_of_neg (Int.natCast_pos.mpr hpos) (not_le.mp hneg)
      omega
    obtain ⟨m, rfl⟩ := Int.eq_ofNat_of_zero_le hnonneg
    rw [hn, Int.toNat_natCast, Nat.mul_comm]
    exact Int.toNat_natCast _
  rw [hnat]
  exact h.coding key _

lemma names_lawful { nameIO : NameIOAlg} {cipher : KeyCipher} {blockSize : ℤ} {key : Bytes}
    {N : NameIO} (hfits : cipher.Fits blockSize) (hmem : nameIO ∈ NameIO.gNameIOMap)
    (hnull : nameIO.iface.name ≠ NameIO.NNIOIface.name)
    (h : NameIO.New nameIO.iface cipher key = some N) (chainedNameIV reverseEncryption : Bool) :
    ((N.setChainedNameIV chainedNameIV).setReverseEncryption reverseEncryption).Lawful ∧
      (reverseEncryption = false →
        ((N.setChainedNameIV chainedNameIV).setReverseEncryption reverseEncryption).Supported) := by
  have hnames : (cipher.coding key).NamesLawful cipher.cipherBlockSize :=
    namesLawful_of_lawful (hfits.coding key)
  simp only [gNameIOMap, List.mem_cons, List.not_mem_nil, or_false] at hmem
  rcases hmem with rfl | rfl | rfl
  · have hblock : NameIO.NewBlockNameIO Interface.blockNames cipher key = some N := h
    unfold NameIO.NewBlockNameIO at hblock
    rw [dif_pos hfits.small] at hblock
    cases hblock
    refine ⟨block_lawful _ hnames chainedNameIV reverseEncryption, ?_⟩
    rintro rfl
    exact .block ⟨_, _, _, _, _⟩ hnames (.inr rfl) chainedNameIV
  · exact absurd rfl hnull
  · have hstream : NameIO.NewStreamNameIO Interface.streamNames cipher key = some N := h
    cases hstream
    refine ⟨stream_lawful _ hnames chainedNameIV reverseEncryption, ?_⟩
    rintro rfl
    exact .stream ⟨_, _⟩ _ hnames (Nat.le_refl 2) chainedNameIV

lemma newFileNode_isSome {τ : Type} {C : FSConfig} (hlarge : 64 ≤ C.config.blockSize)
    (hmac : C.config.blockMACBytes = 0 ∨ C.config.blockMACBytes = 8)
    (hrand : 0 ≤ C.config.blockMACRandBytes ∧ C.config.blockMACRandBytes ≤ 8) (base : FileIO τ)
    (random macRandom : RandomSource) (ext : UInt64) :
    (C.newFileNode base random macRandom ext).isSome := by
  rw [FSConfig.newFileNode, FSConfig.newCipherFileIO, dif_pos (by omega), Option.bind_some]
  split
  · rw [ FSConfig.newMACFileIO, dif_pos (by omega)]
    rfl
  · rfl

structure Settings.Made (s : Settings) (config : EncFSConfig) : Prop where
  nameIface : config.nameIface.name = s.nameIOIface.name ∧
    config.nameIface.current = s.nameIOIface.current
  blockSize : config.blockSize = s.blockSize
  blockMACBytes : config.blockMACBytes = s.blockMACBytes
  blockMACRandBytes : config.blockMACRandBytes = s.blockMACRandBytes
  uniqueIV : config.uniqueIV = s.uniqueIV
  externalIV : config.externalIVChaining = s.externalIV
  chainedIV : config.chainedNameIV = s.chainedIV

lemma Settings.Offered.sound {s : Settings} {alg : CipherAlg} {reverseEncryption : Bool}
    {config : EncFSConfig} {cipher : KeyCipher} {iface : Interface} {opts : EncFS_Opts}
    {key : Bytes} {root : EncFS_Root} (hs : s.Offered P reverseEncryption alg)
    (hcipher : alg.constructor alg.iface s.keySize = some (iface, cipher)) (hmade : s.Made config)
    (hnew : EncFS_Root.new opts config cipher key = some root)
    (hreverse : opts.reverseEncryption = true → config.FitsReverse) : root.fsConfig.Sound := by
  have hfits := fits_of_constructor hs.alg_mem hcipher hs.blockSize
  rw [← hmade.blockSize] at hfits
  have hmac := hs.blockMACBytes
  have hrand := hs.blockMACRandBytes
  rw [← hmade.blockMACBytes] at hmac
  rw [← hmade.blockMACRandBytes] at hrand
  obtain ⟨coder, hmem, hiface⟩ := hs.nameIOIface
  obtain ⟨N, hN, hnew⟩ := Option.bind_eq_some_iff.mp hnew
  cases hnew
  refine ⟨hfits.whole, hfits.lawful key, fun base random macRandom ext =>
    newFileNode_isSome hfits.large hmac hrand base random macRandom ext, fun hnull => ?_, ?_,
    hreverse⟩
  · obtain ⟨hname, hcurrent⟩ := hmade.nameIface
    rw [hiface] at hname hcurrent
    rw [New_congr hname hcurrent] at hN
    exact names_lawful hfits hmem (fun h => hnull (hname.trans h)) hN _ _
  · intro hext
    obtain ⟨hchained, hunique⟩ := hs.externalIV (hmade.externalIV.symm.trans hext)
    exact ⟨hmade.chainedIV.trans hchained, hmade.uniqueIV.trans hunique⟩

lemma made_of_parameters {s : Settings} {config : EncFSConfig} {iface : Interface}
    (h : config.parameters =
        { cipherIface := iface, nameIface := s.nameIOIface, keySize := s.keySize,
          blockSize := s.blockSize, blockMACBytes := s.blockMACBytes,
          blockMACRandBytes := s.blockMACRandBytes, uniqueIV := s.uniqueIV,
          externalIVChaining := s.externalIV, chainedNameIV := s.chainedIV,
          allowHoles := s.allowHoles }) : s.Made config ∧ s.Made config.stored := by
  simp only [EncFSConfig.parameters, CodingParameters.mk.injEq] at h
  obtain ⟨-, hname, -, hsize, hmac, hrand, hunique, hexternal, hchained, -⟩ := h
  have hsame : config.nameIface.name = s.nameIOIface.name ∧
      config.nameIface.current = s.nameIOIface.current := by
    rw [hname]
    exact ⟨rfl, rfl⟩
  exact ⟨⟨hsame, hsize, hmac, hrand, hunique, hexternal, hchained⟩,
    ⟨hsame, hsize, hmac, hrand, hunique, hexternal, hchained⟩⟩

end Sound

/-- Whoever opens a volume that was created finds it in order. -/
theorem created_sound {P : Platform} {files files' : Files} {opts opts' : EncFS_Opts}
    {u u' : Surroundings} {password : Bytes} {root root' : EncFS_Root} {a : Attempt}
    (h : createV6Config P files opts u = (some (password, root), files'))
    (hroot : opts'.rootDir = opts.rootDir) (ha : a.passBuf = some password)
    (hopen : (initFS P files' opts' a u').1 = some root') :
    root.fsConfig.Sound ∧ root'.fsConfig.Sound := by
  obtain ⟨s, alg, config, cipher, v, hs, hconfig, hv, rfl, rfl, hnew⟩ := createV6Config_eq_some h
  obtain ⟨hcreated, hcipher, -, hparameters⟩ := newConfig_eq_some hs hconfig
  obtain ⟨hsame, S, userKey, rfl, hunlocks⟩ := saveNewVolume_spec hcreated hv
  obtain ⟨hmade, hmadeStored⟩ := made_of_parameters (hsame.trans hparameters)
  constructor
  · refine hs.sound hcipher hmade hnew fun hreverse => ?_
    rw [hreverse] at hs
    exact fitsReverse_of_offered hs hconfig hsame
  · rw [initFS, hroot, hunlocks.read] at hopen
    dsimp only at hopen
    rw [hunlocks.openVolume_eq opts' ha] at hopen
    split at hopen
    · cases hopen
    · rename_i hfits
      refine hs.sound hcipher hmadeStored hopen fun hreverse => ?_
      by_contra hno
      exact hfits ⟨hreverse, hno⟩

theorem created_sound_expert :
    ∃ root root' files', createV6Config maskPlatform noFiles expertOpts expertAnswers =
        (some (bytes "pw", root), files') ∧
      (initFS maskPlatform files' expertOpts (typed "pw") expertAnswers).1 = some root' ∧
      root.fsConfig.Sound ∧ root'.fsConfig.Sound := by
  obtain ⟨root, hcreated, -⟩ := expert_created
  have hopen : initFS maskPlatform _ expertOpts (typed "pw") expertAnswers = _ :=
    createV6Config_initFS hcreated rfl rfl
  rw [if_neg (fun hreverse => absurd hreverse.1 (by decide))] at hopen
  exact ⟨root, _, _, hcreated, congrArg Prod.fst hopen,
    created_sound hcreated rfl rfl (congrArg Prod.fst hopen)⟩

end EncFS
