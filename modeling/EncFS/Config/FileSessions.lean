import EncFS.Config.MountVolume
import EncFS.FileIO.Sessions
import EncFS.MACFileIO.Refinement
import EncFS.NameIO.Coders

set_option autoImplicit false

namespace EncFS

open FlatArray
open MACFileIO (blockFile_blockStore)

variable {τ : Type}

structure FileStart where
  draws : ℕ
  macDraws : ℕ

namespace CipherFileIO

variable (F : CipherFileIO τ) (externalIV : UInt64)

def fresh (i : FileStart) (s : τ) : Cached (CipherFile τ) :=
  ⟨.empty, ⟨s, externalIV, 0, 0, i.draws⟩⟩

def fileObject : FileObject τ FileStart where
  State := Cached (CipherFile τ)
  accessors := F.blockFile.accessors
  openFile := F.fileIO.openFile
  made := fresh externalIV
  base o := o.file.base

end CipherFileIO

open CipherFileIO in
def MACFileIO.fileObject (M : MACFileIO (Cached (CipherFile τ))) (externalIV : UInt64) :
    FileObject τ FileStart where
  State := Cached (MACFile (Cached (CipherFile τ)))
  accessors := M.blockFile.accessors
  openFile flags := Cached.lift (MACFile.lift (M.base.openFile flags))
  made i s := ⟨.empty, ⟨fresh externalIV i s, i.macDraws⟩⟩
  base o := o.file.base.file.base

namespace FSConfig

variable (C : FSConfig)

def newCipherFileIO (base : FileIO τ) (random : RandomSource) : Option <| CipherFileIO τ :=
  if h : 1 < C.config.blockSize.toNat then
    some {
      base, random
      cipher := C.cipher.coding C.key
      blockSize := C.config.blockSize.toNat
      blockSize_gt := h
      allowHoles := C.config.allowHoles
      haveHeader := C.config.uniqueIV
      reverseEncryption := C.reverseEncryption }
  else none

def newMACFileIO {σ : Type} (base : FileIO σ) (random : RandomSource) : Option <| MACFileIO σ :=
  let dataBlockSize := C.config.blockSize - C.config.blockMACBytes - C.config.blockMACRandBytes
  if h : 1 < dataBlockSize ∧ (0 ≤ C.config.blockMACBytes ∧ C.config.blockMACBytes ≤ 8) ∧
      0 ≤ C.config.blockMACRandBytes then
    some {
      base, random
      cipher := C.cipher.coding C.key
      fsBlockSize := C.config.blockSize.toNat
      macBytes := C.config.blockMACBytes.toNat
      randBytes := C.config.blockMACRandBytes.toNat
      warnOnly := C.opts.forceDecode
      allowHoles := C.config.allowHoles
      macBytes_le := by omega
      dataBlockSize_gt := by omega }
  else none

def newFileNode (base : FileIO τ) (random macRandom : RandomSource) (externalIV : UInt64) :
    Option (FileObject τ FileStart) :=
  ( C.newCipherFileIO base random).bind fun io =>
    if C.config.blockMACBytes ≠ 0 ∨ C.config.blockMACRandBytes ≠ 0 then
      ( C.newMACFileIO io.fileIO macRandom).map (·.fileObject externalIV)
    else some (io.fileObject externalIV)

end FSConfig

section Layers

open RawFileIO (Opened)

variable {ext : UInt64}

/-- An object that opens a raw file with the bytes `raw` finds `c` in it. -/
def CipherFileIO.KeepsContent (F : CipherFileIO RawFile) (ext : UInt64) (raw c : Bytes) : Prop :=
  ∀ {s} flags draws, Opened s raw →
    ∃ v, F.Decodes v (F.Holds Opened ext v) ⟨s, ext, 0, flags, draws⟩ c

/-- The content is laid out in blocks with headers in what an object of the layer below finds. -/
def MACFileIO.KeepsContent (M : MACFileIO (Cached (CipherFile RawFile))) (F : CipherFileIO RawFile)
    (ext : UInt64) (raw c : Bytes) : Prop :=
  ∃ b, F.KeepsContent ext raw b ∧ M.Layout b c

namespace CipherFileIO

variable {F : CipherFileIO RawFile} (hC : F.cipher.Lawful F.blockSize)
  (hrand : ∀ i, F.random.randomize i HEADER_SIZE ≠ none)
include hC hrand

lemma keeps_of_decodes {v : UInt64} {f : CipherFile RawFile} {c : Bytes}
    (h : F.Decodes v (F.Holds Opened ext v) f c) : F.KeepsContent ext f.base.raw c := by
  obtain ⟨g, ⟨hext, raw, hR, hstored⟩, rfl⟩ := h
  obtain rfl := hR.raw
  intro s flags draws hs
  cases hstored with
  | plain hheader _ hv hraw =>
    exact ⟨v, g, ⟨rfl, f.base.raw, hs, .plain hheader rfl hv hraw⟩, rfl⟩
  | fresh hheader _ _ _ hraw hg =>
    obtain ⟨buf, hbuf⟩ := Option.ne_none_iff_exists'.mp (hrand (F.random.firstUsable draws))
    refine ⟨ivOfBytes buf, [], ⟨rfl, f.base.raw, hs, .fresh hheader rfl hbuf rfl hraw rfl⟩, ?_⟩
    rw [hg, decoded_nil hC, decoded_nil hC]
  | headed hheader hv _ hd =>
    rw [hext] at hd
    exact ⟨v, g, ⟨rfl, f.base.raw, hs, .headed hheader hv (.inl rfl) hd⟩, rfl⟩

lemma keeps_empty : F.KeepsContent ext [] [] := by
  intro s flags draws hs
  cases hheader : F.haveHeader with
  | false => exact ⟨0, [], ⟨rfl, [], hs, .plain hheader rfl rfl rfl⟩, (decoded_nil hC 0).symm⟩
  | true =>
    obtain ⟨buf, hbuf⟩ := Option.ne_none_iff_exists'.mp (hrand (F.random.firstUsable draws))
    exact ⟨ivOfBytes buf, [], ⟨rfl, [], hs, .fresh hheader rfl hbuf rfl rfl rfl⟩,
      (decoded_nil hC _).symm⟩

omit hrand in
lemma decodes_blockStore (hb : F.base.FlatStore Opened) (hholes : F.allowHoles = false)
    (v : UInt64) : F.blockFile.BlockStore (F.Decodes v (F.Holds Opened ext v)) :=
  blockStore_decoded hC (codec_implements hb hC)
    (fun hallow => by rw [hholes] at hallow; cases hallow)
    fun k d _ => readBack_noHoles hC hholes k d

omit hC hrand in
variable (ext) in
lemma openFile_fresh (hbase : F.base = RawFileIO.fileIO) (i : FileStart) (raw : Bytes) {flags : ℕ}
    (h : flags &&& O_RDWR ≠ 0 ∨ flags &&& O_WRONLY ≠ 0) :
    ∃ s, F.fileIO.openFile flags (fresh ext i (.fresh raw)) =
        .ok 3 ⟨.empty, ⟨s, ext, 0, flags, i.draws⟩⟩ ∧ Opened s raw := by
  obtain ⟨s, hopen, hs⟩ := RawFileIO.openFile_fresh raw h
  refine ⟨s, Cached.lift_ok ?_, hs⟩
  rw [open', Action.bind_ok (CipherFile.lift_ok (hbase ▸ hopen))]
  rfl

end CipherFileIO

lemma CipherFileIO.fileObject_keeps {F : CipherFileIO RawFile} (hbase : F.base = RawFileIO.fileIO)
    (hC : F.cipher.Lawful F.blockSize) (hrand : ∀ i, F.random.randomize i HEADER_SIZE ≠ none)
    (hholes : F.allowHoles = false) : (F.fileObject ext).Keeps (F.KeepsContent ext) := by
  have hb : F.base.FlatStore Opened := hbase ▸ RawFileIO.fileIO_flatStore
  refine FileObject.keeps_of_refinesFlat fun w raw c hw hraw => ?_
  obtain ⟨s, hopen, hs⟩ := openFile_fresh ext hbase w.start raw hw.1
  obtain ⟨v, hopened⟩ := hraw w.flags w.start.draws hs
  refine ⟨F.blockFile.Represents (F.Decodes v (F.Holds Opened ext v)), _, hopen, ?_, ?_,
    fun hclosed => ?_⟩
  · exact BlockFileIO.refinesFlat (decodes_blockStore hC hb hholes v)
  · exact BlockFileIO.represents_fresh hopened
  · exact CipherFileIO.keeps_of_decodes hC hrand hclosed.stored

open CipherFileIO (decodes_blockStore) in
lemma MACFileIO.fileObject_keeps {M : MACFileIO (Cached (CipherFile RawFile))}
    {F : CipherFileIO RawFile} (hM : M.base = F.fileIO) (hbase : F.base = RawFileIO.fileIO)
    (hC : F.cipher.Lawful F.blockSize) (hrand : ∀ i, F.random.randomize i HEADER_SIZE ≠ none)
    (hmac : ∀ i, M.random.randomize i M.randBytes ≠ none) (hholes : F.allowHoles = false) :
    (M.fileObject ext).Keeps (M.KeepsContent F ext) := by
  have hb : F.base.FlatStore Opened := hbase ▸ RawFileIO.fileIO_flatStore
  refine FileObject.keeps_of_refinesFlat fun w raw c hw hraw => ?_
  obtain ⟨b, hs, hlayout⟩ := hraw
  obtain ⟨s, hopen, hs'⟩ := CipherFileIO.openFile_fresh ext hbase w.start raw hw.1
  obtain ⟨v, hopened⟩ := hs w.flags w.start.draws hs'
  have hbelow : M.base.RefinesFlat (F.blockFile.Represents (F.Decodes v (F.Holds Opened ext v))) := by
    rw [hM]
    exact BlockFileIO.refinesFlat (decodes_blockStore hC hb hholes v)
  refine ⟨M.blockFile.Represents
    (M.Holds (F.blockFile.Represents (F.Decodes v (F.Holds Opened ext v)))), _,
    Cached.lift_ok (MACFile.lift_ok (hM ▸ hopen)), ?_, ?_, fun hclosed => ?_⟩
  · exact BlockFileIO.refinesFlat (blockFile_blockStore hbelow fun _ => hmac)
  · exact BlockFileIO.represents_fresh ⟨b, BlockFileIO.represents_fresh hopened, hlayout⟩
  · obtain ⟨b', hrepresents, hlayout'⟩ := hclosed.stored
    exact ⟨b', CipherFileIO.keeps_of_decodes hC hrand hrepresents.stored, hlayout'⟩

end Layers

namespace FSConfig

structure SameCoding (C C' : FSConfig) : Prop where
  parameters : C.config.parameters = C'.config.parameters
  cipher : C.cipher = C'.cipher
  key : C.key = C'.key
  reverseEncryption : C.reverseEncryption = C'.reverseEncryption

def KeepsFile (C : FSConfig) (random macRandom : RandomSource) (ext : UInt64) (raw c : Bytes) :
    Prop :=
  ∃ F, C.newCipherFileIO RawFileIO.fileIO random = some F ∧
    if C.config.blockMACBytes ≠ 0 ∨ C.config.blockMACRandBytes ≠ 0 then
      ∃ M, C.newMACFileIO F.fileIO macRandom = some M ∧ M.KeepsContent F ext raw c
    else F.KeepsContent ext raw c

variable {C C' : FSConfig} {base : FileIO τ} {random macRandom : RandomSource} {ext : UInt64}

lemma SameCoding.newCipherFileIO_eq (h : C.SameCoding C') :
    C.newCipherFileIO base random = C'.newCipherFileIO base random := by
  have hblockSize := congrArg CodingParameters.blockSize h.parameters
  have hholes := congrArg CodingParameters.allowHoles h.parameters
  have hunique := congrArg CodingParameters.uniqueIV h.parameters
  simp only [EncFSConfig.parameters] at hblockSize hholes hunique
  simp only [hblockSize, newCipherFileIO, hholes, hunique, h.cipher, h.key, h.reverseEncryption]

lemma SameCoding.newMACFileIO_eq {σ : Type} {io : FileIO σ} (h : C.SameCoding C') :
    C.newMACFileIO io macRandom = ( C'.newMACFileIO io macRandom).map fun M =>
      { M with warnOnly := C.opts.forceDecode } := by
  have hblockSize := congrArg CodingParameters.blockSize h.parameters
  have hholes := congrArg CodingParameters.allowHoles h.parameters
  have hmac := congrArg CodingParameters.blockMACBytes h.parameters
  have hrand := congrArg CodingParameters.blockMACRandBytes h.parameters
  simp only [EncFSConfig.parameters] at hblockSize hholes hmac hrand
  simp only [hblockSize, newMACFileIO, hholes, hmac, hrand, h.cipher, h.key]
  split <;> rfl

lemma keeps_warnOnly {M : MACFileIO (Cached (CipherFile RawFile))} {F : CipherFileIO RawFile}
    {raw c : Bytes} (warnOnly : Bool) (h : M.KeepsContent F ext raw c) :
    MACFileIO.KeepsContent { M with warnOnly := warnOnly } F ext raw c := by
  obtain ⟨b, hs, hlayout⟩ := h
  exact ⟨b, hs, hlayout.length, hlayout.block⟩

lemma SameCoding.keepsFile {raw c : Bytes} (h : C.SameCoding C')
    (hs : C'.KeepsFile random macRandom ext raw c) : C.KeepsFile random macRandom ext raw c := by
  obtain ⟨F, hF, hs⟩ := hs
  have hmac := congrArg CodingParameters.blockMACBytes h.parameters
  have hrand := congrArg CodingParameters.blockMACRandBytes h.parameters
  simp only [EncFSConfig.parameters] at hmac hrand
  refine ⟨F, h.newCipherFileIO_eq.trans hF, ?_⟩
  rw [hmac, hrand]
  split
  · rename_i hheaders
    rw [if_pos hheaders] at hs
    obtain ⟨M, hM, hs⟩ := hs
    refine ⟨{ M with warnOnly := C.opts.forceDecode }, ?_, keeps_warnOnly _ hs⟩
    rw [h.newMACFileIO_eq, hM]
    rfl
  · rename_i hplain
    rwa [if_neg hplain] at hs

lemma newCipherFileIO_eq_some {F : CipherFileIO τ} (h : C.newCipherFileIO base random = some F) :
    F.base = base ∧ F.random = random ∧ F.cipher = C.cipher.coding C.key ∧
      F.blockSize = C.config.blockSize.toNat ∧ F.allowHoles = C.config.allowHoles := by
  unfold newCipherFileIO at h
  split at h
  · cases h
    exact ⟨rfl, rfl, rfl, rfl, rfl⟩
  · cases h

lemma newMACFileIO_eq_some {σ : Type} {io : FileIO σ} {M : MACFileIO σ}
    (h : C.newMACFileIO io macRandom = some M) : M.base = io ∧ M.random = macRandom := by
  unfold newMACFileIO at h
  extract_lets at h
  split at h
  · cases h
    exact ⟨rfl, rfl⟩
  · cases h

section Sessions

variable (hC : (C.cipher.coding C.key).Lawful C.config.blockSize.toNat)
  (hrandom : ∀ i n, random.randomize i n ≠ none)
include hC hrandom

lemma newCipherFileIO_ready {F : CipherFileIO τ} (h : C.newCipherFileIO base random = some F) :
    F.cipher.Lawful F.blockSize ∧ ∀ i, F.random.randomize i HEADER_SIZE ≠ none := by
  obtain ⟨-, hrand, hcipher, hsize, -⟩ := newCipherFileIO_eq_some h
  rw [hcipher, hsize, hrand]
  exact ⟨hC, fun i => hrandom i HEADER_SIZE⟩

lemma newFileNode_keeps (hholes : C.config.allowHoles = false)
    (hmacRandom : ∀ i n, macRandom.randomize i n ≠ none) {O : FileObject RawFile FileStart}
    (h : C.newFileNode RawFileIO.fileIO random macRandom ext = some O) :
    O.Keeps (C.KeepsFile random macRandom ext) := by
  obtain ⟨F, hF, h⟩ := Option.bind_eq_some_iff.mp h
  obtain ⟨hbase, -, -, -, hallow⟩ := newCipherFileIO_eq_some hF
  obtain ⟨hCF, hrandF⟩ := newCipherFileIO_ready hC hrandom hF
  split at h
  · rename_i hmac
    obtain ⟨M, hM, rfl⟩ := Option.map_eq_some_iff.mp h
    obtain ⟨hMbase, hMrand⟩ := newMACFileIO_eq_some hM
    rintro raw c w hw ⟨F', hF', hraw⟩
    obtain rfl : F = F' := Option.some.inj (hF.symm.trans hF')
    rw [if_pos hmac] at hraw
    obtain ⟨M', hM', hraw⟩ := hraw
    obtain rfl : M = M' := Option.some.inj (hM.symm.trans hM')
    obtain ⟨raw', hrun, hraw'⟩ := MACFileIO.fileObject_keeps hMbase hbase hCF hrandF
      (by rw [hMrand]; exact fun i => hmacRandom i _) (hallow.trans hholes) raw c w hw hraw
    exact ⟨raw', hrun, F, hF, by rw [if_pos hmac]; exact ⟨M, hM, hraw'⟩⟩
  · rename_i hmac
    cases h
    rintro raw c w hw ⟨F', hF', hraw⟩
    obtain rfl : F = F' := Option.some.inj (hF.symm.trans hF')
    rw [if_neg hmac] at hraw
    obtain ⟨raw', hrun, hraw'⟩ :=
      CipherFileIO.fileObject_keeps hbase hCF hrandF (hallow.trans hholes) raw c w hw hraw
    exact ⟨raw', hrun, F, hF, by rw [if_neg hmac]; exact hraw'⟩

lemma keepsFile_empty {O : FileObject RawFile FileStart}
    (h : C.newFileNode RawFileIO.fileIO random macRandom ext = some O) :
    C.KeepsFile random macRandom ext [] [] := by
  obtain ⟨F, hF, h⟩ := Option.bind_eq_some_iff.mp h
  obtain ⟨hCF, hrandF⟩ := newCipherFileIO_ready hC hrandom hF
  have hempty : F.KeepsContent ext [] [] := CipherFileIO.keeps_empty hCF hrandF
  refine ⟨F, hF, ?_⟩
  split
  · rename_i hheaders
    rw [if_pos hheaders] at h
    obtain ⟨M, hM, -⟩ := Option.map_eq_some_iff.mp h
    have hlength : ([] : Bytes).length = locWithHeader 0 M.bs M.headerSize :=
      (locWithHeader_zero M.dataBlockSize_pos).symm
    exact ⟨M, hM, [], hempty, hlength, fun _ hk => absurd hk (Nat.not_lt_zero _)⟩
  · exact hempty

end Sessions

end FSConfig

end EncFS
