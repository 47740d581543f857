import EncFS.BlockFileIO.Refinement
import EncFS.CipherFileIO

/-! The raw file under a `CipherFileIO`: a header with the file IV, then the encoded blocks. -/

set_option autoImplicit false

namespace EncFS.CipherFileIO

open FlatArray CipherFile

variable {τ : Type} (F : CipherFileIO τ)

def decoded (v : UInt64) (g : Bytes) : Bytes :=
  mapBlocks F.blockSize (F.decodeBlock v) g

def encoded (v : UInt64) (c : Bytes) : Bytes :=
  mapBlocks F.blockSize (F.encodeBlock v) c

def Headed (ext v : UInt64) (raw g : Bytes) : Prop :=
  ∃ header, header.length = HEADER_SIZE ∧ ivOfBytes (F.cipher.streamDecode ext header) = v ∧
    raw = header ++ g

inductive Stored (v : UInt64) (f : CipherFile τ) (raw g : Bytes) : Prop
  | plain (noHeader : F.haveHeader = false) (fileIV : f.fileIV = 0) (zero : v = 0) (raw_eq : raw = g)
  | fresh (header : F.haveHeader = true) (fileIV : f.fileIV = 0) {buf : Bytes}
      (draw : F.random.randomize (F.random.firstUsable f.draws) HEADER_SIZE = some buf)
      (value : ivOfBytes buf = v) (raw_eq : raw = []) (body_eq : g = [])
  | headed (header : F.haveHeader = true) (ne_zero : v ≠ 0) (fileIV : f.fileIV = 0 ∨ f.fileIV = v)
      (raw_eq : F.Headed f.externalIV v raw g)

variable (R : τ → Bytes → Prop)

structure Holds (ext v : UInt64) (f : CipherFile τ) (g : Bytes) : Prop where
  externalIV : f.externalIV = ext
  stored : ∃ raw, R f.base raw ∧ F.Stored v f raw g

def codecModel (v : UInt64) : BlockFileIO.BlockModel Bytes where
  size := List.length
  block g k := F.decodeBlock v k (slice g (k * F.blockSize) F.blockSize)
  put g k d := splice 0 g (k * F.blockSize) (F.encodeBlock v k d)
  Placed _ _ d := d ≠ [] ∧ d.length ≤ F.blockSize

variable {F R} {ext v : UInt64}

lemma blockSize_pos (F : CipherFileIO τ) : 0 < F.blockSize :=
  Nat.lt_trans Nat.zero_lt_one F.blockSize_gt

section Coding

lemma decodeBlock_null (hC : F.cipher.IsNull) (k : ℕ) (d : Bytes) :
    F.decodeBlock v k d = d := by
  rw [decodeBlock, streamRead, blockRead, hC.streamEncode, hC.streamDecode, hC.blockEncode,
    hC.blockDecode]
  simp only [ite_self]

variable (hC : F.cipher.Lawful F.blockSize)
include hC

lemma blockRead_length (iv : UInt64) {d : Bytes} (h : d.length = F.blockSize) :
    (F.blockRead iv d).length = d.length := by
  rw [blockRead]
  split
  · rw [hC.blockEncode_length iv h, h]
  · split
    · rfl
    · rw [hC.blockDecode_length iv h, h]

lemma blockWrite_length (iv : UInt64) {d : Bytes} (h : d.length = F.blockSize) :
    (F.blockWrite iv d).length = d.length := by
  rw [blockWrite]
  split
  · rw [hC.blockDecode_length iv h, h]
  · rw [hC.blockEncode_length iv h, h]

lemma streamRead_length (iv : UInt64) (d : Bytes) : (F.streamRead iv d).length = d.length := by
  rw [streamRead]
  split
  · exact hC.streamEncode_length iv d
  · exact hC.streamDecode_length iv d

lemma streamWrite_length (iv : UInt64) (d : Bytes) : (F.streamWrite iv d).length = d.length := by
  rw [streamWrite]
  split
  · exact hC.streamDecode_length iv d
  · exact hC.streamEncode_length iv d

lemma decodeBlock_length (v : UInt64) (k : ℕ) (d : Bytes) :
    (F.decodeBlock v k d).length = d.length := by
  rw [decodeBlock]
  split
  · exact streamRead_length hC _ d
  · rename_i h
    exact blockRead_length hC _ (not_not.mp h)

lemma encodeBlock_length (v : UInt64) (k : ℕ) (d : Bytes) :
    (F.encodeBlock v k d).length = d.length := by
  rw [encodeBlock]
  split
  · exact streamWrite_length hC _ d
  · rename_i h
    exact blockWrite_length hC _ (not_not.mp h)

lemma lengthPreserving_decodeBlock (v : UInt64) :
    LengthPreserving F.blockSize (F.decodeBlock v) :=
  fun k d _ => decodeBlock_length hC v k d

lemma lengthPreserving_encodeBlock (v : UInt64) :
    LengthPreserving F.blockSize (F.encodeBlock v) :=
  fun k d _ => encodeBlock_length hC v k d

@[simp] lemma decoded_length (v : UInt64) (g : Bytes) : (F.decoded v g).length = g.length :=
  mapBlocks_length (lengthPreserving_decodeBlock hC v) F.blockSize_pos g

lemma decoded_nil (v : UInt64) : F.decoded v [] = [] :=
  List.length_eq_zero_iff.mp (decoded_length hC v [])

@[simp] lemma encoded_length (v : UInt64) (c : Bytes) : (F.encoded v c).length = c.length :=
  mapBlocks_length (lengthPreserving_encodeBlock hC v) F.blockSize_pos c

lemma slice_decoded (v : UInt64) (g : Bytes) (k : ℕ) :
    slice (F.decoded v g) (k * F.blockSize) F.blockSize =
      F.decodeBlock v k (slice g (k * F.blockSize) F.blockSize) :=
  slice_mapBlocks (lengthPreserving_decodeBlock hC v) F.blockSize_pos g k

lemma encodeBlock_ne_nil {k : ℕ} {d : Bytes} (h : d ≠ []) : F.encodeBlock v k d ≠ [] :=
  List.ne_nil_of_length_pos (by rw [encodeBlock_length hC]; exact List.length_pos_of_ne_nil h)

lemma encodeBlock_decodeBlock (hh : F.allowHoles = false) (v : UInt64) (k : ℕ) (d : Bytes) :
    F.encodeBlock v k (F.decodeBlock v k d) = d := by
  have hlen := decodeBlock_length hC v k d
  rw [encodeBlock]
  rw [hlen]
  rw [decodeBlock]
  split
  · rw [streamWrite, streamRead]
    cases F.reverseEncryption
    · exact hC.streamEncode_streamDecode _ d
    · exact hC.streamDecode_streamEncode _ d
  · rename_i h
    rw [blockWrite, blockRead]
    rw [hh]
    cases F.reverseEncryption
    · simpa using hC.blockEncode_blockDecode _ (not_not.mp h)
    · exact hC.blockDecode_blockEncode _ (not_not.mp h)

lemma decodeBlock_encodeBlock (v : UInt64) (k : ℕ) {d : Bytes}
    (hz : F.allowHoles = true → F.reverseEncryption = false → d.length = F.blockSize →
      F.encodeBlock v k d = List.replicate F.blockSize 0 → d = List.replicate F.blockSize 0) :
    F.decodeBlock v k (F.encodeBlock v k d) = d := by
  have hlen := encodeBlock_length hC v k d
  rw [decodeBlock]
  rw [hlen]
  by_cases h : d.length = F.blockSize
  · rw [if_neg (not_not.mpr h)]
    have hw : F.encodeBlock v k d = F.blockWrite (blockIV v k) d := if_neg (not_not.mpr h)
    rw [blockRead]
    cases hr : F.reverseEncryption
    · rw [if_neg (by simp)]
      split
      · rename_i hzero
        rw [hlen, h] at hzero
        rw [hzero.2, hz hzero.1 hr h hzero.2]
      · rw [hw, blockWrite, hr, if_neg (by simp), hC.blockDecode_blockEncode _ h]
    · rw [if_pos rfl, hw, blockWrite, hr, if_pos rfl, hC.blockEncode_blockDecode _ h]
  · rw [if_pos h, encodeBlock, if_pos h]
    rw [streamRead, streamWrite]
    cases F.reverseEncryption
    · exact hC.streamDecode_streamEncode _ d
    · exact hC.streamEncode_streamDecode _ d

omit hC in
lemma decodeBlock_hole (hh : F.allowHoles = true) (hr : F.reverseEncryption = false) (v : UInt64)
    (k : ℕ) :
    F.decodeBlock v k (List.replicate F.blockSize 0) = List.replicate F.blockSize 0 := by
  rw [decodeBlock, blockRead]
  simp [hh, hr]

end Coding

lemma noHeader {p : Prop} (h : F.haveHeader = true) (h' : F.haveHeader = false) : p := by
  rw [h] at h'
  cases h'

lemma Stored.size {f : CipherFile τ} {raw g : Bytes} (h : F.Stored v f raw g) :
    (F.haveHeader = true ∧ 0 < raw.length →
      HEADER_SIZE ≤ raw.length ∧ raw.length - HEADER_SIZE = g.length) ∧
    (¬(F.haveHeader = true ∧ 0 < raw.length) → raw.length = g.length) := by
  cases h with
  | plain hh _ _ hg =>
    subst hg
    simp [hh]
  | fresh _ _ _ _ hr hg =>
    subst hr hg
    simp
  | headed hh _ _ hd =>
    obtain ⟨header, hlen, -, rfl⟩ := hd
    have hpos : 0 < HEADER_SIZE := by decide
    refine ⟨fun _ => by simp [hlen], fun hn => (hn ⟨hh, ?_⟩).elim⟩
    rw [List.length_append]
    omega

lemma Stored.setBase {f : CipherFile τ} {raw g : Bytes} (h : F.Stored v f raw g) (s : τ) :
    F.Stored v { f with base := s } raw g := by
  cases h with
  | plain hh hf hz hr => exact .plain hh hf hz hr
  | fresh hh hf hd hv hr hg => exact .fresh hh hf hd hv hr hg
  | headed hh hv hf hd => exact .headed hh hv hf hd

lemma Stored.slice {f : CipherFile τ} {raw g : Bytes} (h : F.Stored v f raw g) (off n : ℕ) :
    slice raw (off + F.headerSize) n = slice g off n := by
  rw [headerSize]
  cases h with
  | plain hh _ _ hg => simp [hh, hg]
  | fresh _ _ _ _ hr hg =>
    subst hr hg
    simp [FlatArray.slice]
  | headed hh _ _ hd =>
    obtain ⟨header, hlen, -, rfl⟩ := hd
    rw [if_pos hh, ← hlen]
    simp [FlatArray.slice, Nat.add_comm off]

structure Ready (v : UInt64) (f : CipherFile τ) (raw g : Bytes) : Prop where
  fileIV : f.fileIV = v
  plain : F.haveHeader = false → v = 0 ∧ raw = g
  headed : F.haveHeader = true → v ≠ 0 ∧ F.Headed f.externalIV v raw g

lemma Ready.stored {f : CipherFile τ} {raw g : Bytes} (h : F.Ready v f raw g) :
    F.Stored v f raw g := by
  cases hh : F.haveHeader with
  | false =>
    obtain ⟨hv, hr⟩ := h.plain hh
    exact .plain hh (h.fileIV.trans hv) hv hr
  | true =>
    obtain ⟨hv, hd⟩ := h.headed hh
    exact .headed hh hv (.inr h.fileIV) hd

lemma Ready.splice {f : CipherFile τ} {raw g : Bytes} (h : F.Ready v f raw g) (s : τ) (off : ℕ)
    (d : Bytes) :
    F.Ready v { f with base := s } (splice 0 raw (off + F.headerSize) d) (splice 0 g off d) := by
  refine ⟨h.fileIV, fun hh => ⟨(h.plain hh).1, ?_⟩, fun hh => ⟨(h.headed hh).1, ?_⟩⟩
  · rw [(h.plain hh).2, headerSize, hh]
    rfl
  · obtain ⟨header, hlen, hiv, rfl⟩ := (h.headed hh).2
    refine ⟨header, hlen, hiv, ?_⟩
    rw [headerSize, if_pos hh, ← hlen]
    apply List.ext_getElem?
    intro i
    simp only [splice_getElem?, List.getElem?_append, List.getD_eq_getElem?_getD]
    grind

section Reading

variable (hb : F.base.ReadsFlat R)
include hb

lemma readHeader_run {f : CipherFile τ} {raw g : Bytes} (hR : R f.base raw) (hv : v ≠ 0)
    (hd : F.Headed f.externalIV v raw g) :
    ∃ s', F.readHeader f = .ok ⟨⟩ { f with base := s', fileIV := v } ∧ R s' raw := by
  obtain ⟨header, hlen, hiv, rfl⟩ := hd
  obtain ⟨s', he, hR'⟩ := hb.read 0 HEADER_SIZE hR
  refine ⟨s', ?_, hR'⟩
  have hbuf : slice (header ++ g) 0 HEADER_SIZE = header := by
    rw [slice_append_left _ (by omega), slice_all (by omega)]
  rw [hbuf] at he
  rw [readHeader, Action.bind_ok (lift_ok he), Action.get_bind]
  have hres : resize 0 header HEADER_SIZE = header := by
    rw [← hlen, resize_self]
  simp only [Option.getD_some, hres, hiv, if_neg hv]
  rfl

lemma initHeader_read {f : CipherFile τ} {raw g : Bytes} (hR : R f.base raw) (hv : v ≠ 0)
    (hd : F.Headed f.externalIV v raw g) :
    ∃ s', F.initHeader f = .ok ⟨⟩ { f with base := s', fileIV := v } ∧ R s' raw := by
  obtain ⟨s₁, h₁, hR₁⟩ := hb.getSize hR
  obtain ⟨s₂, h₂, hR₂⟩ := readHeader_run hb (f := { f with base := s₁ }) hR₁ hv hd
  refine ⟨s₂, ?_, hR₂⟩
  have hsize : HEADER_SIZE ≤ raw.length := by
    obtain ⟨header, hlen, -, rfl⟩ := hd
    rw [List.length_append]
    omega
  rw [initHeader, Action.bind_ok (lift_ok h₁), if_pos (Int.ofNat_le.mpr hsize), h₂]

lemma needHeader_read {f : CipherFile τ} {raw g : Bytes} (hR : R f.base raw)
    (h : F.Stored v f raw g) (hg : g ≠ []) :
    ∃ f', F.needHeader f = .ok ⟨⟩ f' ∧ R f'.base raw ∧ F.Ready v f' raw g ∧
      f'.externalIV = f.externalIV := by
  cases h with
  | plain hh hf hz hr =>
    refine ⟨f, ?_, hR, ⟨hf.trans hz.symm, fun _ => ⟨hz, hr⟩, fun h' => noHeader h' hh⟩, rfl⟩
    simp [needHeader, hh]
  | fresh _ _ _ _ _ hg' => exact (hg hg').elim
  | headed hh hv hf hd =>
    have hready (s : τ) : F.Ready v { f with base := s, fileIV := v } raw g :=
      ⟨rfl, noHeader hh, fun _ => ⟨hv, hd⟩⟩
    by_cases h0 : f.fileIV = 0
    · obtain ⟨s', he, hR'⟩ := initHeader_read hb hR hv hd
      refine ⟨_, ?_, hR', hready s', rfl⟩
      rw [needHeader, Action.get_bind, if_pos ⟨hh, h0⟩, he]
    · have hf' := hf.resolve_left h0
      refine ⟨f, ?_, hR, ?_, rfl⟩
      · rw [needHeader, Action.get_bind, if_neg (fun h' => h0 h'.2)]
        rfl
      · have := hready f.base
        rwa [← hf'] at this ⊢

lemma getSize_run {f : CipherFile τ} {raw g : Bytes} (hR : R f.base raw)
    (hs : F.Stored v f raw g) :
    ∃ s', F.getSize f = .ok g.length { f with base := s' } ∧ R s' raw := by
  obtain ⟨s', he, hR'⟩ := hb.getSize hR
  refine ⟨s', ?_, hR'⟩
  rw [getSize, Action.bind_ok (lift_ok he)]
  obtain ⟨h₁, h₂⟩ := hs.size
  split
  · rename_i hh
    obtain ⟨hle, hlen⟩ := h₁ ⟨hh.1, Int.natCast_pos.mp hh.2⟩
    rw [if_pos (Int.ofNat_le.mpr hle), ← Nat.cast_sub hle, hlen]
    rfl
  · rename_i hh
    rw [h₂ fun h => hh ⟨h.1, Int.natCast_pos.mpr h.2⟩]
    rfl

lemma readOneBlock_run {f : CipherFile τ} {raw g : Bytes} (hC : F.cipher.Lawful F.blockSize)
    (k : ℕ) (hR : R f.base raw) (hs : F.Stored v f raw g) :
    ∃ f', F.readOneBlock (k * F.blockSize) F.blockSize f =
      .ok (some (F.decodeBlock v k (slice g (k * F.blockSize) F.blockSize))) f' ∧
      R f'.base raw ∧ f'.externalIV = f.externalIV ∧
      (f' = { f with base := f'.base } ∨ F.Ready v f' raw g) := by
  obtain ⟨s₁, he, hR₁⟩ := hb.read (k * F.blockSize + F.headerSize) F.blockSize hR
  rw [hs.slice] at he
  rw [readOneBlock, Action.bind_ok (lift_ok he)]
  by_cases hnil : slice g (k * F.blockSize) F.blockSize = []
  · have hdec : F.decodeBlock v k [] = [] :=
      List.length_eq_zero_iff.mp (decodeBlock_length hC v k [])
    refine ⟨{ f with base := s₁ }, ?_, hR₁, rfl, .inl rfl⟩
    simp [hnil, hdec]
  · have hg : g ≠ [] := fun h' => hnil (by simp [h', slice])
    obtain ⟨f', he', hR', hready, hx'⟩ :=
      needHeader_read hb (f := { f with base := s₁ }) hR₁ (hs.setBase s₁) hg
    refine ⟨f', ?_, hR', hx', .inr hready⟩
    simp only [if_neg hnil]
    rw [Action.bind_ok he', Action.get_bind, hready.fileIV, Nat.mul_div_cancel k F.blockSize_pos]
    rfl

lemma codec_reads (hC : F.cipher.Lawful F.blockSize) :
    F.blockFile.Reads (F.codecModel v) (F.Holds R ext v) where
  getSize := by
    rintro f g ⟨hx, raw, hR, hs⟩
    obtain ⟨s', he, hR'⟩ := getSize_run hb hR hs
    exact ⟨_, he, hx, raw, hR', hs.setBase s'⟩
  readOneBlock := by
    rintro f g k ⟨hx, raw, hR, hs⟩
    obtain ⟨f', he, hR', hx', hf⟩ := readOneBlock_run hb hC k hR hs
    refine ⟨f', he, hx'.trans hx, raw, hR', ?_⟩
    rcases hf with hf | hready
    · rw [hf]
      exact hs.setBase f'.base
    · exact hready.stored

end Reading

section Writing

variable (hb : F.base.FlatStore R) (hC : F.cipher.Lawful F.blockSize)
include hb hC

lemma createHeader_run {f : CipherFile τ} {buf : Bytes} (hR : R f.base [])
    (hd : F.random.randomize (F.random.firstUsable f.draws) HEADER_SIZE = some buf)
    (hv : ivOfBytes buf = v) :
    ∃ f' raw, F.createHeader f = .ok ⟨⟩ f' ∧ R f'.base raw ∧ f'.fileIV = v ∧ v ≠ 0 ∧
      f'.externalIV = f.externalIV ∧ F.Headed f.externalIV v raw [] := by
  have hlen := F.random.randomize_length hd
  have hne : v ≠ 0 := by
    have := F.random.usable_firstUsable f.draws
    rw [hd] at this
    simpa [usableIV, hv] using this
  have hcode := hC.streamEncode_length f.externalIV buf
  obtain ⟨s₁, h₁, hR₁⟩ := hb.isWritable hR
  have hcode_ne : F.cipher.streamEncode f.externalIV buf ≠ [] :=
    List.ne_nil_of_length_pos (by rw [hcode, hlen]; decide)
  obtain ⟨s₂, h₂, hR₂⟩ := hb.write 0 hR₁ hcode_ne
  refine ⟨{ f with base := s₂, fileIV := v, draws := F.random.firstUsable f.draws + 1 }, _, ?_,
    hR₂, rfl, hne, rfl, F.cipher.streamEncode f.externalIV buf, by rw [hcode, hlen], ?_, ?_⟩
  · rw [createHeader, Action.get_bind]
    simp only [hd, hv]
    rw [Action.set_bind, Action.bind_ok (lift_ok (f := { f with fileIV := v, draws := _ }) h₁)]
    exact Action.bind_ok (lift_ok h₂)
  · rw [hC.streamDecode_streamEncode, hv]
  · simp [splice, resize]

lemma initHeader_run {f : CipherFile τ} {raw g : Bytes} (hh : F.haveHeader = true)
    (hR : R f.base raw) (h : F.Stored v f raw g) :
    ∃ f' raw', F.initHeader f = .ok ⟨⟩ f' ∧ R f'.base raw' ∧ F.Ready v f' raw' g ∧
      f'.externalIV = f.externalIV := by
  cases h with
  | plain h' _ _ _ => exact noHeader hh h'
  | fresh _ _ hd hv hr hg =>
    subst hr hg
    obtain ⟨s₁, h₁, hR₁⟩ := hb.getSize hR
    obtain ⟨f', raw', he, hR', hf, hne, hx, hd'⟩ :=
      createHeader_run hb hC (f := { f with base := s₁ }) hR₁ hd hv
    refine ⟨f', raw', ?_, hR', ⟨hf, noHeader hh, fun _ => ⟨hne, by rw [hx]; exact hd'⟩⟩, hx⟩
    rw [initHeader, Action.bind_ok (lift_ok h₁), if_neg (by decide), he]
  | headed _ hv _ hd =>
    obtain ⟨s', he, hR'⟩ := initHeader_read hb.toReadsFlat hR hv hd
    exact ⟨_, raw, he, hR', ⟨rfl, noHeader hh, fun _ => ⟨hv, hd⟩⟩, rfl⟩

lemma needHeader_run {f : CipherFile τ} {raw g : Bytes} (hR : R f.base raw)
    (h : F.Stored v f raw g) :
    ∃ f' raw', F.needHeader f = .ok ⟨⟩ f' ∧ R f'.base raw' ∧ F.Ready v f' raw' g ∧
      f'.externalIV = f.externalIV := by
  rw [needHeader, Action.get_bind]
  by_cases hn : F.haveHeader = true ∧ f.fileIV = 0
  · rw [if_pos hn]
    exact initHeader_run hb hC hn.1 hR h
  · rw [if_neg hn]
    refine ⟨f, raw, rfl, hR, ?_, rfl⟩
    cases h with
    | plain hh hf hz hr =>
      exact ⟨hf.trans hz.symm, fun _ => ⟨hz, hr⟩, fun h' => noHeader h' hh⟩
    | fresh hh hf _ _ _ _ => exact (hn ⟨hh, hf⟩).elim
    | headed hh hv hf hd =>
      exact ⟨hf.resolve_left fun h0 => hn ⟨hh, h0⟩, noHeader hh, fun _ => ⟨hv, hd⟩⟩

lemma writeOneBlock_run {f : CipherFile τ} {raw g d : Bytes} (k : ℕ) (hR : R f.base raw)
    (hs : F.Stored v f raw g) (hd : d ≠ []) :
    ∃ f' raw', F.writeOneBlock (k * F.blockSize) d f = .ok true f' ∧ R f'.base raw' ∧
      f'.externalIV = f.externalIV ∧
      F.Ready v f' raw' (splice 0 g (k * F.blockSize) (F.encodeBlock v k d)) := by
  obtain ⟨f₁, raw₁, h₁, hR₁, hready, hx'⟩ := needHeader_run hb hC hR hs
  obtain ⟨s₂, h₂, hR₂⟩ := hb.write (k * F.blockSize + F.headerSize) hR₁
    (encodeBlock_ne_nil hC (v := v) (k := k) hd)
  refine ⟨{ f₁ with base := s₂ }, _, ?_, hR₂, hx', hready.splice s₂ _ _⟩
  rw [← hready.fileIV] at h₂
  rw [writeOneBlock, Action.bind_ok h₁, Action.get_bind, Nat.mul_div_cancel k F.blockSize_pos,
    if_neg fun h => hd h.2, lift_ok h₂]

lemma codec_implements : F.blockFile.Implements (F.codecModel v) (F.Holds R ext v) where
  toReads := codec_reads hb.toReadsFlat hC
  writeOneBlock := by
    rintro f g k d ⟨hx, raw, hR, hs⟩ hp
    obtain ⟨f', raw', he, hR', hx', hready⟩ := writeOneBlock_run hb hC k hR hs hp.1
    exact ⟨f', he, hx'.trans hx, raw', hR', hready.stored⟩

/-- The raw file is as the object in memory knows it: it has a file IV or the file is empty. -/
structure Owned (F : CipherFileIO τ) (R : τ → Bytes → Prop) (ext v : UInt64) (f : CipherFile τ)
    (g : Bytes) : Prop where
  externalIV : f.externalIV = ext
  stored : ∃ raw, R f.base raw ∧ F.Stored v f raw g ∧ (f.fileIV = v ∨ raw = [])

omit hb hC in
lemma Owned.holds {f : CipherFile τ} {g : Bytes} (h : F.Owned R ext v f g) :
    F.Holds R ext v f g := by
  obtain ⟨hx, raw, hR, hs, -⟩ := h
  exact ⟨hx, raw, hR, hs⟩

lemma codec_implements_owned : F.blockFile.Implements (F.codecModel v) (F.Owned R ext v) where
  getSize := by
    rintro f g ⟨hx, raw, hR, hs, ho⟩
    obtain ⟨s', he, hR'⟩ := getSize_run hb.toReadsFlat hR hs
    exact ⟨_, he, hx, raw, hR', hs.setBase s', ho⟩
  readOneBlock := by
    rintro f g k ⟨hx, raw, hR, hs, ho⟩
    obtain ⟨f', he, hR', hx', hf⟩ := readOneBlock_run hb.toReadsFlat hC k hR hs
    refine ⟨f', he, hx'.trans hx, raw, hR', ?_⟩
    rcases hf with hf | hready
    · rw [hf]
      exact ⟨hs.setBase f'.base, ho⟩
    · exact ⟨hready.stored, .inl hready.fileIV⟩
  writeOneBlock := by
    rintro f g k d ⟨hx, raw, hR, hs, -⟩ hp
    obtain ⟨f', raw', he, hR', hx', hready⟩ := writeOneBlock_run hb hC k hR hs hp.1
    exact ⟨f', he, hx'.trans hx, raw', hR', hready.stored, .inl hready.fileIV⟩

lemma codec_implements_keyed : F.blockFile.Implements (F.codecModel v)
    (fun f g => F.Holds R ext v f g ∧ f.fileIV = v) where
  getSize := by
    rintro f g ⟨⟨hx, raw, hR, hs⟩, hv⟩
    obtain ⟨s', he, hR'⟩ := getSize_run hb.toReadsFlat hR hs
    exact ⟨_, he, ⟨hx, raw, hR', hs.setBase s'⟩, hv⟩
  readOneBlock := by
    rintro f g k ⟨⟨hx, raw, hR, hs⟩, hv⟩
    obtain ⟨f', he, hR', hx', hf⟩ := readOneBlock_run hb.toReadsFlat hC k hR hs
    rcases hf with hf | hready
    · refine ⟨f', he, ⟨hx'.trans hx, raw, hR', ?_⟩, ?_⟩
      · rw [hf]
        exact hs.setBase f'.base
      · rw [hf]
        exact hv
    · exact ⟨f', he, ⟨hx'.trans hx, raw, hR', hready.stored⟩, hready.fileIV⟩
  writeOneBlock := by
    rintro f g k d ⟨⟨hx, raw, hR, hs⟩, -⟩ hp
    obtain ⟨f', raw', he, hR', hx', hready⟩ := writeOneBlock_run hb hC k hR hs hp.1
    exact ⟨f', he, ⟨hx'.trans hx, raw', hR', hready.stored⟩, hready.fileIV⟩

end Writing

def Decodes (F : CipherFileIO τ) (v : UInt64) (Q : CipherFile τ → Bytes → Prop)
    (f : CipherFile τ) (c : Bytes) : Prop :=
  ∃ g, Q f g ∧ c = F.decoded v g

variable {Q : CipherFile τ → Bytes → Prop}

lemma reads_decoded (hC : F.cipher.Lawful F.blockSize)
    (hQ : F.blockFile.Reads (F.codecModel v) Q) :
    F.blockFile.Reads F.blockFile.flatModel (F.Decodes v Q) where
  getSize := by
    rintro f _ ⟨g, h, rfl⟩
    obtain ⟨f', he, h'⟩ := hQ.getSize h
    have hlen : (F.codecModel v).size g = (F.decoded v g).length := (decoded_length hC v g).symm
    exact ⟨f', by rw [hlen] at he; exact he, g, h', rfl⟩
  readOneBlock := by
    rintro f _ k ⟨g, h, rfl⟩
    obtain ⟨f', he, h'⟩ := hQ.readOneBlock k h
    have hblock : (F.codecModel v).block g k =
        slice (F.decoded v g) (k * F.blockSize) F.blockSize := (slice_decoded hC v g k).symm
    exact ⟨f', by rw [hblock] at he; exact he, g, h', rfl⟩

lemma decoded_splice (hC : F.cipher.Lawful F.blockSize) {g d : Bytes} {k : ℕ}
    (hle : d.length ≤ F.blockSize)
    (hw : d.length = F.blockSize ∨ g.length ≤ k * F.blockSize + d.length)
    (hgap : k * F.blockSize ≤ g.length ∨ (F.blockSize ∣ g.length ∧
      ∀ j, g.length ≤ j * F.blockSize →
        F.decodeBlock v j (List.replicate F.blockSize 0) = List.replicate F.blockSize 0))
    (hd : F.decodeBlock v k (F.encodeBlock v k d) = d) :
    F.decoded v (splice 0 g (k * F.blockSize) (F.encodeBlock v k d)) =
      splice 0 (F.decoded v g) (k * F.blockSize) d := by
  have hlen := encodeBlock_length hC v k d
  have := mapBlocks_splice 0 F.blockSize_pos (lengthPreserving_decodeBlock hC v) g
    (F.encodeBlock v k d) k (by omega) (by omega) hgap
  rw [hd] at this
  exact this

lemma blockStore_decoded (hC : F.cipher.Lawful F.blockSize)
    (hQ : F.blockFile.Implements (F.codecModel v) Q)
    (hz : F.allowHoles = true → F.reverseEncryption = false)
    (hd : ∀ k d, d.length ≤ F.blockSize → F.decodeBlock v k (F.encodeBlock v k d) = d) :
    F.blockFile.BlockStore (F.Decodes v Q) where
  toReads := reads_decoded hC hQ.toReads
  writeOneBlock := by
    rintro f _ k d ⟨g, h, rfl⟩ hp
    obtain ⟨hne, hle, hw, hgap⟩ : F.blockFile.Placed (F.decoded v g) k d := hp
    rw [decoded_length hC] at hw hgap
    obtain ⟨f', he, h'⟩ := hQ.writeOneBlock h ⟨hne, hle⟩
    refine ⟨f', he, _, h', ?_⟩
    exact (decoded_splice hC hle hw (hgap.imp_right fun h =>
      ⟨h.2, fun j _ => decodeBlock_hole h.1 (hz h.1) v j⟩) (hd k d hle)).symm

end EncFS.CipherFileIO
