import EncFS.MACFileIO.Refinement

set_option autoImplicit false

namespace EncFS

open FlatArray
open BlockFileIO (represents_fresh)

lemma Accessors.readAll_congr {σ : Type} {A A' : Accessors σ} (h : A.read = A'.read)
    (offset : ℕ) (ns : List ℕ) : A.readAll offset ns = A'.readAll offset ns := by
  induction ns generalizing offset with
  | nil => rfl
  | cons n ns ih => simp only [Accessors.readAll, h, ih]

namespace BlockFileIO

variable {σ : Type} (B : BlockFileIO σ)

def withSize (size : Action σ ℤ) : BlockFileIO σ :=
  { B with getSize := size }

lemma readLoop_withSize (size : Action σ ℤ) (fuel k p n : ℕ) (out : Bytes) :
    (B.withSize size).readLoop fuel k p n out = B.readLoop fuel k p n out := by
  induction fuel generalizing k p n out with
  | zero => rfl
  | succ fuel ih =>
    simp only [readLoop, ih]
    rfl

lemma read_withSize (size : Action σ ℤ) : (B.withSize size).read = B.read := by
  funext offset n
  simp only [read, readLoop_withSize]
  rfl

end BlockFileIO

namespace MACFileIO

open MACFile

variable {τ : Type} (M : MACFileIO τ)

def readableSize (s : ℕ) : ℕ :=
  s / M.bs * M.dataBlockSize + (s % M.bs - M.headerSize)

def plain (raw : Bytes) : Bytes :=
  (List.range (M.readableSize raw.length)).map fun i =>
    raw.getD (i / M.dataBlockSize * M.bs + M.headerSize + i % M.dataBlockSize) 0

def Unrefused (raw : Bytes) : Prop :=
  ∀ k, M.headerSize < (slice raw (k * M.bs) M.bs).length →
    M.warnOnly = true ∨ M.Accepted (slice raw (k * M.bs) M.bs)

/-- What `getSize` and `getAttr` report for a file of `s` bytes is the number of bytes that reads
from its start return, is not negative and does not exceed what they report for longer files. -/
structure Reports (f : MACFile τ) (s : ℕ) (size : ℤ) : Prop where
  getSize : ∃ f', M.getSize f = .ok size f'
  getAttr : M.getAttr 0 ⟨true, s⟩ = (0, ⟨true, size⟩)
  nonneg : 0 ≤ size
  readable (ns : List ℕ) : size ≤ ns.sum →
    ∃ out o', M.blockFile.accessors.readAll 0 ns ⟨.empty, f⟩ = .ok out o' ∧ (out.length : ℤ) = size
  monotone {t : ℕ} : t ≤ s → (M.getAttr 0 ⟨true, t⟩).2.st_size ≤ size

variable {M}

lemma bs_eq (M : MACFileIO τ) : M.bs = M.dataBlockSize + M.headerSize := rfl

lemma roundUpDivide_eq (s : ℕ) :
    roundUpDivide s M.bs = if s % M.bs = 0 then s / M.bs else s / M.bs + 1 := by
  have hs := Nat.div_add_mod' s M.bs
  split
  case isTrue h =>
    rw [h, Nat.add_zero] at hs
    conv_lhs => rw [← hs]
    exact roundUpDivide_mul M.bs_pos _
  case isFalse h =>
    conv_lhs => rw [← hs]
    exact roundUpDivide_add _ (Nat.pos_of_ne_zero h) (Nat.le_of_lt (Nat.mod_lt _ M.bs_pos))

lemma locWithoutHeader_eq (s : ℕ) :
    locWithoutHeader s M.bs M.headerSize = (s / M.bs * M.dataBlockSize : ℕ) +
      if s % M.bs = 0 then 0 else ((s % M.bs : ℕ) : ℤ) - M.headerSize := by
  have hs := Nat.div_add_mod' s M.bs
  have hmul := Nat.mul_add (s / M.bs) M.dataBlockSize M.headerSize
  rw [← bs_eq] at hmul
  rw [locWithoutHeader, roundUpDivide_eq]
  split
  · omega
  · rw [Nat.succ_mul]
    omega

lemma locWithoutHeader_le (s : ℕ) :
    locWithoutHeader s M.bs M.headerSize ≤ M.readableSize s := by
  rw [locWithoutHeader_eq, readableSize]
  split <;> omega

lemma locWithoutHeader_eq_readableSize (s : ℕ) :
    locWithoutHeader s M.bs M.headerSize = M.readableSize s ↔
      s % M.bs = 0 ∨ M.headerSize ≤ s % M.bs := by
  rw [locWithoutHeader_eq, readableSize]
  split <;> omega

lemma readableSize_mono {s t : ℕ} (h : s ≤ t) : M.readableSize s ≤ M.readableSize t := by
  have hs := Nat.div_add_mod' s M.bs
  have ht := Nat.div_add_mod' t M.bs
  have hlt := Nat.mod_lt s M.bs_pos
  have hbs := M.bs_eq
  rw [readableSize, readableSize]
  rcases Nat.lt_or_eq_of_le (Nat.div_le_div_right (c := M.bs) h) with hq | hq
  · have hmul := Nat.mul_le_mul_right M.dataBlockSize (show s / M.bs + 1 ≤ t / M.bs from hq)
    rw [Nat.succ_mul] at hmul
    omega
  · rw [hq] at hs ⊢
    omega

lemma plain_length (raw : Bytes) : (M.plain raw).length = M.readableSize raw.length := by
  simp [plain]

lemma lt_readableSize {s k i : ℕ} (hi : i < M.dataBlockSize) :
    k * M.dataBlockSize + i < M.readableSize s ↔ k * M.bs + (M.headerSize + i) < s := by
  have hs := Nat.div_add_mod' s M.bs
  have hlt := Nat.mod_lt s M.bs_pos
  have hbs := M.bs_eq
  rw [readableSize]
  rcases Nat.lt_trichotomy k (s / M.bs) with hk | rfl | hk
  · have hd := Nat.mul_le_mul_right M.dataBlockSize (show k + 1 ≤ s / M.bs from hk)
    have hb := Nat.mul_le_mul_right M.bs (show k + 1 ≤ s / M.bs from hk)
    rw [Nat.succ_mul] at hd hb
    omega
  · omega
  · have hd := Nat.mul_le_mul_right M.dataBlockSize (show s / M.bs + 1 ≤ k from hk)
    have hb := Nat.mul_le_mul_right M.bs (show s / M.bs + 1 ≤ k from hk)
    rw [Nat.succ_mul] at hd hb
    omega

lemma slice_plain (raw : Bytes) (k : ℕ) :
    slice (M.plain raw) (k * M.dataBlockSize) M.dataBlockSize =
      (slice raw (k * M.bs) M.bs).drop M.headerSize := by
  apply List.ext_getElem?
  intro i
  rw [slice_getElem?, List.getElem?_drop, slice_getElem?]
  by_cases hi : i < M.dataBlockSize
  · have hdiv : (k * M.dataBlockSize + i) / M.dataBlockSize = k := by
      rw [Nat.add_comm, Nat.add_mul_div_right _ _ M.dataBlockSize_pos, Nat.div_eq_of_lt hi,
        Nat.zero_add]
    have hmod : (k * M.dataBlockSize + i) % M.dataBlockSize = i := by
      rw [Nat.add_comm, Nat.add_mul_mod_self_right, Nat.mod_eq_of_lt hi]
    have hin := lt_readableSize (M := M) (s := raw.length) (k := k) hi
    rw [if_pos hi, if_pos (by rw [bs_eq]; omega), plain, List.getElem?_map]
    by_cases hlt : k * M.bs + (M.headerSize + i) < raw.length
    · rw [List.getElem?_range (hin.mpr hlt), List.getElem?_eq_getElem hlt]
      simp only [Option.map_some, hdiv, hmod, Nat.add_assoc]
      rw [List.getD_eq_getElem?_getD, List.getElem?_eq_getElem hlt, Option.getD_some]
    · rw [List.getElem?_eq_none (by rw [List.length_range]; omega),
        List.getElem?_eq_none (Nat.not_lt.mp hlt)]
      rfl
  · rw [if_neg hi, if_neg (by rw [bs_eq]; omega)]

section Reads

variable {R : τ → Bytes → Prop} (hb : M.base.ReadsFlat R)
include hb

lemma readOneBlock_unrefused {f : MACFile τ} {raw : Bytes} (hR : R f.base raw)
    (hok : M.Unrefused raw) (k : ℕ) :
    ∃ f', M.readOneBlock (k * M.dataBlockSize) M.dataBlockSize f =
      .ok (some (slice (M.plain raw) (k * M.dataBlockSize) M.dataBlockSize)) f' ∧
        R f'.base raw := by
  obtain ⟨s', he, hR'⟩ := hb.read (k * M.bs) M.bs hR
  refine ⟨{ f with base := s' }, ?_, hR'⟩
  have hloc : locWithHeader (k * M.dataBlockSize) M.bs M.headerSize = k * M.bs :=
    locWithHeader_mul M.dataBlockSize_pos k
  rw [readOneBlock, hloc, show M.headerSize + M.dataBlockSize = M.bs from Nat.add_comm _ _,
    Action.bind_ok (lift_ok he), slice_plain]
  simp only [checkBlock]
  by_cases hlt : M.headerSize < (slice raw (k * M.bs) M.bs).length
  · have haccept : ¬ (M.skipBlock (slice raw (k * M.bs) M.bs) = false ∧
        M.macMatches (slice raw (k * M.bs) M.bs) = false ∧ M.warnOnly = false) := by
      rintro ⟨hskip, hmac, hwarn⟩
      rcases hok k hlt with h | h | h
      · simp [hwarn] at h
      · simp [hskip] at h
      · simp [hmac] at h
    rw [if_pos hlt, if_neg haccept]
    rfl
  · rw [if_neg hlt, List.drop_of_length_le (Nat.not_lt.mp hlt)]
    rfl

lemma reads_plain {raw : Bytes} (hok : M.Unrefused raw) :
    (M.blockFile.withSize (pure (M.plain raw).length)).Reads
      (M.blockFile.withSize (pure (M.plain raw).length)).flatModel
      fun f c => R f.base raw ∧ c = M.plain raw where
  getSize {f c} := by
    rintro ⟨hR, rfl⟩
    exact ⟨f, rfl, hR, rfl⟩
  readOneBlock {f c} k := by
    rintro ⟨hR, rfl⟩
    obtain ⟨f', he, hR'⟩ := readOneBlock_unrefused hb hR hok k
    exact ⟨f', he, hR', rfl⟩

open BlockFileIO in
lemma read_plain {f : MACFile τ} {raw : Bytes} (hR : R f.base raw) (hok : M.Unrefused raw)
    (off offset n : ℕ) :
    ∃ o', M.blockFile.accessors.read offset n ⟨⟨off, []⟩, f⟩ =
      .ok (some (slice (M.plain raw) offset n)) o' := by
  obtain ⟨o', he, -⟩ := (readsFlat (reads_plain hb hok)).read offset n
    (s := ⟨⟨off, []⟩, f⟩) (c := M.plain raw) ⟨⟨hR, rfl⟩, BlockFileIO.coherent_nil⟩
  refine ⟨o', ?_⟩
  rw [← he]
  exact congrFun (congrFun (congrFun (read_withSize _ _).symm offset) n) _

open BlockFileIO in
lemma readAll_plain {f : MACFile τ} {raw : Bytes} (hR : R f.base raw) (hok : M.Unrefused raw)
    (ns : List ℕ) (hns : M.readableSize raw.length ≤ ns.sum) :
    ∃ o', M.blockFile.accessors.readAll 0 ns ⟨.empty, f⟩ = .ok (M.plain raw) o' := by
  have hlen : (M.plain raw).length ≤ ns.sum := by rwa [plain_length]
  obtain ⟨o', he⟩ := (readsFlat (reads_plain hb hok)).readAll_content
    (represents_fresh (s := f) (c := M.plain raw) ⟨hR, rfl⟩) hlen
  refine ⟨o', ?_⟩
  rw [← he]
  exact congrFun (Accessors.readAll_congr (read_withSize _ _).symm 0 ns) _

lemma getSize_value {f : MACFile τ} {raw : Bytes} (hR : R f.base raw) :
    ∃ f', M.getSize f = .ok (locWithoutHeader raw.length M.bs M.headerSize) f' := by
  obtain ⟨s', he, -⟩ := hb.getSize hR
  refine ⟨{ f with base := s' }, ?_⟩
  rw [getSize, Action.bind_ok (lift_ok he)]
  split
  · rfl
  · rename_i h0
    have hnil : raw.length = 0 := Nat.eq_zero_of_not_pos fun hpos => h0 (Int.natCast_pos.mpr hpos)
    have hzero : locWithoutHeader raw.length M.bs M.headerSize = raw.length := by
      rw [locWithoutHeader_eq, hnil]
      simp
    rw [hzero]
    rfl

/-- A file is reported with the size that can be read unless it ends inside of a header. -/
theorem size_readable {f : MACFile τ} {raw : Bytes} (hR : R f.base raw) (hok : M.Unrefused raw) :
    (∃ size, M.Reports f raw.length size) ↔
      raw.length % M.bs = 0 ∨ M.headerSize ≤ raw.length % M.bs := by
  have hattr (s : ℕ) : M.getAttr 0 ⟨true, s⟩ =
      (0, ⟨true, locWithoutHeader s M.bs M.headerSize⟩) := by
    simp [getAttr]
  obtain ⟨f', hsize⟩ := getSize_value hb hR
  rw [← locWithoutHeader_eq_readableSize]
  constructor
  · rintro ⟨size, h⟩
    obtain rfl : locWithoutHeader raw.length M.bs M.headerSize = size := by
      have := h.getAttr
      rw [hattr] at this
      injection this with _ hst
      injection hst
    obtain ⟨o', hall⟩ := readAll_plain hb hR hok [M.readableSize raw.length] (by simp)
    obtain ⟨out, o'', hread, hlen⟩ := h.readable [M.readableSize raw.length]
      (by simpa using locWithoutHeader_le raw.length)
    rw [hall] at hread
    cases hread
    rw [← hlen, plain_length]
  · intro heq
    refine ⟨M.readableSize raw.length, ⟨f', by rw [hsize, heq]⟩, by rw [hattr, heq],
      Int.natCast_nonneg _, fun ns hns => ?_, fun {t} ht => ?_⟩
    · obtain ⟨o', hread⟩ := readAll_plain hb hR hok ns (by omega)
      exact ⟨M.plain raw, o', hread, by rw [plain_length]⟩
    · rw [hattr]
      have hle := locWithoutHeader_le (M := M) t
      have hmono := readableSize_mono (M := M) ht
      dsimp only
      omega

end Reads

def forcedFile : MACFileIO Bytes where
  base := plainFile
  cipher := maskCipher
  random := onesSource
  fsBlockSize := 4
  macBytes := 1
  randBytes := 1
  warnOnly := true
  allowHoles := false
  macBytes_le := smallMac_le
  dataBlockSize_gt := smallMac_gt

theorem size_readable_forcedFile :
    (∃ size, forcedFile.Reports ⟨[7, 7, 7, 7, 7, 7, 7], 0⟩ 7 size) ↔
      7 % forcedFile.bs = 0 ∨ forcedFile.headerSize ≤ 7 % forcedFile.bs :=
  size_readable (M := forcedFile) plainFile_flatStore.toReadsFlat rfl fun _ _ => .inl rfl

theorem not_size_readable :
    ¬ ∀ raw : Bytes, forcedFile.Unrefused raw →
      ∃ size, forcedFile.Reports ⟨raw, 0⟩ raw.length size := by
  intro h
  obtain ⟨size, hsize⟩ := h [7] fun _ _ => .inl rfl
  have hattr : forcedFile.getAttr 0 ⟨true, 1⟩ = (0, ⟨true, -1⟩) := by decide
  have hnonneg := hsize.nonneg
  have hsize := hsize.getAttr.symm.trans hattr
  injection hsize with _ hst
  injection hst with _ hst
  omega

end MACFileIO

end EncFS
