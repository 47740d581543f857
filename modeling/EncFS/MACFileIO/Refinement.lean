import EncFS.CipherFileIO.RawFormat
import EncFS.MACFileIO

set_option autoImplicit false

namespace EncFS

open FlatArray
open BlockFileIO (refinesFlat represents_fresh)
open CipherFileIO (decoded_nil maskFile owned_blockStore)

section Locations

variable {d h : ℕ}

lemma roundUpDivide_mul (hd : 0 < d) (q : ℕ) : roundUpDivide (q * d) d = q := by
  unfold roundUpDivide
  exact Nat.div_eq_of_lt_le (by omega) (by rw [Nat.succ_mul]; omega)

lemma roundUpDivide_add (q : ℕ) {r : ℕ} (hr : 0 < r) (hrd : r ≤ d) :
    roundUpDivide (q * d + r) d = q + 1 := by
  unfold roundUpDivide
  exact Nat.div_eq_of_lt_le (by rw [Nat.succ_mul]; omega) (by rw [Nat.succ_mul, Nat.succ_mul]; omega)

lemma locWithHeader_mul (hd : 0 < d) (q : ℕ) : locWithHeader (q * d) (d + h) h = q * (d + h) := by
  rw [locWithHeader, Nat.add_sub_cancel, roundUpDivide_mul hd, Nat.mul_add]

lemma locWithHeader_add (q : ℕ) {r : ℕ} (hr : 0 < r) (hrd : r ≤ d) :
    locWithHeader (q * d + r) (d + h) h = q * (d + h) + h + r := by
  rw [locWithHeader, Nat.add_sub_cancel, roundUpDivide_add q hr hrd, Nat.mul_add, Nat.succ_mul]
  omega

lemma location_cases (hd : 0 < d) (n : ℕ) :
    n = 0 ∨ ∃ q r, 0 < r ∧ r ≤ d ∧ n = q * d + r := by
  rcases Nat.eq_zero_or_pos n with hn | hn
  · exact .inl hn
  · have hdiv := Nat.div_add_mod' (n - 1) d
    have hlt := Nat.mod_lt (n - 1) hd
    exact .inr ⟨(n - 1) / d, (n - 1) % d + 1, Nat.succ_pos _, hlt, by omega⟩

lemma locWithHeader_zero (hd : 0 < d) : locWithHeader 0 (d + h) h = 0 := by
  have := locWithHeader_mul (h := h) hd 0
  rwa [Nat.zero_mul, Nat.zero_mul] at this

lemma locWithoutHeader_locWithHeader (hd : 0 < d) (n : ℕ) :
    locWithoutHeader (locWithHeader n (d + h) h) (d + h) h = n := by
  rcases location_cases hd n with rfl | ⟨q, r, hr, hrd, rfl⟩
  · rw [locWithHeader_zero hd, locWithoutHeader, roundUpDivide,
      Nat.div_eq_of_lt (by omega), Nat.zero_mul]
    rfl
  · rw [locWithHeader_add q hr hrd, locWithoutHeader, Nat.add_assoc,
      roundUpDivide_add q (by omega) (by omega), Nat.mul_add, Nat.succ_mul]
    omega

lemma locWithHeader_le_mul (hd : 0 < d) {n k : ℕ} (hn : n ≤ k * d) :
    locWithHeader n (d + h) h ≤ k * (d + h) := by
  rcases location_cases hd n with rfl | ⟨q, r, hr, hrd, rfl⟩
  · rw [locWithHeader_zero hd]
    exact Nat.zero_le _
  · have hqk : q < k := Nat.lt_of_mul_lt_mul_right (a := d) (by omega)
    have := Nat.mul_le_mul_right (d + h) (show q + 1 ≤ k from hqk)
    rw [Nat.succ_mul] at this
    rw [locWithHeader_add q hr hrd]
    omega

lemma mul_le_locWithHeader (hd : 0 < d) {n k : ℕ} (hn : k * d ≤ n) :
    k * (d + h) ≤ locWithHeader n (d + h) h := by
  rcases location_cases hd n with rfl | ⟨q, r, hr, hrd, rfl⟩
  · obtain rfl : k = 0 := by
      have := (Nat.mul_eq_zero.mp (Nat.le_zero.mp hn))
      omega
    simp
  · have hkq : k ≤ q + 1 := by
      by_contra hlt
      have := Nat.mul_le_mul_right d (show q + 2 ≤ k by omega)
      rw [Nat.add_mul] at this
      omega
    rw [locWithHeader_add q hr hrd]
    rcases Nat.le_or_eq_of_le_succ hkq with hle | rfl
    · have := Nat.mul_le_mul_right (d + h) hle
      omega
    · rw [Nat.succ_mul] at hn ⊢
      omega

lemma locWithHeader_mono (blockSize headerSize : ℕ) {m n : ℕ} (h : m ≤ n) :
    locWithHeader m blockSize headerSize ≤ locWithHeader n blockSize headerSize := by
  have hdiv := Nat.div_le_div_right (c := blockSize - headerSize)
    (show m + (blockSize - headerSize) - 1 ≤ n + (blockSize - headerSize) - 1 by omega)
  exact Nat.add_le_add h (Nat.mul_le_mul_right _ hdiv)

lemma max_locWithHeader (hd : 0 < d) {n k l : ℕ} (hl : 0 < l) (hld : l ≤ d) :
    max (locWithHeader n (d + h) h) (k * (d + h) + (h + l)) =
      locWithHeader (max n (k * d + l)) (d + h) h := by
  have hend := locWithHeader_add (h := h) k hl hld
  rcases location_cases hd n with rfl | ⟨q, r, hr, hrd, rfl⟩
  · rw [locWithHeader_zero hd, Nat.zero_max, Nat.zero_max, hend]
    omega
  · have hq := locWithHeader_add (h := h) q hr hrd
    rcases Nat.lt_trichotomy q k with hqk | rfl | hkq
    · have h₁ := Nat.mul_le_mul_right d (show q + 1 ≤ k from hqk)
      have h₂ := Nat.mul_le_mul_right (d + h) (show q + 1 ≤ k from hqk)
      rw [Nat.succ_mul] at h₁ h₂
      rw [Nat.max_eq_right (by omega), Nat.max_eq_right (by omega), hend]
      omega
    · rcases Nat.le_total r l with hrl | hrl
      · rw [Nat.max_eq_right (by omega), Nat.max_eq_right (by omega), hend]
        omega
      · rw [Nat.max_eq_left (by omega), Nat.max_eq_left (by omega)]
    · have h₁ := Nat.mul_le_mul_right d (show k + 1 ≤ q from hkq)
      have h₂ := Nat.mul_le_mul_right (d + h) (show k + 1 ≤ q from hkq)
      rw [Nat.succ_mul] at h₁ h₂
      rw [Nat.max_eq_left (by omega), Nat.max_eq_left (by omega)]

end Locations

@[simp] lemma macTag_length (mac : UInt64) (n : ℕ) : (macTag mac n).length = n := by
  simp [macTag]

namespace MACFileIO

open MACFile

variable {τ : Type} (M : MACFileIO τ)

def Accepted (raw : Bytes) : Prop :=
  M.skipBlock raw = true ∨ M.macMatches raw = true

structure Layout (b c : Bytes) : Prop where
  length : b.length = locWithHeader c.length M.bs M.headerSize
  block (k : ℕ) : k * M.dataBlockSize < c.length → ∃ header, header.length = M.headerSize ∧
    slice b (k * M.bs) M.bs = header ++ slice c (k * M.dataBlockSize) M.dataBlockSize ∧
    M.Accepted (header ++ slice c (k * M.dataBlockSize) M.dataBlockSize)

variable {M}

lemma dataBlockSize_pos (M : MACFileIO τ) : 0 < M.dataBlockSize :=
  Nat.lt_trans Nat.zero_lt_one M.dataBlockSize_gt

lemma bs_pos (M : MACFileIO τ) : 0 < M.bs :=
  Nat.lt_of_lt_of_le M.dataBlockSize_pos (Nat.le_add_right _ _)

lemma fsBlockSize_eq (M : MACFileIO τ) : M.fsBlockSize = M.bs := by
  have := M.dataBlockSize_gt
  unfold bs dataBlockSize headerSize
  omega

lemma withHeader_eq (M : MACFileIO τ) {rand : Bytes} (data : Bytes)
    (hr : rand.length = M.randBytes) :
    ∃ header, header.length = M.headerSize ∧ M.withHeader rand data = header ++ data ∧
      M.Accepted (header ++ data) := by
  have htag := macTag_length (M.cipher.mac64 (rand ++ data) none) M.macBytes
  refine ⟨macTag (M.cipher.mac64 (rand ++ data) none) M.macBytes ++ rand, ?_, rfl, .inr ?_⟩
  · rw [List.length_append, htag, hr, headerSize]
  · rw [macMatches, beq_iff_eq, List.append_assoc, List.take_left' htag, List.drop_left' htag]

lemma randomHeader_run (hrand : 0 < M.randBytes → ∀ i, M.random.randomize i M.randBytes ≠ none)
    (f : MACFile τ) :
    ∃ rand f', M.randomHeader f = .ok (some rand) f' ∧ rand.length = M.randBytes ∧
      f'.base = f.base := by
  by_cases hpos : 0 < M.randBytes
  · obtain ⟨rand, hr⟩ := Option.ne_none_iff_exists'.mp (hrand hpos f.draws)
    refine ⟨rand, { f with draws := f.draws + 1 }, ?_, M.random.randomize_length hr, rfl⟩
    rw [randomHeader, if_pos hpos, Action.get_bind, Action.set_bind, hr]
    rfl
  · refine ⟨[], f, ?_, (Nat.eq_zero_of_not_pos hpos).symm, rfl⟩
    rw [randomHeader, if_neg hpos]
    rfl

lemma accepted_hole (M : MACFileIO τ) (hh : M.allowHoles = true) (n : ℕ) :
    M.Accepted (List.replicate n 0) := by
  left
  rw [skipBlock, if_pos hh, List.all_eq_true]
  intro b hb
  rw [List.eq_of_mem_replicate hb]
  rfl

variable {R : τ → Bytes → Prop}

def Holds (M : MACFileIO τ) (R : τ → Bytes → Prop) (f : MACFile τ) (c : Bytes) : Prop :=
  ∃ b, R f.base b ∧ M.Layout b c

lemma Layout.slice_eq_nil {b c : Bytes} (h : M.Layout b c) {k : ℕ}
    (hk : c.length ≤ k * M.dataBlockSize) : slice b (k * M.bs) M.bs = [] := by
  apply FlatArray.slice_eq_nil
  rw [h.length]
  exact locWithHeader_le_mul M.dataBlockSize_pos hk

lemma Layout.splice {b c data header : Bytes} (h : M.Layout b c) {k : ℕ}
    (hp : M.blockFile.Placed c k data) (hl : header.length = M.headerSize)
    (ha : M.Accepted (header ++ data)) :
    M.Layout (splice 0 b (k * M.bs) (header ++ data))
      (splice 0 c (k * M.dataBlockSize) data) := by
  have hd := M.dataBlockSize_pos
  have hpos := List.length_pos_of_ne_nil hp.nonempty
  have hle : data.length ≤ M.dataBlockSize := hp.length_le
  have hwhole : data.length = M.dataBlockSize ∨
      c.length ≤ k * M.dataBlockSize + data.length := hp.whole_or_last
  have hgap : k * M.dataBlockSize ≤ c.length ∨
      (M.allowHoles = true ∧ M.dataBlockSize ∣ c.length) := hp.no_gap
  have hmax := max_locWithHeader (h := M.headerSize) hd (n := c.length) (k := k) hpos hle
  have hlen : (header ++ data).length = M.headerSize + data.length := by
    rw [List.length_append, hl]
  have hbs : M.bs = M.dataBlockSize + M.headerSize := rfl
  constructor
  · rw [splice_length, splice_length, hlen, h.length]
    exact hmax
  intro j hj
  rcases Nat.lt_trichotomy j k with hjk | rfl | hkj
  · by_cases hin : (j + 1) * M.dataBlockSize ≤ c.length
    · have hin' : (j + 1) * M.bs ≤ b.length := by
        rw [h.length]
        exact mul_le_locWithHeader hd hin
      rw [slice_splice_earlier 0 _ _ hjk hin, slice_splice_earlier 0 _ _ hjk hin']
      exact h.block j (by rw [Nat.succ_mul] at hin; omega)
    · have hmul := Nat.mul_le_mul_right M.dataBlockSize (show j + 1 ≤ k from hjk)
      obtain ⟨hh, q, hq⟩ := hgap.resolve_left (by omega)
      have hout : c.length ≤ j * M.dataBlockSize := by
        rw [Nat.mul_comm] at hq
        rw [hq] at hin ⊢
        by_contra hlt
        have := Nat.lt_of_mul_lt_mul_right (a := M.dataBlockSize) (Nat.not_le.mp hlt)
        exact hin (Nat.mul_le_mul_right _ this)
      have hout' : b.length ≤ j * M.bs := by
        rw [h.length]
        exact locWithHeader_le_mul hd hout
      refine ⟨List.replicate M.headerSize 0, List.length_replicate, ?_, ?_⟩
      · rw [slice_splice_hole 0 _ _ hjk hout, slice_splice_hole 0 _ _ hjk hout',
          ← List.replicate_add, hbs, Nat.add_comm]
      · rw [slice_splice_hole 0 _ _ hjk hout, ← List.replicate_add]
        exact accepted_hole M hh _
  · have hfull : (header ++ data).length = M.bs ∨ b.length ≤ j * M.bs + (header ++ data).length := by
      rw [hlen]
      refine hwhole.imp (by omega) fun hlast => ?_
      rw [Nat.max_eq_right hlast, locWithHeader_add j hpos hle] at hmax
      rw [h.length]
      change locWithHeader c.length (M.dataBlockSize + M.headerSize) M.headerSize ≤
        j * (M.dataBlockSize + M.headerSize) + (M.headerSize + data.length)
      omega
    refine ⟨header, hl, ?_, ?_⟩
    · rw [slice_splice_same 0 _ _ _ _ (by omega) hfull, slice_splice_same 0 _ _ _ _ hle hwhole]
    · rw [slice_splice_same 0 _ _ _ _ hle hwhole]
      exact ha
  · rw [slice_splice_later 0 _ _ hkj hle, slice_splice_later 0 _ _ hkj (by omega)]
    refine h.block j ?_
    rw [splice_length] at hj
    have := Nat.mul_le_mul_right M.dataBlockSize (show k + 1 ≤ j from hkj)
    rw [Nat.succ_mul] at this
    omega

section Operations

variable (hb : M.base.RefinesFlat R)
include hb

lemma getSize_run {f : MACFile τ} {c : Bytes} (h : M.Holds R f c) :
    ∃ f', M.getSize f = .ok (c.length : ℤ) f' ∧ M.Holds R f' c := by
  obtain ⟨b, hR, hl⟩ := h
  obtain ⟨s', he, hR'⟩ := hb.getSize hR
  refine ⟨{ f with base := s' }, ?_, b, hR', hl⟩
  have hback := locWithoutHeader_locWithHeader (h := M.headerSize) M.dataBlockSize_pos c.length
  rw [← bs, ← hl.length] at hback
  rw [getSize, Action.bind_ok (lift_ok he), Int.toNat_natCast]
  split
  · rw [hback]
    rfl
  · rename_i h0
    have hzero : b.length = 0 := Nat.eq_zero_of_not_pos fun hpos => h0 (Int.natCast_pos.mpr hpos)
    rw [hzero, locWithoutHeader, roundUpDivide, Nat.zero_add,
      Nat.div_eq_of_lt (by have := M.bs_pos; omega), Nat.zero_mul] at hback
    rw [hzero, ← hback]
    rfl

lemma readOneBlock_run {f : MACFile τ} {c : Bytes} (k : ℕ) (h : M.Holds R f c) :
    ∃ f', M.readOneBlock (k * M.dataBlockSize) M.dataBlockSize f =
      .ok (some (slice c (k * M.dataBlockSize) M.dataBlockSize)) f' ∧ M.Holds R f' c := by
  obtain ⟨b, hR, hl⟩ := h
  obtain ⟨s', he, hR'⟩ := hb.read (k * M.bs) M.bs hR
  refine ⟨{ f with base := s' }, ?_, b, hR', hl⟩
  have hloc : locWithHeader (k * M.dataBlockSize) M.bs M.headerSize = k * M.bs :=
    locWithHeader_mul M.dataBlockSize_pos k
  rw [readOneBlock, hloc, show M.headerSize + M.dataBlockSize = M.bs from Nat.add_comm _ _,
    Action.bind_ok (lift_ok he)]
  by_cases hk : k * M.dataBlockSize < c.length
  · obtain ⟨header, hlen, hblock, ha⟩ := hl.block k hk
    have hpos : 0 < (slice c (k * M.dataBlockSize) M.dataBlockSize).length := by
      rw [slice_length]
      have := M.dataBlockSize_pos
      omega
    rw [hblock]
    have hlt : M.headerSize <
        (header ++ slice c (k * M.dataBlockSize) M.dataBlockSize).length := by
      rw [List.length_append]
      omega
    have hok : ¬(M.skipBlock (header ++ slice c (k * M.dataBlockSize) M.dataBlockSize) = false ∧
        M.macMatches (header ++ slice c (k * M.dataBlockSize) M.dataBlockSize) = false ∧
        M.warnOnly = false) := by
      rintro ⟨h₁, h₂, -⟩
      rcases ha with ha | ha
      · rw [ha] at h₁
        cases h₁
      · rw [ha] at h₂
        cases h₂
    simp only [checkBlock, if_pos hlt]
    rw [if_neg hok, List.drop_left' hlen]
    rfl
  · rw [hl.slice_eq_nil (Nat.not_lt.mp hk), slice_eq_nil (Nat.not_lt.mp hk)]
    rfl

lemma writeOneBlock_stores
    (hrand : 0 < M.randBytes → ∀ i, M.random.randomize i M.randBytes ≠ none) {f : MACFile τ}
    {b data : Bytes} (hR : R f.base b) (k : ℕ) (hne : data ≠ []) :
    ∃ header f', header.length = M.headerSize ∧ M.Accepted (header ++ data) ∧
      M.writeOneBlock (k * M.dataBlockSize) data f = .ok true f' ∧
      R f'.base (splice 0 b (k * M.bs) (header ++ data)) := by
  have hloc : locWithHeader (k * M.dataBlockSize) M.bs M.headerSize = k * M.bs :=
    locWithHeader_mul M.dataBlockSize_pos k
  obtain ⟨rand, f₁, h₁, hlen, hbase⟩ := randomHeader_run hrand f
  obtain ⟨header, hheader, heq, ha⟩ := withHeader_eq M data hlen
  rw [← hbase] at hR
  have hstored : M.withHeader rand data ≠ [] := by
    rw [heq]
    exact List.append_ne_nil_of_right_ne_nil _ hne
  obtain ⟨s', he, hR'⟩ := hb.write (k * M.bs) hR hstored
  rw [heq] at hR'
  refine ⟨header, { f₁ with base := s' }, hheader, ha, ?_, hR'⟩
  rw [writeOneBlock, hloc, Action.bind_ok h₁]
  dsimp only
  rw [if_neg (M.not_checksNothing rand hne)]
  exact lift_ok he

lemma writeOneBlock_run (hrand : 0 < M.randBytes → ∀ i, M.random.randomize i M.randBytes ≠ none)
    {f : MACFile τ} {c data : Bytes} {k : ℕ} (h : M.Holds R f c) (hp : M.blockFile.Placed c k data) :
    ∃ f', M.writeOneBlock (k * M.dataBlockSize) data f = .ok true f' ∧
      M.Holds R f' (splice 0 c (k * M.dataBlockSize) data) := by
  obtain ⟨b, hR, hl⟩ := h
  obtain ⟨header, f', hheader, ha, he, hR'⟩ := writeOneBlock_stores hb hrand hR k hp.nonempty
  exact ⟨f', he, _, hR', hl.splice hp hheader ha⟩

lemma blockFile_blockStore
    (hrand : 0 < M.randBytes → ∀ i, M.random.randomize i M.randBytes ≠ none) :
    M.blockFile.BlockStore (M.Holds R) where
  getSize h := getSize_run hb h
  readOneBlock k h := readOneBlock_run hb k h
  writeOneBlock h hp := writeOneBlock_run hb hrand h hp

end Operations

/-- Any run of requests on the two layers answers as a flat array does, and every data block is kept
behind its header in one block of the layer below. -/
theorem stack_run_eq_flat_run {σ : Type} {S : σ → Bytes → Prop} {M : MACFileIO (Cached σ)}
    {B : BlockFileIO σ} (hB : B.BlockStore S) (hbase : M.base.toAccessors = B.accessors)
    (hbs : M.fsBlockSize = B.blockSize)
    (hrand : 0 < M.randBytes → ∀ i, M.random.randomize i M.randBytes ≠ none) {s : σ}
    {b c : Bytes} (hs : S s b) (hl : M.Layout b c) (draws : ℕ) (qs : List Request)
    (hq : ∀ q ∈ qs, q.Valid) :
    ∃ o', M.blockFile.accessors.run qs ⟨.empty, ⟨⟨.empty, s⟩, draws⟩⟩ =
        .ok (FlatFile.run c qs).1 o' ∧
      (∃ o'', M.blockFile.accessors.getSize o' = .ok (FlatFile.run c qs).2.length o'') ∧
      ∃ b', B.Represents S o'.file.base b' ∧
        b'.length = locWithHeader (FlatFile.run c qs).2.length B.blockSize M.headerSize ∧
        ∀ k, k * M.dataBlockSize < (FlatFile.run c qs).2.length →
          ∃ header, header.length = M.headerSize ∧
            slice b' (k * B.blockSize) B.blockSize =
              header ++ slice (FlatFile.run c qs).2 (k * M.dataBlockSize) M.dataBlockSize := by
  have hflat : M.base.RefinesFlat (B.Represents S) := by
    rw [hbase]
    exact BlockFileIO.refinesFlat hB
  have hstore := blockFile_blockStore hflat hrand
  have hsize : B.blockSize = M.bs := by rw [← hbs, fsBlockSize_eq]
  have hinit : M.Holds (B.Represents S) ⟨⟨.empty, s⟩, draws⟩ c :=
    ⟨b, BlockFileIO.represents_fresh hs, hl⟩
  obtain ⟨o', he, hr⟩ :=
    (refinesFlat hstore).run (represents_fresh hinit) qs hq
  obtain ⟨o'', he', -⟩ := (refinesFlat hstore).getSize hr
  obtain ⟨b', hb', hl'⟩ := hr.stored
  refine ⟨o', he, ⟨o'', he'⟩, b', hb', by rw [hsize]; exact hl'.length, fun k hk => ?_⟩
  obtain ⟨header, hlen, hblock, -⟩ := hl'.block k hk
  exact ⟨header, hlen, by rw [hsize]; exact hblock⟩

lemma smallMac_le : 1 ≤ 8 := by
  decide

lemma smallMac_gt : 1 < 4 - 1 - 1 := by
  decide

def maskStack (allowHoles : Bool) : MACFileIO (Cached (CipherFile Bytes)) where
  base := CipherFileIO.fileIO (maskFile true false)
  cipher := maskCipher
  random := onesSource
  fsBlockSize := 4
  macBytes := 1
  randBytes := 1
  warnOnly := false
  allowHoles := allowHoles
  macBytes_le := smallMac_le
  dataBlockSize_gt := smallMac_gt

lemma maskFile_empty :
    (maskFile true false).Decodes (ivOfBytes (List.replicate 8 1))
      ((maskFile true false).Owned (fun s c => s = c) 9
        (ivOfBytes (List.replicate 8 1))) ⟨[], 9, 0, 0, 0⟩ [] :=
  ⟨[], ⟨rfl, [], rfl, .fresh rfl rfl rfl rfl rfl rfl, .inr rfl⟩,
    (decoded_nil (maskCipher_lawful 4) _).symm⟩

lemma maskStack_empty : (maskStack true).Layout [] [] :=
  ⟨rfl, fun _ hk => absurd hk (Nat.not_lt_zero _)⟩

theorem stack_run_eq_flat_run_maskStack :
    ∃ o', (maskStack true).blockFile.accessors.run [.write 5 [7], .read 1 9, .write 1 [3, 4]]
        ⟨.empty, ⟨⟨.empty, ⟨[], 9, 0, 0, 0⟩⟩, 0⟩⟩ =
        .ok [.done true, .bytes (some [0, 0, 0, 0, 7]), .done true] o' ∧
      (∃ o'', (maskStack true).blockFile.accessors.getSize o' = .ok 6 o'') ∧
      ∃ b', (maskFile true false).blockFile.Represents
          ((maskFile true false).Decodes (ivOfBytes (List.replicate 8 1))
            ((maskFile true false).Owned (fun s c => s = c) 9
              (ivOfBytes (List.replicate 8 1)))) o'.file.base b' ∧
        b'.length = locWithHeader 6 4 2 ∧
        ∀ k, k * 2 < 6 → ∃ header : Bytes, header.length = 2 ∧
          slice b' (k * 4) 4 = header ++ slice [0, 3, 4, 0, 0, 7] (k * 2) 2 :=
  stack_run_eq_flat_run (M := maskStack true) (B := (maskFile true false).blockFile)
    (owned_blockStore plainFile_flatStore (maskCipher_lawful 4) rfl) rfl rfl
    (fun _ _ h => by cases h) maskFile_empty maskStack_empty 0
    [.write 5 [7], .read 1 9, .write 1 [3, 4]] (by simp [Request.Valid])

end MACFileIO

end EncFS
