import EncFS.CInt
import EncFS.FileIO

/-! `processContents`: an operation for every block of a file, by the number of the block. -/

set_option autoImplicit false

namespace EncFS.EncfsCtl

open FlatArray

structure Piece where
  data : Bytes
  count : ℤ

structure Processed where
  res : ℤ
  pieces : List Piece

abbrev Failure := {error : ℤ // error < 0}

structure SourceFile where
  content : Bytes
  readError : ℕ → Option Failure

namespace SourceFile

variable (f : SourceFile)

def readBlock (i : ℕ) : Piece :=
  match f.readError i with
  | some error => ⟨[], error⟩
  | none =>
    let data := slice f.content (i * 512 % 4294967296) 512
    ⟨data, data.length⟩

def blocks (size : ℤ) : ℕ := (intOf ((size + 511) / 512)).toNat

def processBlocks (op : ℕ → ℤ) : (left i : ℕ) → Processed
  | 0, _ => ⟨0, []⟩
  | left + 1, i =>
    if op i < 0 then
      ⟨op i, [f.readBlock i]⟩
    else
      let r := processBlocks op left (i + 1)
      ⟨r.res, f.readBlock i :: r.pieces⟩

end SourceFile

structure NodeReplies where
  openNode : ℤ
  directLookup : ℤ

def NodeReplies.Readable (r : NodeReplies) : Prop := 0 ≤ r.openNode ∨ 0 ≤ r.directLookup

def processContents (r : NodeReplies) (f : SourceFile) (size : ℤ) (op : ℕ → ℤ) : Processed :=
  if 0 ≤ r.openNode then
    f.processBlocks op (SourceFile.blocks size) 0
  else if 0 ≤ r.directLookup then
    f.processBlocks op (SourceFile.blocks size) 0
  else
    ⟨r.directLookup, []⟩

namespace SourceFile

variable {f : SourceFile} {op : ℕ → ℤ}

inductive Ends (op : ℕ → ℤ) (left i m : ℕ) : ℤ → Prop
  | all : m = left → (∀ j, i ≤ j → j < i + m → 0 ≤ op j) → Ends op left i m 0
  | failed (n : ℕ) : m = n + 1 → m ≤ left → (∀ j, i ≤ j → j < i + n → 0 ≤ op j) → op (i + n) < 0 →
      Ends op left i m (op (i + n))

lemma Ends.le {left i m : ℕ} {res : ℤ} (h : Ends op left i m res) : m ≤ left := by
  cases h with
  | all hm _ => exact Nat.le_of_eq hm
  | failed n hm hle _ _ => exact hle

lemma Ends.eq_succ {left n m : ℕ} {res : ℤ} (h : Ends op left 0 m res) (hn : n < left)
    (hfail : op n < 0) (hbefore : ∀ j < n, 0 ≤ op j) : m = n + 1 := by
  cases h with
  | all hm hop => exact absurd (hop n (Nat.zero_le _) (by omega)) (Int.not_le.mpr hfail)
  | failed n' hm hle hop hfail' =>
    rw [Nat.zero_add] at hfail'
    obtain hlt | rfl | hgt := Nat.lt_trichotomy n n'
    · exact absurd (hop n (Nat.zero_le _) (by omega)) (Int.not_le.mpr hfail)
    · exact hm
    · exact absurd (hbefore n' hgt) (Int.not_le.mpr hfail')

lemma processBlocks_spec (op : ℕ → ℤ) (left i : ℕ) :
    ∃ m, (f.processBlocks op left i).pieces = (List.range' i m).map f.readBlock ∧
      Ends op left i m (f.processBlocks op left i).res := by
  induction left generalizing i with
  | zero => exact ⟨0, rfl, .all rfl fun j _ _ => by omega⟩
  | succ left ih =>
    rw [processBlocks]
    by_cases hop : op i < 0
    · rw [if_pos hop]
      exact ⟨1, rfl, .failed 0 rfl (by omega) (fun j _ _ => by omega) hop⟩
    · rw [if_neg hop]
      obtain ⟨m, hpieces, hends⟩ := ih (i + 1)
      have hnonneg {n : ℕ} (h : ∀ j, i + 1 ≤ j → j < i + 1 + n → 0 ≤ op j) :
          ∀ j, i ≤ j → j < i + (n + 1) → 0 ≤ op j := by
        intro j hij hj
        by_cases hji : j = i
        · rw [hji]
          exact Int.not_lt.mp hop
        · exact h j (by omega) (by omega)
      refine ⟨m + 1, ?_, ?_⟩
      · dsimp only
        rw [hpieces, List.range'_succ]
        rfl
      · dsimp only
        generalize (f.processBlocks op left (i + 1)).res = res at hends ⊢
        cases hends with
        | all hm h => exact .all (by omega) (hnonneg h)
        | failed n hm hle h hfail =>
          have hindex : i + 1 + n = i + (n + 1) := by omega
          rw [hindex] at hfail ⊢
          exact .failed (n + 1) (by omega) (by omega) (hnonneg h) hfail

def wrapped (content : Bytes) (n : ℕ) : Bytes :=
  ((List.range n).map fun i => slice content (i * 512 % 4294967296) 512).flatten

lemma wrapped_succ (content : Bytes) (n : ℕ) :
    wrapped content (n + 1) = wrapped content n ++ slice content (n * 512 % 4294967296) 512 := by
  simp [wrapped, List.range_succ]

lemma wrapped_small (content : Bytes) {n : ℕ} (h : n ≤ 8388608) :
    wrapped content n = slice content 0 (n * 512) := by
  induction n with
  | zero => simp [wrapped]
  | succ n ih =>
    have hoffset : n * 512 % 4294967296 = 0 + n * 512 := by omega
    have hlen : (n + 1) * 512 = n * 512 + 512 := by omega
    rw [wrapped_succ, ih (by omega), hoffset, slice_append_slice, hlen]

lemma wrapped_length {content : Bytes} (h : 4294967296 < content.length) (n : ℕ) :
    (wrapped content n).length = n * 512 := by
  induction n with
  | zero => simp [wrapped]
  | succ n ih =>
    rw [wrapped_succ, List.length_append, ih, slice_length]
    omega

lemma wrapped_getElem? {content : Bytes} (h : 4294967296 < content.length) (n j : ℕ) :
    (wrapped content n)[j]? = if j < n * 512 then content[j % 4294967296]? else none := by
  induction n with
  | zero => simp [wrapped]
  | succ n ih =>
    rw [wrapped_succ, List.getElem?_append, wrapped_length h, ih, slice_getElem?, Nat.succ_mul]
    by_cases hbefore : j < n * 512
    · have hin : j < n * 512 + 512 := Nat.lt_of_lt_of_le hbefore (Nat.le_add_right _ _)
      simp only [hbefore, hin, if_true]
    · by_cases hin : j < n * 512 + 512
      · have hindex : n * 512 % 4294967296 + (j - n * 512) = j % 4294967296 := by omega
        have hblock : j - n * 512 < 512 := by omega
        simp only [hbefore, hin, hblock, hindex, if_true, if_false]
      · have hblock : ¬j - n * 512 < 512 := by omega
        simp only [hbefore, hin, hblock, if_false]

/-- A file of more than 4 GiB is read from its start again. -/
def Repeats (content : Bytes) : Prop :=
  content.length ≤ 4294967296 ∨ (content.length ≤ 1099511627264 ∧ 512 ∣ content.length ∧
    ∀ j < content.length, content[j]? = content[j % 4294967296]?)

def RepeatsIn (content : Bytes) (n : ℕ) : Prop :=
  content.length ≤ 4294967296 ∨ (n * 512 ≤ content.length ∧
    ∀ j < n * 512, content[j]? = content[j % 4294967296]?)

lemma wrapped_prefix {content : Bytes} {n : ℕ} (hn : n ≤ blocks content.length) :
    wrapped content n <+: content ↔ RepeatsIn content n := by
  have hblocks : blocks content.length ≤ (content.length + 511) / 512 := by
    rw [blocks, intOf]
    omega
  by_cases hsmall : content.length ≤ 4294967296
  · refine iff_of_true ?_ (.inl hsmall)
    rw [wrapped_small content (by omega), slice, List.drop_zero]
    exact List.take_prefix _ _
  · have hbig : 4294967296 < content.length := Nat.lt_of_not_le hsmall
    have hlen := wrapped_length hbig n
    have hat : ∀ j < n * 512, (wrapped content n)[j]? = content[j % 4294967296]? := fun j hj => by
      rw [wrapped_getElem? hbig, if_pos hj]
    rw [RepeatsIn, or_iff_right hsmall]
    constructor
    · intro h
      refine ⟨hlen ▸ h.length_le, fun j hj => ?_⟩
      have hj' : j < (wrapped content n).length := hlen ▸ hj
      rw [← hat j hj, List.getElem?_eq_getElem hj']
      exact List.prefix_iff_getElem?.mp h j hj'
    · rintro ⟨-, hsame⟩
      refine List.prefix_iff_getElem?.mpr fun j hj => ?_
      rw [hsame j (hlen ▸ hj), ← hat j (hlen ▸ hj), List.getElem?_eq_getElem hj]

lemma Repeats.repeatsIn {content : Bytes} {n : ℕ} (h : Repeats content)
    (hn : n ≤ blocks content.length) : RepeatsIn content n := by
  refine h.imp_right fun ⟨hmax, hdvd, hsame⟩ => ?_
  have hblocks : blocks content.length * 512 = content.length := by
    rw [blocks, intOf]
    omega
  have hle : n * 512 ≤ content.length := hblocks ▸ Nat.mul_le_mul_right 512 hn
  exact ⟨hle, fun j hj => hsame j (Nat.lt_of_lt_of_le hj hle)⟩

lemma wrapped_eq_content (content : Bytes) :
    wrapped content (blocks content.length) = content ↔ Repeats content := by
  by_cases hsmall : content.length ≤ 4294967296
  · refine iff_of_true ?_ (.inl hsmall)
    have hblocks : blocks content.length = (content.length + 511) / 512 := by
      rw [blocks, intOf]
      omega
    rw [hblocks, wrapped_small content (by omega)]
    exact slice_all (by omega)
  · have hbig : 4294967296 < content.length := Nat.lt_of_not_le hsmall
    constructor
    · intro h
      have hlen := congrArg List.length h
      rw [wrapped_length hbig] at hlen
      have hblocks : blocks content.length ≤ 2147483647 := by
        rw [blocks, intOf]
        omega
      refine .inr ⟨by omega, ⟨_, by rw [Nat.mul_comm]; exact hlen.symm⟩, fun j hj => ?_⟩
      have hj' := congrArg (·[j]?) h
      simp only [wrapped_getElem? hbig] at hj'
      rw [if_pos (by omega)] at hj'
      exact hj'.symm
    · rintro (h | ⟨hmax, hdvd, hsame⟩)
      · exact absurd h hsmall
      have hblocks : blocks content.length * 512 = content.length := by
        rw [blocks, intOf]
        omega
      apply List.ext_getElem?
      intro j
      rw [wrapped_getElem? hbig, hblocks]
      by_cases hj : j < content.length
      · rw [if_pos hj, ← hsame j hj]
      · rw [if_neg hj, List.getElem?_eq_none (Nat.le_of_not_lt hj)]

end SourceFile

/-- The operation is called on the whole file in order, or on its start up to the block where it
fails. -/
structure WritesOut (f : SourceFile) (op : ℕ → ℤ) (r : Processed) : Prop where
  counts : ∀ p ∈ r.pieces, 0 ≤ p.count
  start : (r.pieces.map Piece.data).flatten <+: f.content
  failed : ∀ i < r.pieces.length, f.readError i ≠ none → r.res < 0
  whole : (∀ i < r.pieces.length, f.readError i = none ∧ 0 ≤ op i) →
    (r.pieces.map Piece.data).flatten = f.content

/-- No read fails, up to the block where the operation does, and what is read up to there is what
its offsets without a limit would give. -/
structure SourceFile.Processable (f : SourceFile) (op : ℕ → ℤ) : Prop where
  reads : ∀ i < SourceFile.blocks f.content.length, (∀ j < i, 0 ≤ op j) → f.readError i = none
  size : (∃ i < SourceFile.blocks f.content.length, op i < 0 ∧ (∀ j < i, 0 ≤ op j) ∧
    SourceFile.RepeatsIn f.content (i + 1)) ∨ SourceFile.Repeats f.content

namespace SourceFile

variable {f : SourceFile} {op : ℕ → ℤ}

lemma readBlock_none {i : ℕ} (h : f.readError i = none) :
    (f.readBlock i).data = slice f.content (i * 512 % 4294967296) 512 ∧ 0 ≤ (f.readBlock i).count := by
  rw [readBlock, h]
  exact ⟨rfl, Int.natCast_nonneg _⟩

lemma readError_of_count {i : ℕ} (h : 0 ≤ (f.readBlock i).count) : f.readError i = none := by
  rw [readBlock] at h
  split at h
  · next error _ => exact absurd h (Int.not_le.mpr error.2)
  · assumption

lemma data_wrapped {n : ℕ} (h : ∀ i < n, f.readError i = none) :
    (((List.range n).map f.readBlock).map Piece.data).flatten = wrapped f.content n := by
  rw [wrapped, List.map_map]
  congr 1
  apply List.map_congr_left
  intro i hi
  exact (readBlock_none (h i (List.mem_range.mp hi))).1

lemma writesOut_iff (f : SourceFile) (op : ℕ → ℤ) :
    WritesOut f op (f.processBlocks op (blocks f.content.length) 0) ↔ f.Processable op := by
  obtain ⟨m, hpieces, hends⟩ := processBlocks_spec (f := f) op (blocks f.content.length) 0
  generalize f.processBlocks op (blocks f.content.length) 0 = r at hpieces hends ⊢
  rw [← List.range_eq_range'] at hpieces
  have hlen : r.pieces.length = m := by rw [hpieces, List.length_map, List.length_range]
  have hcounts : (∀ p ∈ r.pieces, 0 ≤ p.count) ↔ ∀ i < m, f.readError i = none := by
    rw [hpieces, List.forall_mem_map]
    exact ⟨fun h i hi => readError_of_count (h i (List.mem_range.mpr hi)),
      fun h i hi => (readBlock_none (h i (List.mem_range.mp hi))).2⟩
  constructor
  · rintro ⟨hcount, hstart, -, hwhole⟩
    have hread := hcounts.mp hcount
    rw [hlen, hpieces, data_wrapped hread] at hwhole
    rw [hpieces, data_wrapped hread] at hstart
    generalize r.res = res at hends
    cases hends with
    | all hm hop =>
      have hwrapped := hwhole fun i hi => ⟨hread i hi, hop i (by omega) (by omega)⟩
      rw [hm] at hwrapped
      exact ⟨fun i hi _ => hread i (by omega), .inr ((wrapped_eq_content _).mp hwrapped)⟩
    | failed n hm hle hop hfail =>
      rw [Nat.zero_add] at hfail
      rw [hm, wrapped_prefix (hm ▸ hle)] at hstart
      refine ⟨fun i _ hbefore => hread i ?_,
        .inl ⟨n, by omega, hfail, fun j hj => hop j (by omega) (by omega), hstart⟩⟩
      by_contra hi
      exact absurd (hbefore n (by omega)) (Int.not_le.mpr hfail)
  · rintro ⟨hreads, hsize⟩
    have hread : ∀ i < m, f.readError i = none := by
      intro i hi
      generalize r.res = res at hends
      cases hends with
      | all hm hop => exact hreads i (by omega) fun j hj => hop j (by omega) (by omega)
      | failed n hm hle hop _ => exact hreads i (by omega) fun j hj => hop j (by omega) (by omega)
    refine ⟨hcounts.mpr hread, ?_, fun i hi herror => ?_, fun hok => ?_⟩
    · rw [hpieces, data_wrapped hread, wrapped_prefix hends.le]
      obtain ⟨i, hi, hfail, hbefore, hrepeats⟩ | hrepeats := hsize
      · rwa [hends.eq_succ hi hfail hbefore]
      · exact hrepeats.repeatsIn hends.le
    · rw [hlen] at hi
      exact absurd (hread i hi) herror
    · rw [hlen] at hok
      rw [hpieces, data_wrapped hread]
      generalize r.res = res at hends
      cases hends with
      | failed n hm _ _ hfail =>
        rw [Nat.zero_add] at hfail
        exact absurd (hok n (by omega)).2 (Int.not_le.mpr hfail)
      | all hm hop =>
        rw [hm]
        refine (wrapped_eq_content _).mpr (hsize.resolve_left ?_)
        rintro ⟨i, hi, hfail, -⟩
        exact absurd (hop i (by omega) (by omega)) (Int.not_le.mpr hfail)

end SourceFile

lemma processContents_readable {r : NodeReplies} (hr : r.Readable) (f : SourceFile) (size : ℤ)
    (op : ℕ → ℤ) :
    processContents r f size op = f.processBlocks op (SourceFile.blocks size) 0 := by
  rw [processContents]
  split
  · rfl
  · next hnode => exact if_pos (hr.resolve_left hnode)

/-- A file is written out just when no read of it fails, as far as the operation takes it, and its
offsets have 32 bits or do not have to. -/
theorem writes_out {r : NodeReplies} (hr : r.Readable) (f : SourceFile) (op : ℕ → ℤ) :
    WritesOut f op (processContents r f f.content.length op) ↔ f.Processable op := by
  rw [processContents_readable hr]
  exact f.writesOut_iff op

def threeBytes : SourceFile := ⟨[1, 2, 3], fun _ => none⟩

theorem writes_out_threeBytes :
    WritesOut threeBytes (fun _ => 3) (processContents ⟨0, 0⟩ threeBytes 3 fun _ => 3) ↔
      threeBytes.Processable fun _ => 3 :=
  writes_out (.inl (Int.le_refl 0)) threeBytes fun _ => 3

theorem not_writes_out :
    (processContents ⟨0, 0⟩ ⟨[1, 2, 3], fun _ => some ⟨-5, by decide⟩⟩ 3 fun _ => 0).res = 0 ∧
      (processContents ⟨0, 0⟩ ⟨[1, 2, 3], fun _ => some ⟨-5, by decide⟩⟩ 3 fun _ => 0).pieces.map
        Piece.count = [-5] := by
  decide

end EncFS.EncfsCtl
