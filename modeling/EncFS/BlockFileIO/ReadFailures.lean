import EncFS.BlockFileIO.Model
import EncFS.CipherFileIO.TruncateLaw

set_option autoImplicit false

namespace EncFS.BlockFileIO

open FlatArray Cached
open BlockFileIO (cacheReadOneBlock)

variable {σ : Type} (B : BlockFileIO σ)

def SingleBlock (offset dataLen : ℕ) : Prop :=
  offset % B.blockSize = 0 ∧ dataLen ≤ B.blockSize

/-- Block `k` is not in the cache and the call to read it returns a negative value. -/
def BlockFails (o : Cached σ) (k : ℕ) : Prop :=
  ¬ (k * B.blockSize = o.cache.offset ∧ o.cache.data ≠ []) ∧
    ∃ s, B.readOneBlock (k * B.blockSize) B.blockSize o.file = .ok none s

inductive WholeBlocks : Cached σ → ℕ → Bytes → Cached σ → Prop
  | nil (o : Cached σ) (k : ℕ) : WholeBlocks o k [] o
  | cons {o o' o'' : Cached σ} {k : ℕ} {block bytes : Bytes}
      (head : B.cacheReadOneBlock (k * B.blockSize) B.blockSize o = .ok (some block) o')
      (whole : block.length = B.blockSize) (tail : WholeBlocks o' (k + 1) bytes o'') :
      WholeBlocks o k (block ++ bytes) o''

/-- The first block that is needed fails and the read returns a failure, or a later one fails and
the read returns the bytes of the blocks before it. -/
structure ErrorsReported (o : Cached σ) (offset dataLen : ℕ) : Prop where
  first : dataLen ≠ 0 ∨ B.SingleBlock offset dataLen → B.BlockFails o (offset / B.blockSize) →
    ∃ o', B.read offset dataLen o = .ok none o'
  later {bytes : Bytes} {o' : Cached σ} : bytes ≠ [] →
    B.WholeBlocks o (offset / B.blockSize) bytes o' →
    bytes.length < offset % B.blockSize + dataLen →
    B.BlockFails o' (offset / B.blockSize + bytes.length / B.blockSize) →
    ∃ o'', B.read offset dataLen o = .ok (some (bytes.drop (offset % B.blockSize))) o''

section

variable {B} {o o' : Cached σ} {k offset dataLen : ℕ} {bytes : Bytes}

lemma BlockFails.cacheReadOneBlock (h : B.BlockFails o k) (n : ℕ) :
    ∃ o', B.cacheReadOneBlock (k * B.blockSize) n o = .ok none o' := by
  obtain ⟨cache, s⟩ := o
  obtain ⟨hmiss, s', hread⟩ := h
  refine ⟨⟨⟨cache.offset, []⟩, s'⟩, ?_⟩
  simp only [cacheReadOneBlock, Action.get_bind, if_neg hmiss]
  rw [Action.bind_ok (clearCache_run cache s), Action.bind_ok (lift_ok hread)]
  rfl

lemma WholeBlocks.length (h : B.WholeBlocks o k bytes o') : B.blockSize ∣ bytes.length := by
  induction h with
  | nil => simp
  | cons _ whole _ ih =>
    rw [List.length_append, whole]
    exact Nat.dvd_add (Nat.dvd_refl _) ih

lemma readLoop_fails (h : B.BlockFails o k) (fuel p size : ℕ) (out : Bytes) :
    ∃ o', B.readLoop fuel k p size out o = .ok out o' := by
  cases fuel with
  | zero => exact ⟨o, rfl⟩
  | succ fuel =>
    by_cases hsize : size = 0
    · refine ⟨o, ?_⟩
      simp [readLoop, hsize]
    · obtain ⟨o', hread⟩ := h.cacheReadOneBlock B.blockSize
      refine ⟨o', ?_⟩
      rw [readLoop, if_neg hsize, Action.bind_ok hread]
      rfl

lemma readLoop_wholeBlocks (h : B.WholeBlocks o k bytes o')
    (hfails : B.BlockFails o' (k + bytes.length / B.blockSize)) {p size : ℕ} (fuel : ℕ)
    (out : Bytes) (hp : p < B.blockSize) (hsize : bytes.length < p + size) (hfuel : size ≤ fuel) :
    ∃ o'', B.readLoop fuel k p size out o = .ok (out ++ bytes.drop p) o'' := by
  induction h generalizing p size fuel out with
  | nil o k =>
    obtain ⟨o'', hloop⟩ := readLoop_fails hfails fuel p size out
    exact ⟨o'', by simpa using hloop⟩
  | @cons o o₁ o' k block bytes head whole tail ih =>
    rw [List.length_append, whole] at hsize hfails
    rw [Nat.add_div_left _ B.blockSize_pos] at hfails
    cases fuel with
    | zero => omega
    | succ fuel =>
      have hcpy : min (block.length - p) size = B.blockSize - p := by omega
      have hslice : slice block p (B.blockSize - p) = block.drop p := by
        rw [slice, List.take_of_length_le]
        simp [whole]
      obtain ⟨o'', hloop⟩ : ∃ o'', B.readLoop fuel (k + 1) 0 (size - (B.blockSize - p))
          (out ++ block.drop p) o₁ = .ok (out ++ block.drop p ++ bytes.drop 0) o'' :=
        ih (by rwa [Nat.add_right_comm, Nat.add_assoc]) fuel _ B.blockSize_pos (by omega) (by omega)
      refine ⟨o'', ?_⟩
      rw [readLoop, if_neg (by omega), Action.bind_ok head]
      simp only [hcpy, hslice]
      rw [if_neg (by omega), if_neg (by omega), hloop, List.drop_append_of_le_length (by omega)]
      simp

lemma read_single (h : B.SingleBlock offset dataLen) :
    B.read offset dataLen o = B.cacheReadOneBlock offset dataLen o := by
  exact congrFun (if_pos h) o

lemma read_loop (h : ¬ B.SingleBlock offset dataLen)
    {out : Bytes} (hloop : B.readLoop dataLen (offset / B.blockSize) (offset % B.blockSize) dataLen
      [] o = .ok out o') :
    B.read offset dataLen o = .ok (some out) o' := by
  exact (congrFun (if_neg h) o).trans (Action.bind_ok hloop)

end

/-- The first block fails only in requests that are handed on as they are, or that read nothing. -/
theorem errors_reported (o : Cached σ) (offset dataLen : ℕ) :
    B.ErrorsReported o offset dataLen ↔
      (B.BlockFails o (offset / B.blockSize) → B.SingleBlock offset dataLen ∨ dataLen = 0) := by
  constructor
  · intro h hfails
    by_contra hother
    obtain ⟨hloop, hne⟩ := not_or.mp hother
    obtain ⟨o', hread⟩ := h.first (.inl hne) hfails
    obtain ⟨o'', hout⟩ := readLoop_fails hfails dataLen (offset % B.blockSize) dataLen []
    rw [read_loop hloop hout] at hread
    cases hread
  · intro h
    constructor
    · intro hneeded hfails
      have hsingle : B.SingleBlock offset dataLen := by
        rcases h hfails with hsingle | hzero
        · exact hsingle
        · exact hneeded.resolve_left (not_not_intro hzero)
      have hoffset : offset / B.blockSize * B.blockSize = offset :=
        Nat.div_mul_cancel (Nat.dvd_of_mod_eq_zero hsingle.1)
      rw [read_single hsingle]
      have hread := hfails.cacheReadOneBlock dataLen
      rwa [hoffset] at hread
    · intro bytes o' hne hwhole hlong hfails
      have hle : B.blockSize ≤ bytes.length :=
        Nat.le_of_dvd (List.length_pos_iff.mpr hne) hwhole.length
      have hp : offset % B.blockSize < B.blockSize := Nat.mod_lt _ B.blockSize_pos
      have hloop : ¬ B.SingleBlock offset dataLen := fun h => by
        have := h.1
        have := h.2
        omega
      obtain ⟨o'', hout⟩ := readLoop_wholeBlocks hwhole hfails dataLen [] hp hlong (Nat.le_refl _)
      exact ⟨o'', read_loop hloop hout⟩

def unreadable : BlockFileIO (CipherFile Bytes) :=
  { CipherFileIO.maskFile false false with
    base := { plainFile with read := fun _ _ => pure none } }.blockFile

theorem not_errors_reported :
    ¬ ∀ (o : Cached (CipherFile Bytes)) (offset dataLen : ℕ),
      unreadable.ErrorsReported o offset dataLen := by
  intro h
  obtain ⟨o', hread⟩ := (h ⟨.empty, ⟨[1, 2, 3], 0, 0, 0, 0⟩⟩ 1 1).first (.inl (by decide))
    ⟨by decide, ⟨[1, 2, 3], 0, 0, 0, 0⟩, rfl⟩
  cases hread

end EncFS.BlockFileIO
