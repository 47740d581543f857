import Mathlib.Data.Int.Notation
import Mathlib.Data.List.Basic
import Mathlib.Tactic.Lemma

/-! Buffers of a fixed size, in which every access is checked. -/

set_option autoImplicit false

namespace EncFS.Buffer

variable {α : Type} {buf d e : List α} {i j n : ℕ} {a : α}

def overwrite (buf : List α) (i : ℕ) (d : List α) : List α :=
  buf.take i ++ d ++ buf.drop (i + d.length)

def readAt (buf : List α) (i : ℕ) : Option α :=
  buf[i]?

def writeAt (buf : List α) (i : ℕ) (a : α) : Option (List α) :=
  if i < buf.length then some (buf.set i a) else none

def readRange (buf : List α) (i n : ℕ) : Option (List α) :=
  if i + n ≤ buf.length then some ((buf.drop i).take n) else none

def writeRange (buf : List α) (i : ℕ) (d : List α) : Option (List α) :=
  if i + d.length ≤ buf.length then some (overwrite buf i d) else none

def updateRange (buf : List α) (i n : ℕ) (f : List α → List α) : Option (List α) := do
  let d ← readRange buf i n
  writeRange buf i (f d)

@[simp] lemma overwrite_length (h : i + d.length ≤ buf.length) :
    (overwrite buf i d).length = buf.length := by
  simp only [overwrite, List.length_append, List.length_take, List.length_drop]
  omega

lemma overwrite_getElem? (hi : i ≤ buf.length) (j : ℕ) :
    (overwrite buf i d)[j]? =
      if j < i then buf[j]? else if j < i + d.length then d[j - i]? else buf[j]? := by
  simp only [overwrite, List.append_assoc, List.getElem?_append, List.length_take,
    List.getElem?_take, List.getElem?_drop]
  grind

lemma overwrite_nil (buf : List α) (i : ℕ) : overwrite buf i [] = buf := by
  rw [overwrite, List.append_nil, List.length_nil, Nat.add_zero, List.take_append_drop]

lemma overwrite_zero (buf d : List α) : overwrite buf 0 d = d ++ buf.drop d.length := by
  rw [overwrite, List.take_zero, List.nil_append, Nat.zero_add]

lemma overwrite_append (h : i + d.length ≤ buf.length) :
    overwrite (overwrite buf i d) (i + d.length) e = overwrite buf i (d ++ e) := by
  apply List.ext_getElem?
  intro j
  rw [overwrite_getElem? (by rw [overwrite_length h]; exact h), overwrite_getElem? (by omega),
    overwrite_getElem? (by omega), List.length_append, List.getElem?_append]
  grind

lemma overwrite_prepend (h : i + d.length + e.length ≤ buf.length) :
    overwrite (overwrite buf (i + d.length) e) i d = overwrite buf i (d ++ e) := by
  apply List.ext_getElem?
  intro j
  rw [overwrite_getElem? (by rw [overwrite_length h]; omega), overwrite_getElem? (by omega),
    overwrite_getElem? (by omega), List.length_append, List.getElem?_append]
  grind

lemma overwrite_again (h : i + d.length ≤ buf.length) (hle : d.length ≤ e.length) :
    overwrite (overwrite buf i d) i e = overwrite buf i e := by
  apply List.ext_getElem?
  intro j
  rw [overwrite_getElem? (by rw [overwrite_length h]; omega), overwrite_getElem? (by omega),
    overwrite_getElem? (by omega)]
  grind

lemma overwrite_length_max (h : i ≤ buf.length) :
    (overwrite buf i d).length = max buf.length (i + d.length) := by
  simp only [overwrite, List.length_append, List.length_take, List.length_drop]
  omega

lemma overwrite_overwrite (hn : n ≤ d.length)
    (hfits : i + max d.length (n + e.length) ≤ buf.length) :
    overwrite (overwrite buf i d) (i + n) e = overwrite buf i (overwrite d n e) := by
  apply List.ext_getElem?
  intro j
  rw [overwrite_getElem? (by rw [overwrite_length (by omega)]; omega), overwrite_getElem? (by omega),
    overwrite_getElem? (by omega), overwrite_getElem? hn,
    overwrite_length_max hn]
  grind

lemma overwrite_read (h : i + d.length ≤ buf.length) :
    ((overwrite buf i d).drop i).take d.length = d := by
  apply List.ext_getElem?
  intro j
  rw [List.getElem?_take, List.getElem?_drop, overwrite_getElem? (by omega)]
  grind

lemma overwrite_drop (h : i + d.length ≤ buf.length) :
    (overwrite buf i d).drop (i + d.length) = buf.drop (i + d.length) := by
  apply List.ext_getElem?
  intro j
  rw [List.getElem?_drop, List.getElem?_drop, overwrite_getElem? (by omega)]
  grind

lemma prefix_overwrite (h : i + d.length ≤ buf.length) : d <+: (overwrite buf i d).drop i :=
  ⟨((overwrite buf i d).drop i).drop d.length, by
    nth_rewrite 1 [← overwrite_read h]
    exact List.take_append_drop _ _⟩

lemma readAt_head (h : a :: d <+: buf.drop i) :
    readAt buf i = some a ∧ d <+: buf.drop (i + 1) ∧ i < buf.length := by
  have hlen := h.length_le
  rw [List.length_cons, List.length_drop] at hlen
  obtain ⟨rest, hrest⟩ := h
  refine ⟨?_, ⟨rest, ?_⟩, by omega⟩
  · have hhead := congrArg (fun l => l[0]?) hrest
    simpa [readAt] using hhead.symm
  · rw [← List.drop_drop, ← hrest]
    rfl

lemma set_eq_overwrite (h : i < buf.length) : buf.set i a = overwrite buf i [a] := by
  rw [List.set_eq_take_append_cons_drop, if_pos h, overwrite]
  simp

lemma writeAt_eq (h : i < buf.length) : writeAt buf i a = some (overwrite buf i [a]) := by
  rw [writeAt, if_pos h, set_eq_overwrite h]

lemma writeRange_eq (h : i + d.length ≤ buf.length) :
    writeRange buf i d = some (overwrite buf i d) :=
  if_pos h

lemma readRange_overwrite (h : i + d.length ≤ buf.length) :
    readRange (overwrite buf i d) i d.length = some d := by
  rw [readRange, overwrite_length h, if_pos h, overwrite_read h]

lemma updateRange_overwrite {f : List α → List α} (h : i + d.length ≤ buf.length)
    (hf : (f d).length = d.length) :
    updateRange (overwrite buf i d) i d.length f = some (overwrite buf i (f d)) := by
  have hrange : i + (f d).length ≤ (overwrite buf i d).length := by
    rw [overwrite_length h, hf]
    exact h
  rw [updateRange, readRange_overwrite h]
  exact (writeRange_eq hrange).trans (congrArg some (overwrite_again h (Nat.le_of_eq hf.symm)))

lemma readAt_append {b : List α} {z : α} (h : i < buf.length) :
    readAt (buf ++ b) i = some (buf.getD i z) := by
  rw [readAt, List.getElem?_append_left h, List.getD_eq_getElem?_getD, List.getElem?_eq_getElem h,
    Option.getD_some]

lemma readRange_append {b : List α} (h : i + n ≤ buf.length) :
    readRange (buf ++ b) i n = some ((buf.drop i).take n) := by
  rw [readRange, if_pos (by rw [List.length_append]; omega), List.drop_append_of_le_length (by omega),
    List.take_append_of_le_length (by rw [List.length_drop]; omega)]

lemma readRange_length (h : readRange buf i n = some d) : i + n ≤ buf.length ∧ d.length = n := by
  rw [readRange] at h
  split at h
  · cases h
    rw [List.length_take, List.length_drop]
    omega
  · cases h

lemma updateRange_eq {f : List α → List α} (h : readRange buf i n = some d)
    (hf : (f d).length = d.length) : updateRange buf i n f = some (overwrite buf i (f d)) := by
  obtain ⟨hroom, hd⟩ := readRange_length h
  rw [updateRange, h]
  exact writeRange_eq (by omega)

lemma readRange_overwrite_take (h : i + d.length ≤ buf.length) (hn : n ≤ d.length) :
    readRange (overwrite buf i d) i n = some (d.take n) := by
  rw [readRange, overwrite_length h, if_pos (by omega)]
  have hread := congrArg (List.take n) (overwrite_read h)
  rw [List.take_take, Nat.min_eq_left hn] at hread
  rw [hread]

lemma readAt_overwrite {z : α} (h : i + d.length ≤ buf.length) (hj : j < d.length) :
    readAt (overwrite buf i d) (i + j) = some (d.getD j z) := by
  rw [readAt, overwrite_getElem? (by omega), if_neg (by omega), if_pos (by omega),
    Nat.add_sub_cancel_left, List.getD_eq_getElem?_getD, List.getElem?_eq_getElem hj, Option.getD_some]

section Neighbours

variable (h : i + d.length + e.length ≤ buf.length)
include h

lemma writeRange_append :
    writeRange (overwrite buf i d) (i + d.length) e = some (overwrite buf i (d ++ e)) := by
  rw [writeRange_eq (by rw [overwrite_length (by omega)]; exact h), overwrite_append (by omega)]

lemma writeRange_prepend :
    writeRange (overwrite buf (i + d.length) e) i d = some (overwrite buf i (d ++ e)) := by
  rw [writeRange_eq (by rw [overwrite_length h]; omega), overwrite_prepend h]

lemma updateRange_append {f : List α → List α} (hf : (f e).length = e.length) :
    updateRange (overwrite buf i (d ++ e)) (i + d.length) e.length f =
      some (overwrite buf i (d ++ f e)) := by
  rw [← overwrite_append (by omega), updateRange_overwrite (by
    rw [overwrite_length (by omega)]; exact h) hf, overwrite_append (by omega)]

lemma updateRange_prepend {f : List α → List α} (hf : (f d).length = d.length) :
    updateRange (overwrite buf i (d ++ e)) i d.length f = some (overwrite buf i (f d ++ e)) := by
  rw [← overwrite_prepend h, updateRange_overwrite (by rw [overwrite_length h]; omega) hf, ← hf,
    overwrite_prepend (by omega)]

end Neighbours

end EncFS.Buffer
