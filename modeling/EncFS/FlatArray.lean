import Mathlib.Data.Int.Notation
import Mathlib.Data.List.Basic
import Mathlib.Tactic.Lemma

/-! Flat arrays as lists: slices, overwriting with a fill value past the end, and resizing. -/

set_option autoImplicit false

namespace EncFS.FlatArray

variable {α : Type} (z : α)

def slice (c : List α) (off len : ℕ) : List α :=
  (c.drop off).take len

def resize (c : List α) (n : ℕ) : List α :=
  c.take n ++ List.replicate (n - c.length) z

def splice (c : List α) (off : ℕ) (d : List α) : List α :=
  resize z c off ++ d ++ c.drop (off + d.length)

@[simp] lemma slice_length (c : List α) (off len : ℕ) :
    (slice c off len).length = min len (c.length - off) := by
  simp [slice]

@[simp] lemma resize_length (c : List α) (n : ℕ) : (resize z c n).length = n := by
  simp [resize]
  omega

@[simp] lemma splice_length (c : List α) (off : ℕ) (d : List α) :
    (splice z c off d).length = max c.length (off + d.length) := by
  simp [splice]
  omega

lemma slice_getElem? (l : List α) (off len i : ℕ) :
    (slice l off len)[i]? = if i < len then l[off + i]? else none := by
  simp only [slice, List.getElem?_take, List.getElem?_drop]

lemma resize_getElem? (c : List α) (n i : ℕ) :
    (resize z c n)[i]? = if i < n then some (c.getD i z) else none := by
  simp only [resize, List.getElem?_append, List.getElem?_take, List.getElem?_replicate,
    List.length_take, List.getD_eq_getElem?_getD]
  grind

lemma splice_getElem? (l : List α) (off : ℕ) (d : List α) (i : ℕ) :
    (splice z l off d)[i]? =
      if i < off then some (l.getD i z) else if i < off + d.length then d[i - off]? else l[i]? := by
  simp only [splice, List.append_assoc, List.getElem?_append, resize_length, resize_getElem?,
    List.getElem?_drop]
  grind

lemma slice_eq_nil {c : List α} {off len : ℕ} (h : c.length ≤ off) : slice c off len = [] := by
  simp [slice, List.drop_eq_nil_of_le h]

lemma slice_slice (c : List α) (a n b m : ℕ) :
    slice (slice c a n) b m = slice c (a + b) (min m (n - b)) := by
  apply List.ext_getElem?
  intro i
  simp only [slice_getElem?]
  grind

lemma slice_append_slice (c : List α) (off a b : ℕ) :
    slice c off a ++ slice c (off + a) b = slice c off (a + b) := by
  apply List.ext_getElem?
  intro i
  simp only [List.getElem?_append, slice_getElem?, slice_length]
  grind

lemma slice_congr {c : List α} {off a b : ℕ}
    (h : min a (c.length - off) = min b (c.length - off)) : slice c off a = slice c off b := by
  apply List.ext_getElem?
  intro i
  simp only [slice_getElem?]
  grind

@[simp] lemma slice_zero (c : List α) (off : ℕ) : slice c off 0 = [] := by
  simp [slice]

@[simp] lemma take_slice (c : List α) (off a b : ℕ) :
    (slice c off a).take b = slice c off (min b a) := by
  simp [slice, List.take_take]

lemma slice_append_left {c : List α} (d : List α) {off n : ℕ} (h : off + n ≤ c.length) :
    slice (c ++ d) off n = slice c off n := by
  apply List.ext_getElem?
  intro i
  simp only [slice_getElem?, List.getElem?_append]
  grind

lemma slice_append_right (c d : List α) (n : ℕ) : slice (c ++ d) c.length n = d.take n := by
  simp [slice]

lemma slice_zero_length (c : List α) : slice c 0 c.length = c := by
  simp [slice]

lemma slice_all {c : List α} {n : ℕ} (h : c.length ≤ n) : slice c 0 n = c := by
  simp [slice, List.take_of_length_le h]

lemma resize_eq_take {c : List α} {n : ℕ} (h : n ≤ c.length) : resize z c n = c.take n := by
  simp [resize, Nat.sub_eq_zero_of_le h]

@[simp] lemma resize_self (c : List α) : resize z c c.length = c := by
  simp [resize]

lemma resize_of_length {c : List α} {n : ℕ} (h : c.length = n) : resize z c n = c :=
  h ▸ resize_self z c

lemma resize_resize (c : List α) {m n : ℕ} (h : n ≤ m ∨ c.length ≤ m) :
    resize z (resize z c m) n = resize z c n := by
  apply List.ext_getElem?
  intro i
  simp only [resize_getElem?, List.getD_eq_getElem?_getD]
  grind

lemma splice_end (c d : List α) : splice z c c.length d = c ++ d := by
  rw [splice, resize_self, List.drop_eq_nil_of_le (Nat.le_add_right _ _), List.append_nil]

lemma splice_append (c : List α) (off : ℕ) (d e : List α) :
    splice z (splice z c off d) (off + d.length) e = splice z c off (d ++ e) := by
  apply List.ext_getElem?
  intro i
  simp only [splice_getElem?, List.getD_eq_getElem?_getD, List.length_append, List.getElem?_append]
  grind

lemma splice_resize (c d : List α) {n off : ℕ} (h : c.length ≤ n) (hn : n ≤ off) :
    splice z (resize z c n) off d = splice z c off d := by
  apply List.ext_getElem?
  intro i
  simp only [splice_getElem?, resize_getElem?, List.getD_eq_getElem?_getD]
  grind

lemma splice_eq_resize (c : List α) {off n : ℕ} (ho : c.length ≤ off) (h : off ≤ n) :
    splice z c off (List.replicate (n - off) z) = resize z c n := by
  apply List.ext_getElem?
  intro i
  simp only [splice_getElem?, resize_getElem?, List.getD_eq_getElem?_getD, List.getElem?_replicate,
    List.length_replicate]
  grind

lemma splice_tail (c : List α) {off n m : ℕ} (hn : c.length ≤ off + n) (hm : c.length ≤ off + m)
    (ho : off ≤ c.length) :
    splice z c off (resize z (slice c off n) m) = resize z c (off + m) := by
  apply List.ext_getElem?
  intro i
  simp only [splice_getElem?, resize_getElem?, List.getD_eq_getElem?_getD, resize_length,
    slice_getElem?]
  grind

lemma splice_merge (c : List α) (off n p : ℕ) (d : List α) (h : p + d.length ≤ n) :
    splice z c off (splice z (slice c off n) p d) = splice z c (off + p) d := by
  apply List.ext_getElem?
  intro i
  simp only [splice_getElem?, List.getD_eq_getElem?_getD, splice_length, slice_length, slice_getElem?]
  grind

lemma slice_splice_same (c : List α) (off n : ℕ) (d : List α) (h : d.length ≤ n)
    (hc : d.length = n ∨ c.length ≤ off + d.length) : slice (splice z c off d) off n = d := by
  apply List.ext_getElem?
  intro i
  simp only [slice_getElem?, splice_getElem?]
  grind

lemma take_splice (c : List α) (off : ℕ) (d : List α) :
    (splice z c off d).take (off + d.length) = resize z c off ++ d := by
  apply List.ext_getElem?
  intro i
  simp only [List.getElem?_take, splice_getElem?, List.getElem?_append, resize_length,
    resize_getElem?, List.getD_eq_getElem?_getD]
  grind

lemma resize_splice (c d : List α) {off n : ℕ} (h : off + d.length ≤ n) :
    resize z (splice z c off d) n = splice z (resize z c n) off d := by
  apply List.ext_getElem?
  intro i
  simp only [splice_getElem?, resize_getElem?, List.getD_eq_getElem?_getD]
  grind

lemma resize_take (c : List α) {m n : ℕ} (h : n ≤ m) : resize z (c.take m) n = resize z c n := by
  apply List.ext_getElem?
  intro i
  simp only [resize_getElem?, List.getD_eq_getElem?_getD, List.getElem?_take]
  grind

lemma slice_take (c : List α) (n off len : ℕ) :
    slice (c.take n) off len = slice c off (min len (n - off)) := by
  apply List.ext_getElem?
  intro i
  simp only [slice_getElem?, List.getElem?_take]
  grind

lemma slice_resize (c : List α) (n off len : ℕ) :
    slice (resize z c n) off len = resize z (slice c off len) (min len (n - off)) := by
  apply List.ext_getElem?
  intro i
  simp only [slice_getElem?, resize_getElem?, List.getD_eq_getElem?_getD]
  grind

lemma resize_replicate (m n : ℕ) : resize z (List.replicate m z) n = List.replicate n z := by
  apply List.ext_getElem?
  intro i
  simp only [resize_getElem?, List.getElem?_replicate, List.getD_eq_getElem?_getD]
  grind

@[simp] lemma resize_nil (n : ℕ) : resize z [] n = List.replicate n z := by
  simp [resize]

end EncFS.FlatArray
