import EncFS.FlatArray
import Mathlib.Tactic.ByContra

/-! Arrays transformed block by block, where the last block may be short. -/

set_option autoImplicit false

namespace EncFS.FlatArray

variable {α : Type} (z : α) {bs : ℕ}

def LengthPreserving (bs : ℕ) (f : ℕ → List α → List α) : Prop :=
  ∀ k d, d.length ≤ bs → (f k d).length = d.length

def blockCount (bs : ℕ) (g : List α) : ℕ :=
  (g.length + bs - 1) / bs

def mapBlocks (bs : ℕ) (f : ℕ → List α → List α) (g : List α) : List α :=
  (List.range (blockCount bs g)).flatMap fun k => f k (slice g (k * bs) bs)

lemma lt_succ_mul_iff (hbs : 0 < bs) (n k : ℕ) : n < (k + 1) * bs ↔ n / bs ≤ k := by
  rw [← Nat.div_lt_iff_lt_mul hbs, Nat.lt_succ_iff]

lemma mul_lt_iff (hbs : 0 < bs) (k n : ℕ) : k * bs < n ↔ k < n / bs ∨ k = n / bs ∧ n % bs ≠ 0 := by
  have hdiv := Nat.div_add_mod' n bs
  rcases Nat.lt_trichotomy k (n / bs) with hlt | rfl | hgt
  · have hmul := Nat.mul_le_mul_right bs (Nat.succ_le_of_lt hlt)
    rw [Nat.succ_mul] at hmul
    omega
  · omega
  · have hlt := (lt_succ_mul_iff hbs n (n / bs)).mpr (Nat.le_refl _)
    have hle := Nat.mul_le_mul_right bs (Nat.succ_le_of_lt hgt)
    have hpast := Nat.lt_of_lt_of_le hlt hle
    omega

lemma ext_blocks {g h : List α} (hbs : 0 < bs) (hl : g.length = h.length)
    (hb : ∀ k, k * bs < g.length → slice g (k * bs) bs = slice h (k * bs) bs) : g = h := by
  apply List.ext_getElem?
  intro i
  by_cases hi : i < g.length
  · have hdiv := Nat.div_add_mod' i bs
    have hlt := Nat.mod_lt i hbs
    have hk := congrArg (·[i % bs]?) (hb (i / bs) (by omega))
    simpa only [slice_getElem?, if_pos hlt, hdiv] using hk
  · rw [List.getElem?_eq_none (by omega), List.getElem?_eq_none (by omega)]

section MapBlocks

variable {f : ℕ → List α → List α} (hf : LengthPreserving bs f)
include hf

lemma block_length (g : List α) (k : ℕ) :
    (f k (slice g (k * bs) bs)).length = min bs (g.length - k * bs) := by
  rw [hf k _ (by rw [slice_length]; omega), slice_length]

lemma flatMap_range_length (g : List α) (n : ℕ) :
    ((List.range n).flatMap fun k => f k (slice g (k * bs) bs)).length = min (n * bs) g.length := by
  induction n with
  | zero => simp
  | succ n ih =>
    rw [List.range_succ, List.flatMap_append, List.length_append, ih]
    simp only [List.flatMap_cons, List.flatMap_nil, List.append_nil]
    rw [block_length hf, Nat.succ_mul]
    omega

lemma mapBlocks_length (hbs : 0 < bs) (g : List α) : (mapBlocks bs f g).length = g.length := by
  rw [mapBlocks, flatMap_range_length hf]
  have hdiv := Nat.div_add_mod' (g.length + bs - 1) bs
  have hlt := Nat.mod_lt (g.length + bs - 1) hbs
  rw [blockCount]
  omega

lemma apply_nil (k : ℕ) : f k [] = [] :=
  List.length_eq_zero_iff.mp (hf k [] (Nat.zero_le bs))

lemma slice_flatMap_range (g : List α) {n k : ℕ} (hk : k < n) :
    slice ((List.range n).flatMap fun k => f k (slice g (k * bs) bs)) (k * bs) bs =
      f k (slice g (k * bs) bs) := by
  induction n with
  | zero => omega
  | succ n ih =>
    have hlen := flatMap_range_length hf g n
    rw [List.range_succ, List.flatMap_append]
    simp only [List.flatMap_cons, List.flatMap_nil, List.append_nil]
    by_cases hend : n * bs ≤ g.length
    · rw [Nat.min_eq_left hend] at hlen
      rcases Nat.lt_succ_iff_lt_or_eq.mp hk with hlt | rfl
      · have hmul : (k + 1) * bs ≤ n * bs := Nat.mul_le_mul_right bs hlt
        rw [Nat.succ_mul] at hmul
        rw [slice_append_left _ (by omega), ih hlt]
      · have hright := slice_append_right
          ((List.range k).flatMap fun k => f k (slice g (k * bs) bs))
          (f k (slice g (k * bs) bs)) bs
        rw [hlen] at hright
        rw [hright, List.take_of_length_le (by rw [block_length hf]; omega)]
    · have hnil : slice g (n * bs) bs = [] := slice_eq_nil (by omega)
      rw [hnil, apply_nil hf, List.append_nil]
      rcases Nat.lt_succ_iff_lt_or_eq.mp hk with hlt | rfl
      · exact ih hlt
      · rw [hnil, apply_nil hf, slice_eq_nil (by omega)]

lemma slice_mapBlocks (hbs : 0 < bs) (g : List α) (k : ℕ) :
    slice (mapBlocks bs f g) (k * bs) bs = f k (slice g (k * bs) bs) := by
  by_cases hk : k < blockCount bs g
  · exact slice_flatMap_range hf g hk
  · have hmul : blockCount bs g * bs ≤ k * bs := Nat.mul_le_mul_right bs (by omega)
    have hdiv := Nat.div_add_mod' (g.length + bs - 1) bs
    have hlt := Nat.mod_lt (g.length + bs - 1) hbs
    unfold blockCount at hmul
    rw [slice_eq_nil (c := g) (by omega), apply_nil hf,
      slice_eq_nil (by rw [mapBlocks_length hf hbs]; omega)]

lemma eq_mapBlocks (hbs : 0 < bs) {g h : List α} (hl : h.length = g.length)
    (hb : ∀ k, k * bs < g.length → slice h (k * bs) bs = f k (slice g (k * bs) bs)) :
    h = mapBlocks bs f g := by
  refine ext_blocks hbs (by rw [hl, mapBlocks_length hf hbs]) fun k hk => ?_
  rw [hb k (by omega), slice_mapBlocks hf hbs]

lemma mapBlocks_mapBlocks (hbs : 0 < bs) {f' : ℕ → List α → List α}
    (hf' : LengthPreserving bs f') (g : List α)
    (h : ∀ k, f' k (f k (slice g (k * bs) bs)) = slice g (k * bs) bs) :
    mapBlocks bs f' (mapBlocks bs f g) = g := by
  refine (eq_mapBlocks hf' hbs (mapBlocks_length hf hbs g).symm fun k _ => ?_).symm
  rw [slice_mapBlocks hf hbs, h]

end MapBlocks

lemma slice_splice_later (g d : List α) {j k : ℕ} (hjk : j < k) (hd : d.length ≤ bs) :
    slice (splice z g (j * bs) d) (k * bs) bs = slice g (k * bs) bs := by
  have hmul : (j + 1) * bs ≤ k * bs := Nat.mul_le_mul_right bs hjk
  rw [Nat.succ_mul] at hmul
  apply List.ext_getElem?
  intro i
  simp only [slice_getElem?, splice_getElem?]
  grind

lemma slice_splice_earlier (g d : List α) {j k : ℕ} (hkj : k < j) (hg : (k + 1) * bs ≤ g.length) :
    slice (splice z g (j * bs) d) (k * bs) bs = slice g (k * bs) bs := by
  have hmul : (k + 1) * bs ≤ j * bs := Nat.mul_le_mul_right bs hkj
  rw [Nat.succ_mul] at hmul hg
  apply List.ext_getElem?
  intro i
  simp only [slice_getElem?, splice_getElem?, List.getD_eq_getElem?_getD]
  grind

lemma slice_splice_hole (g d : List α) {j k : ℕ} (hkj : k < j) (hg : g.length ≤ k * bs) :
    slice (splice z g (j * bs) d) (k * bs) bs = List.replicate bs z := by
  have hmul : (k + 1) * bs ≤ j * bs := Nat.mul_le_mul_right bs hkj
  rw [Nat.succ_mul] at hmul
  apply List.ext_getElem?
  intro i
  simp only [slice_getElem?, splice_getElem?, List.getD_eq_getElem?_getD, List.getElem?_replicate]
  grind

lemma slice_resize_past (g : List α) {n k : ℕ} (h : g.length ≤ k * bs) :
    slice (resize z g n) (k * bs) bs = List.replicate (min bs (n - k * bs)) z := by
  rw [slice_resize, slice_eq_nil h, resize_nil]

lemma slice_resize_block (g : List α) {n k : ℕ} (h : (k + 1) * bs ≤ g.length)
    (hn : g.length ≤ n) : slice (resize z g n) (k * bs) bs = slice g (k * bs) bs := by
  rw [Nat.succ_mul] at h
  have hlen : (slice g (k * bs) bs).length = min bs (n - k * bs) := by
    rw [slice_length]
    omega
  rw [slice_resize, ← hlen, resize_self]

def putBlocks (bs : ℕ) (e : ℕ → List α) (g : List α) (ks : List ℕ) : List α :=
  ks.foldl (fun g k => splice z g (k * bs) (e k)) g

lemma resize_putBlocks {e : ℕ → List α} {n : ℕ} (g : List α) (ks : List ℕ)
    (he : ∀ k ∈ ks, k * bs + (e k).length ≤ n) :
    resize z (putBlocks z bs e g ks) n = putBlocks z bs e (resize z g n) ks := by
  induction ks generalizing g with
  | nil => rfl
  | cons k ks ih =>
    change resize z (putBlocks z bs e (splice z g (k * bs) (e k)) ks) n =
      putBlocks z bs e (splice z (resize z g n) (k * bs) (e k)) ks
    rw [ih _ fun j hj => he j (List.mem_cons_of_mem k hj),
      resize_splice z g _ (he k List.mem_cons_self)]

lemma putBlocks_length_iff {e : ℕ → List α} {n : ℕ} (g : List α) (ks : List ℕ) (hg : g.length ≤ n)
    (he : ∀ k ∈ ks, k * bs + (e k).length ≤ n) :
    (putBlocks z bs e g ks).length = n ↔ g.length = n ∨ ∃ k ∈ ks, k * bs + (e k).length = n := by
  induction ks generalizing g with
  | nil => simp [putBlocks]
  | cons k ks ih =>
    have hk := he k List.mem_cons_self
    have hlen := splice_length z g (k * bs) (e k)
    change (putBlocks z bs e (splice z g (k * bs) (e k)) ks).length = n ↔ _
    rw [ih _ (by omega) fun j hj => he j (List.mem_cons_of_mem k hj), hlen, List.exists_mem_cons_iff,
      ← or_assoc]
    refine or_congr_left ?_
    omega

lemma slice_splice_block {g d : List α} {k : ℕ} (hk : k * bs < g.length)
    (hd : d.length = min bs (g.length - k * bs)) (j : ℕ) :
    slice (splice z g (k * bs) d) (j * bs) bs = if j = k then d else slice g (j * bs) bs := by
  rcases Nat.lt_trichotomy j k with hj | rfl | hj
  · have hmul : (j + 1) * bs ≤ k * bs := Nat.mul_le_mul_right bs hj
    rw [if_neg (Nat.ne_of_lt hj), slice_splice_earlier z _ _ hj (by omega)]
  · rw [if_pos rfl, slice_splice_same z _ _ _ _ (by omega) (by omega)]
  · rw [if_neg (Nat.ne_of_gt hj), slice_splice_later z _ _ hj (by omega)]

lemma slice_putBlocks {e : ℕ → List α} {n : ℕ} (g : List α) (ks : List ℕ) (hg : g.length = n)
    (he : ∀ k ∈ ks, k * bs < n ∧ (e k).length = min bs (n - k * bs)) :
    (putBlocks z bs e g ks).length = n ∧ ∀ j, slice (putBlocks z bs e g ks) (j * bs) bs =
      if j ∈ ks then e j else slice g (j * bs) bs := by
  induction ks generalizing g with
  | nil => exact ⟨hg, fun j => by simp [putBlocks]⟩
  | cons k ks ih =>
    obtain ⟨hk, hd⟩ := he k List.mem_cons_self
    obtain ⟨hlen, hblock⟩ := ih (splice z g (k * bs) (e k)) (by rw [splice_length]; omega)
      fun j hj => he j (List.mem_cons_of_mem k hj)
    refine ⟨hlen, fun j => (hblock j).trans ?_⟩
    rw [slice_splice_block z (by omega) (by omega)]
    simp only [List.mem_cons]
    grind

lemma mapBlocks_splice (hbs : 0 < bs) {f : ℕ → List α → List α} (hf : LengthPreserving bs f)
    (g d : List α) (k : ℕ) (hd : d.length ≤ bs)
    (hw : d.length = bs ∨ g.length ≤ k * bs + d.length)
    (hgap : k * bs ≤ g.length ∨ (bs ∣ g.length ∧
      ∀ j, g.length ≤ j * bs → f j (List.replicate bs z) = List.replicate bs z)) :
    mapBlocks bs f (splice z g (k * bs) d) = splice z (mapBlocks bs f g) (k * bs) (f k d) := by
  have hl := mapBlocks_length hf hbs g
  have hfd := hf k d hd
  refine (eq_mapBlocks hf hbs (by rw [splice_length, splice_length, hl, hfd]) fun j _ => ?_).symm
  rcases Nat.lt_trichotomy j k with hj | rfl | hj
  · by_cases hin : (j + 1) * bs ≤ g.length
    · rw [slice_splice_earlier z _ _ hj (by omega), slice_splice_earlier z _ _ hj hin,
        slice_mapBlocks hf hbs]
    · have hmul : (j + 1) * bs ≤ k * bs := Nat.mul_le_mul_right bs hj
      obtain ⟨⟨q, hq⟩, hz⟩ := hgap.resolve_left (by omega)
      have hqj : q ≤ j := by
        by_contra hlt
        have := Nat.mul_le_mul_right bs (show j + 1 ≤ q by omega)
        rw [Nat.mul_comm bs q] at hq
        omega
      have hout : g.length ≤ j * bs := by
        have := Nat.mul_le_mul_right bs hqj
        rw [Nat.mul_comm bs q] at hq
        omega
      rw [slice_splice_hole z _ _ hj (by omega), slice_splice_hole z _ _ hj hout, hz j hout]
  · rw [slice_splice_same z _ _ _ _ (by omega) (by omega), slice_splice_same z _ _ _ _ hd hw]
  · rw [slice_splice_later z _ _ hj (by omega), slice_splice_later z _ _ hj hd,
      slice_mapBlocks hf hbs]

lemma slice_take_block (g : List α) {j k : ℕ} (h : j < k) :
    slice (g.take (k * bs)) (j * bs) bs = slice g (j * bs) bs := by
  have hmul : (j + 1) * bs ≤ k * bs := Nat.mul_le_mul_right bs h
  rw [Nat.succ_mul] at hmul
  apply List.ext_getElem?
  intro i
  simp only [slice_getElem?, List.getElem?_take]
  grind

lemma mapBlocks_take (hbs : 0 < bs) {f : ℕ → List α → List α} (hf : LengthPreserving bs f)
    (g : List α) (k : ℕ) :
    mapBlocks bs f (g.take (k * bs)) = (mapBlocks bs f g).take (k * bs) := by
  refine (eq_mapBlocks hf hbs ?_ fun j hj => ?_).symm
  · rw [List.length_take, List.length_take, mapBlocks_length hf hbs]
  · rw [List.length_take] at hj
    have hjk : j < k := Nat.lt_of_mul_lt_mul_right (a := bs) (by omega)
    rw [slice_take_block _ hjk, slice_take_block _ hjk, slice_mapBlocks hf hbs]

end EncFS.FlatArray
