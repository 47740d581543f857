import Mathlib.Data.List.Sort
import Mathlib.Order.Defs.LinearOrder

/-! Ordered maps, as the list of their entries, and their iterators around a key. -/

set_option autoImplicit false

namespace EncFS

structure OrderedMap (κ ν : Type) [LinearOrder κ] where
  entries : List (κ × ν)
  sorted : entries.Pairwise fun x y => x.1 < y.1

namespace OrderedMap

variable {κ ν : Type} [LinearOrder κ]

def empty : OrderedMap κ ν := ⟨[], .nil⟩

variable (m : OrderedMap κ ν)

def below (k : κ) : List (κ × ν) := m.entries.filter (·.1 < k)
def above (k : κ) : List (κ × ν) := m.entries.filter (k < ·.1)
def atLeast (k : κ) : List (κ × ν) := m.entries.filter (k ≤ ·.1)

def lowerBound (k : κ) : Option (κ × ν) := (m.atLeast k).head?

def beforeLowerBound (k : κ) : Option (κ × ν) := (m.below k).getLast?

def last : Option (κ × ν) := m.entries.getLast?

def find (k : κ) : Option ν := (m.entries.find? (·.1 = k)).map Prod.snd

def insert (k : κ) (v : ν) : OrderedMap κ ν where
  entries := m.below k ++ (k, v) :: m.above k
  sorted := by
    apply List.pairwise_append.mpr
    refine ⟨m.sorted.filter _, List.pairwise_cons.mpr ⟨?_, m.sorted.filter _⟩, ?_⟩
    · intro x hx
      simpa using (List.mem_filter.mp hx).2
    · intro x hx y hy
      have hlt : x.1 < k := by simpa using (List.mem_filter.mp hx).2
      rcases List.mem_cons.mp hy with rfl | hy
      · exact hlt
      · have hgt : k < y.1 := by simpa using (List.mem_filter.mp hy).2
        exact hlt.trans hgt

def erase (k : κ) : OrderedMap κ ν where
  entries := m.entries.filter (·.1 ≠ k)
  sorted := m.sorted.filter _

variable {m}

lemma eq_of_key {x y : κ × ν} (hx : x ∈ m.entries) (hy : y ∈ m.entries) (h : x.1 = y.1) : x = y := by
  have hsorted := m.sorted
  generalize m.entries = l at hx hy hsorted
  induction hsorted with
  | nil => cases hx
  | @cons z l hz _ ih =>
    cases hx with
    | head =>
      cases hy with
      | head => rfl
      | tail _ hy => exact absurd h (ne_of_lt (hz y hy))
    | tail _ hx =>
      cases hy with
      | head => exact absurd h.symm (ne_of_lt (hz x hx))
      | tail _ hy => exact ih hx hy

lemma mem_insert {k : κ} {v : ν} {x : κ × ν} :
    x ∈ (m.insert k v).entries ↔ x = (k, v) ∨ x ∈ m.entries ∧ x.1 ≠ k := by
  simp only [insert, below, above, List.mem_append, List.mem_cons, List.mem_filter,
    decide_eq_true_eq, ne_iff_lt_or_gt]
  tauto

lemma mem_erase {k : κ} {x : κ × ν} : x ∈ (m.erase k).entries ↔ x ∈ m.entries ∧ x.1 ≠ k := by
  simp [erase, List.mem_filter]

lemma find_eq_some {k : κ} {v : ν} : m.find k = some v ↔ (k, v) ∈ m.entries := by
  rw [find, Option.map_eq_some_iff]
  constructor
  · rintro ⟨x, hx, rfl⟩
    have hk : x.1 = k := by simpa using List.find?_some hx
    have hmem := List.mem_of_find?_eq_some hx
    rwa [← hk]
  · intro h
    cases hf : m.entries.find? (·.1 = k) with
    | none =>
      have := List.find?_eq_none.mp hf (k, v) h
      simp at this
    | some x =>
      have hk : x.1 = k := by simpa using List.find?_some hf
      have hx := eq_of_key (List.mem_of_find?_eq_some hf) h hk
      exact ⟨x, rfl, by rw [hx]⟩

lemma find_eq_none {k : κ} : m.find k = none ↔ ∀ x ∈ m.entries, x.1 ≠ k := by
  simp [find]

lemma find_insert (m : OrderedMap κ ν) (k k' : κ) (v : ν) :
    (m.insert k v).find k' = if k' = k then some v else m.find k' := by
  apply Option.ext
  intro w
  rw [find_eq_some, mem_insert]
  split_ifs with h
  · simp [h, eq_comm]
  · simp [h, find_eq_some]

lemma entries_insert_of_lt {k : κ} (v : ν) (h : ∀ x ∈ m.entries, x.1 < k) :
    (m.insert k v).entries = m.entries ++ [(k, v)] := by
  have hbelow : m.below k = m.entries :=
    List.filter_eq_self.mpr fun x hx => decide_eq_true (h x hx)
  have habove : m.above k = [] :=
    List.filter_eq_nil_iff.mpr fun x hx => by simpa using (h x hx).le
  change m.below k ++ (k, v) :: m.above k = _
  rw [hbelow, habove]

lemma lowerBound_eq_some {k : κ} {x : κ × ν} (h : m.lowerBound k = some x) :
    x ∈ m.entries ∧ k ≤ x.1 ∧ ∀ y ∈ m.entries, k ≤ y.1 → x.1 ≤ y.1 := by
  have hsorted : (m.atLeast k).Pairwise fun x y => x.1 < y.1 := m.sorted.filter _
  obtain ⟨rest, hrest⟩ := List.head?_eq_some_iff.mp h
  have hx : x ∈ m.atLeast k := by simp [hrest]
  obtain ⟨hmem, hle⟩ := List.mem_filter.mp hx
  refine ⟨hmem, by simpa using hle, fun y hy hky => ?_⟩
  have hy' : y ∈ m.atLeast k := List.mem_filter.mpr ⟨hy, by simpa using hky⟩
  rw [hrest] at hy' hsorted
  rcases List.mem_cons.mp hy' with rfl | hy'
  · exact le_refl _
  · exact le_of_lt ((List.pairwise_cons.mp hsorted).1 y hy')

lemma lowerBound_eq_none {k : κ} (h : m.lowerBound k = none) : ∀ x ∈ m.entries, x.1 < k := by
  intro x hx
  by_contra hle
  have hmem : x ∈ m.atLeast k := List.mem_filter.mpr ⟨hx, by simpa using hle⟩
  rw [List.head?_eq_none_iff.mp h] at hmem
  cases hmem

lemma getLast?_eq_some {l : List (κ × ν)} (hsorted : l.Pairwise fun x y => x.1 < y.1) {x : κ × ν}
    (h : l.getLast? = some x) : x ∈ l ∧ ∀ y ∈ l, y.1 ≤ x.1 := by
  obtain ⟨rest, rfl⟩ := List.getLast?_eq_some_iff.mp h
  refine ⟨by simp, fun y hy => ?_⟩
  rcases List.mem_append.mp hy with hy | hy
  · exact le_of_lt ((List.pairwise_append.mp hsorted).2.2 y hy x (by simp))
  · rw [List.mem_singleton.mp hy]

lemma beforeLowerBound_eq_some {k : κ} {x : κ × ν} (h : m.beforeLowerBound k = some x) :
    x ∈ m.entries ∧ x.1 < k ∧ ∀ y ∈ m.entries, y.1 < k → y.1 ≤ x.1 := by
  obtain ⟨hx, hmax⟩ := getLast?_eq_some (m.sorted.filter _) h
  obtain ⟨hmem, hlt⟩ := List.mem_filter.mp hx
  refine ⟨hmem, by simpa using hlt, fun y hy hky => ?_⟩
  exact hmax y (List.mem_filter.mpr ⟨hy, by simpa using hky⟩)

lemma beforeLowerBound_eq_none {k : κ} (h : m.beforeLowerBound k = none) :
    ∀ x ∈ m.entries, k ≤ x.1 := by
  intro x hx
  by_contra hlt
  have hmem : x ∈ m.below k := List.mem_filter.mpr ⟨hx, by simpa using hlt⟩
  rw [List.getLast?_eq_none_iff.mp h] at hmem
  cases hmem

lemma last_eq_some {x : κ × ν} (h : m.last = some x) : x ∈ m.entries ∧ ∀ y ∈ m.entries, y.1 ≤ x.1 :=
  getLast?_eq_some m.sorted h

lemma last_eq_none (h : m.last = none) : m.entries = [] :=
  List.getLast?_eq_none_iff.mp h

end OrderedMap

end EncFS
