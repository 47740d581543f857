import EncFS.ConfigReader
import Mathlib.Data.Prod.Lex

/-! The comparison operators of interface versions. -/

set_option autoImplicit false

namespace EncFS.Interface

def sign (a b : ℤ) : ℤ :=
  if a < b then 0 else if a = b then 1 else 2

def diffSum (A B : Interface) : ℤ :=
  let cS := sign A.current B.current
  let aS := sign A.age B.age
  let rS := sign A.revision B.revision
  (cS * 3 + aS) * 3 + rS

def EqualVersion : ℤ := (1 * 3 + 1) * 3 + 1

def operatorEq (A B : Interface) : Bool :=
  A.name = B.name && A.current = B.current && A.revision = B.revision && A.age = B.age

def operatorLt (A B : Interface) : Bool :=
  if A.name = B.name then diffSum A B < EqualVersion else A.name < B.name

def operatorGt (A B : Interface) : Bool :=
  if A.name = B.name then EqualVersion < diffSum A B else A.name < B.name

def operatorLe (A B : Interface) : Bool :=
  if A.name = B.name then diffSum A B ≤ EqualVersion else A.name < B.name

def operatorGe (A B : Interface) : Bool :=
  if A.name = B.name then EqualVersion ≤ diffSum A B else A.name < B.name

def key (A : Interface) : Bytes ×ₗ ℤ ×ₗ ℤ ×ₗ ℤ :=
  toLex (A.name, toLex (A.current, toLex (A.age, A.revision)))

structure LessLaws (A B C : Interface) : Prop where
  irrefl : A.operatorLt A = false
  trans : A.operatorLt B = true → B.operatorLt C = true → A.operatorLt C = true
  total : A.operatorLt B = false → B.operatorLt A = false → A.operatorEq B = true
  lessEqual : A.operatorLe B = true ↔ B.operatorLt A = false

structure OrderLaws (A B C : Interface) : Prop extends LessLaws A B C where
  greater : A.operatorGt B = true ↔ B.operatorLt A = true
  greaterEqual : A.operatorGe B = true ↔ A.operatorLt B = false

variable {A B : Interface}

lemma key_injective : Function.Injective key := by
  intro A B h
  simp only [key, EmbeddingLike.apply_eq_iff_eq, Prod.mk.injEq] at h
  obtain ⟨hname, hcurrent, hage, hrevision⟩ := h
  cases A
  cases B
  simp_all

lemma operatorEq_iff : A.operatorEq B = true ↔ A = B := by
  cases A
  cases B
  simp [operatorEq, and_assoc]

lemma sign_spec (a b : ℤ) : 0 ≤ sign a b ∧ sign a b ≤ 2 ∧ (sign a b < 1 ↔ a < b) ∧
    (sign a b = 1 ↔ a = b) := by
  rw [sign]
  split_ifs <;> omega

lemma sign_add (a b : ℤ) : sign a b + sign b a = 2 := by
  rw [sign, sign]
  split_ifs <;> omega

lemma diffSum_lt : diffSum A B < EqualVersion ↔
    A.current < B.current ∨ A.current = B.current ∧
      (A.age < B.age ∨ A.age = B.age ∧ A.revision < B.revision) := by
  obtain ⟨-, -, hcurrent, hcurrent'⟩ := sign_spec A.current B.current
  obtain ⟨hage0, hage2, hage, hage'⟩ := sign_spec A.age B.age
  obtain ⟨hrevision0, hrevision2, hrevision, -⟩ := sign_spec A.revision B.revision
  rw [← hcurrent, ← hcurrent', ← hage, ← hage', ← hrevision, diffSum, EqualVersion]
  omega

lemma diffSum_add : diffSum A B + diffSum B A = 2 * EqualVersion := by
  have hcurrent := sign_add A.current B.current
  have hage := sign_add A.age B.age
  have hrevision := sign_add A.revision B.revision
  rw [diffSum, diffSum, EqualVersion]
  omega

lemma diffSum_gt : EqualVersion < diffSum A B ↔ diffSum B A < EqualVersion := by
  have hadd := diffSum_add (A := A) (B := B)
  omega

lemma key_lt (hname : A.name = B.name) : A.key < B.key ↔ diffSum A B < EqualVersion := by
  rw [diffSum_lt, key, key, hname, Prod.Lex.toLex_lt_toLex, Prod.Lex.toLex_lt_toLex,
    Prod.Lex.toLex_lt_toLex]
  simp

lemma key_lt_of_name (hname : A.name ≠ B.name) : A.key < B.key ↔ A.name < B.name := by
  rw [key, key, Prod.Lex.toLex_lt_toLex]
  simp [hname]

lemma operatorLt_iff : A.operatorLt B = true ↔ A.key < B.key := by
  rw [operatorLt]
  by_cases hname : A.name = B.name
  · rw [if_pos hname, decide_eq_true_eq, key_lt hname]
  · rw [if_neg hname, decide_eq_true_eq, key_lt_of_name hname]

lemma operatorLt_eq_false : A.operatorLt B = false ↔ B.key ≤ A.key := by
  rw [← Bool.not_eq_true, operatorLt_iff]
  exact not_lt

lemma operatorLe_iff : A.operatorLe B = true ↔ B.operatorLt A = false := by
  rw [operatorLe, operatorLt]
  by_cases hname : A.name = B.name
  · rw [if_pos hname, if_pos hname.symm, decide_eq_true_eq, decide_eq_false_iff_not, ← diffSum_gt,
      not_lt]
  · rw [if_neg hname, if_neg (Ne.symm hname), decide_eq_true_eq, decide_eq_false_iff_not]
    exact ⟨fun hlt => lt_asymm hlt, fun hle => lt_of_le_of_ne (not_lt.mp hle) hname⟩

lemma lessLaws (A B C : Interface) : A.LessLaws B C where
  irrefl := operatorLt_eq_false.mpr le_rfl
  trans hAB hBC := operatorLt_iff.mpr (lt_trans (operatorLt_iff.mp hAB) (operatorLt_iff.mp hBC))
  total hAB hBA := by
    have hle := operatorLt_eq_false.mp hAB
    have hge := operatorLt_eq_false.mp hBA
    exact operatorEq_iff.mpr (key_injective (le_antisymm hge hle))
  lessEqual := operatorLe_iff

lemma operatorGt_iff (hname : A.name = B.name) :
    A.operatorGt B = true ↔ B.operatorLt A = true := by
  rw [operatorGt, operatorLt, if_pos hname, if_pos hname.symm, decide_eq_true_eq,
    decide_eq_true_eq, diffSum_gt]

lemma operatorGe_iff (hname : A.name = B.name) :
    A.operatorGe B = true ↔ A.operatorLt B = false := by
  rw [operatorGe, operatorLt, if_pos hname, if_pos hname, decide_eq_true_eq, decide_eq_false_iff_not,
    not_lt]

lemma operatorGt_of_name (hname : A.name ≠ B.name) : A.operatorGt B = A.operatorLt B := by
  rw [operatorGt, operatorLt, if_neg hname, if_neg hname]

/-- All the laws hold just of versions of one name; those of `<` and `<=` hold of all. -/
theorem order_laws (A B C : Interface) : A.LessLaws B C ∧ (A.OrderLaws B C ↔ A.name = B.name) := by
  refine ⟨lessLaws A B C, fun h => ?_, fun hname => ?_⟩
  · by_contra hname
    have hgreater := h.greater
    rw [operatorGt_of_name hname, operatorLt_iff, operatorLt_iff] at hgreater
    have hdiff : A.key ≠ B.key := fun hkey => hname (congrArg name (key_injective hkey))
    rcases lt_or_gt_of_ne hdiff with hlt | hgt
    · exact lt_asymm hlt (hgreater.mp hlt)
    · exact lt_asymm hgt (hgreater.mpr hgt)
  · exact { lessLaws A B C with
            greater := operatorGt_iff hname
            greaterEqual := operatorGe_iff hname }

def blockNames : Interface := ⟨bytes "nameio/block", 3, 0, 1⟩

def streamNames : Interface := ⟨bytes "nameio/stream", 2, 1, 2⟩

theorem not_order_laws : ¬ ∀ A B C : Interface, A.OrderLaws B C := by
  intro h
  have hgreater := (h blockNames streamNames blockNames).greater
  revert hgreater
  decide

end EncFS.Interface
