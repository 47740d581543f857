import Mathlib.Algebra.Group.Int.Defs
import Mathlib.Data.Int.Notation
import Mathlib.Tactic.Lemma

/-! Numbers that are stored in an `int` of 32 bits. -/

set_option autoImplicit false

namespace EncFS

def intOf (n : ℤ) : ℤ :=
  if n % 4294967296 < 2147483648 then n % 4294967296 else n % 4294967296 - 4294967296

lemma intOf_eq {n : ℤ} (h0 : 0 ≤ n) (h : n < 2 ^ 31) : intOf n = n := by
  rw [intOf]
  omega

lemma intOf_le {n : ℤ} (h : 0 ≤ n) : intOf n ≤ n := by
  rw [intOf]
  omega

end EncFS
