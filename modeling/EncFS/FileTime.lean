import Mathlib.Algebra.Group.Int.Defs
import Mathlib.Algebra.Group.Nat.Defs
import Mathlib.Data.Int.Notation
import Mathlib.Data.Nat.Notation
import Mathlib.Tactic.Lemma

set_option autoImplicit false

namespace EncFS

structure FILETIME where
  dwLowDateTime : UInt32
  dwHighDateTime : UInt32
  deriving DecidableEq, Repr

def Int32x32To64 (a b : Int64) : Int64 :=
  a.toInt32.toInt64 * b.toInt32.toInt64

def filetimeOf (ll : Int64) : FILETIME where
  dwLowDateTime := ll.toUInt64.toUInt32
  dwHighDateTime := (ll >>> 32).toUInt64.toUInt32

def unixTimeToFiletime (t : Int64) : FILETIME :=
  let ll := Int32x32To64 t 10000000 + 116444736000000000
  filetimeOf ll

structure Timeval where
  tv_sec : Int32
  tv_usec : Int32

def timevalToFiletime (t : Timeval) : FILETIME :=
  let ll := Int32x32To64 t.tv_sec.toInt64 10000000 + 116444736000000000 +
    (10 * t.tv_usec.toUInt32).toUInt64.toInt64
  filetimeOf ll

def isFiletimeSet : Option FILETIME → Bool
  | none => false
  | some ft => !(ft.dwHighDateTime == 0 && ft.dwLowDateTime == 0)

def filetimeToUnixTime (ft : Option FILETIME) : Int64 :=
  match ft with
  | none => 0
  | some ft =>
    if isFiletimeSet (some ft) then
      let ll := (ft.dwHighDateTime.toUInt64 <<< 32) + ft.dwLowDateTime.toUInt64
      ((ll - 116444736000000000) / 10000000).toInt64
    else
      0

namespace FILETIME

def value (ft : FILETIME) : ℤ :=
  ft.dwHighDateTime.toNat * 2 ^ 32 + ft.dwLowDateTime.toNat

def unixSeconds (ft : FILETIME) : ℤ :=
  (ft.value - 116444736000000000) / 10000000

end FILETIME

section Conversion

lemma toUInt32_shiftRight (ll : Int64) :
    (ll >>> 32).toUInt64.toUInt32 = (ll.toUInt64 >>> 32).toUInt32 := by
  apply UInt32.toBitVec_inj.mp
  ext i hi
  have hlt : 32 + i < 64 := by omega
  simp [BitVec.getLsbD_sshiftRight, hlt]
  omega

lemma toNat_eq_toInt {w : ℕ} {x : BitVec w} (h : 0 ≤ x.toInt) : (x.toNat : ℤ) = x.toInt := by
  have hcond := BitVec.toInt_eq_toNat_cond x
  have hlt := x.isLt
  split at hcond
  · exact hcond.symm
  · omega

lemma toInt_toInt64 {x : UInt64} (h : x.toNat < 2 ^ 63) : x.toInt64.toInt = x.toNat := by
  have hcond := BitVec.toInt_eq_toNat_cond x.toBitVec
  rw [if_pos (by change 2 * x.toNat < 2 ^ 64; omega)] at hcond
  exact hcond

lemma filetimeOf_value {ll : Int64} (h : 0 ≤ ll.toInt) : (filetimeOf ll).value = ll.toInt := by
  have hvalue : (ll.toUInt64.toNat : ℤ) = ll.toInt := toNat_eq_toInt h
  have hlt := ll.toUInt64.toNat_lt
  rw [← hvalue, FILETIME.value, filetimeOf, toUInt32_shiftRight]
  simp only [UInt64.toNat_toUInt32, UInt64.toNat_shiftRight, UInt64.reduceToNat, Nat.reduceMod,
    Nat.shiftRight_eq_div_pow, Nat.reducePow]
  omega

lemma long_bounds (t : Int64) :
    -2147483648 ≤ t.toInt.bmod (2 ^ 32) ∧ t.toInt.bmod (2 ^ 32) < 2147483648 := by
  rw [← Int64.toInt_toInt32]
  exact ⟨Int32.le_toInt t.toInt32, Int32.toInt_lt t.toInt32⟩

lemma Int32x32To64_toInt (t : Int64) :
    (Int32x32To64 t 10000000).toInt = t.toInt.bmod (2 ^ 32) * 10000000 := by
  obtain ⟨hlong, hlong'⟩ := long_bounds t
  have hfactor : (10000000 : Int64).toInt.bmod (2 ^ 32) = 10000000 := by decide
  rw [Int32x32To64, Int64.toInt_mul, Int32.toInt_toInt64, Int32.toInt_toInt64, Int64.toInt_toInt32,
    Int64.toInt_toInt32, hfactor]
  exact Int.bmod_eq_of_le (by omega) (by omega)

lemma unixTimeToFiletime_value (t : Int64) :
    (unixTimeToFiletime t).value = t.toInt.bmod (2 ^ 32) * 10000000 + 116444736000000000 := by
  obtain ⟨hlong, hlong'⟩ := long_bounds t
  have hll : (Int32x32To64 t 10000000 + 116444736000000000).toInt =
      t.toInt.bmod (2 ^ 32) * 10000000 + 116444736000000000 := by
    have hepoch : (116444736000000000 : Int64).toInt = 116444736000000000 := by decide
    rw [Int64.toInt_add, Int32x32To64_toInt, hepoch]
    exact Int.bmod_eq_of_le (by omega) (by omega)
  rw [unixTimeToFiletime, filetimeOf_value (by omega), hll]

lemma isFiletimeSet_iff {ft : FILETIME} : isFiletimeSet (some ft) = true ↔ ft.value ≠ 0 := by
  have hzero : ft.value = 0 ↔ ft.dwHighDateTime = 0 ∧ ft.dwLowDateTime = 0 := by
    rw [FILETIME.value, ← UInt32.toNat_inj, ← UInt32.toNat_inj]
    change _ ↔ ft.dwHighDateTime.toNat = 0 ∧ ft.dwLowDateTime.toNat = 0
    omega
  rw [Ne, hzero]
  simp [isFiletimeSet, Decidable.imp_iff_not_or]

lemma filetime_toNat (ft : FILETIME) :
    (((ft.dwHighDateTime.toUInt64 <<< 32) + ft.dwLowDateTime.toUInt64).toNat : ℤ) = ft.value := by
  have hhigh := ft.dwHighDateTime.toNat_lt
  have hlow := ft.dwLowDateTime.toNat_lt
  simp only [UInt64.toNat_add, UInt64.toNat_shiftLeft, UInt32.toNat_toUInt64, UInt64.reduceToNat,
    Nat.reduceMod, Nat.shiftLeft_eq, Nat.reducePow, FILETIME.value]
  omega

lemma filetimeToUnixTime_eq {ft : FILETIME} (hset : ft.value ≠ 0) :
    (filetimeToUnixTime (some ft)).toInt =
      if 116444736000000000 ≤ ft.value then ft.unixSeconds
      else (2 ^ 64 + ft.value - 116444736000000000) / 10000000 := by
  have hvalue := filetime_toNat ft
  simp only [filetimeToUnixTime, if_pos (isFiletimeSet_iff.mpr hset)]
  generalize (ft.dwHighDateTime.toUInt64 <<< 32) + ft.dwLowDateTime.toUInt64 = ll at hvalue ⊢
  have hll := ll.toNat_lt
  have hquotient : ((ll - 116444736000000000) / 10000000).toNat =
      (2 ^ 64 - 116444736000000000 + ll.toNat) % 2 ^ 64 / 10000000 := by
    rw [UInt64.toNat_div, UInt64.toNat_sub]
    rfl
  rw [toInt_toInt64 (by rw [hquotient]; omega), hquotient, FILETIME.unixSeconds, ← hvalue]
  split <;> omega

lemma filetimeToUnixTime_unset {ft : FILETIME} (hunset : ft.value = 0) :
    filetimeToUnixTime (some ft) = 0 := by
  rw [filetimeToUnixTime]
  exact if_neg fun hset => isFiletimeSet_iff.mp hset hunset

end Conversion

def RoundTrips (t : Int64) : Prop :=
  0 < t.toInt * 10000000 + 116444736000000000 →
    t.toInt * 10000000 + 116444736000000000 < 2 ^ 64 →
      filetimeToUnixTime (some (unixTimeToFiletime t)) = t

/-- A time comes back from 1970 up to 2038, and file times are converted right from 1970 on. -/
theorem time_conversion (t : Int64) (ft : FILETIME) :
    (filetimeToUnixTime (some (unixTimeToFiletime t)) = t ↔ 0 ≤ t.toInt ∧ t.toInt < 2 ^ 31) ∧
    ((filetimeToUnixTime (some ft)).toInt = ft.unixSeconds ↔ 116444736000000000 ≤ ft.value) := by
  constructor
  · have hvalue := unixTimeToFiletime_value t
    obtain ⟨hlong, hlong'⟩ := long_bounds t
    rw [← Int64.toInt_inj, filetimeToUnixTime_eq (by omega), FILETIME.unixSeconds, hvalue]
    rw [Int.bmod_def] at hlong hlong' ⊢
    split <;> split <;> omega
  · by_cases hset : ft.value = 0
    · rw [filetimeToUnixTime_unset hset, FILETIME.unixSeconds, hset]
      decide
    · rw [filetimeToUnixTime_eq hset]
      split
      · simp [*]
      · rw [FILETIME.unixSeconds]
        omega

theorem not_time_conversion : (¬ ∀ t, RoundTrips t) ∧
    ¬ ∀ ft, (filetimeToUnixTime (some ft)).toInt = ft.unixSeconds := by
  constructor
  · intro h
    have hback := h (-1) (by decide) (by decide)
    revert hback
    decide +kernel
  · intro h
    have hseconds := h ⟨1, 0⟩
    revert hseconds
    decide +kernel

lemma timevalToFiletime_value {t : Timeval} (husec : 0 ≤ t.tv_usec.toInt)
    (hlt : t.tv_usec.toInt < 1000000) : (timevalToFiletime t).value =
      t.tv_sec.toInt * 10000000 + 116444736000000000 + 10 * t.tv_usec.toInt := by
  have hlong := t.tv_sec.toInt_lt
  have hlong' := t.tv_sec.le_toInt
  have husec' : (t.tv_usec.toUInt32.toNat : ℤ) = t.tv_usec.toInt := toNat_eq_toInt husec
  have hunits : ((10 * t.tv_usec.toUInt32).toNat : ℤ) = 10 * t.tv_usec.toInt := by
    rw [UInt32.toNat_mul, show (10 : UInt32).toNat = 10 from rfl]
    omega
  have hsec : t.tv_sec.toInt64.toInt.bmod (2 ^ 32) = t.tv_sec.toInt := by
    rw [Int32.toInt_toInt64]
    exact Int.bmod_eq_of_le (by omega) (by omega)
  have hepoch : (116444736000000000 : Int64).toInt = 116444736000000000 := by decide
  have hll : (Int32x32To64 t.tv_sec.toInt64 10000000 + 116444736000000000 +
      (10 * t.tv_usec.toUInt32).toUInt64.toInt64).toInt =
        t.tv_sec.toInt * 10000000 + 116444736000000000 + 10 * t.tv_usec.toInt := by
    rw [Int64.toInt_add, Int64.toInt_add, Int32x32To64_toInt, hsec, hepoch,
      toInt_toInt64 (by rw [UInt32.toNat_toUInt64]; omega), UInt32.toNat_toUInt64, hunits,
      Int.bmod_add_bmod]
    exact Int.bmod_eq_of_le (by omega) (by omega)
  rw [timevalToFiletime, filetimeOf_value (by omega), hll]

theorem timevalToFiletime_seconds {t : Timeval} (husec : 0 ≤ t.tv_usec.toInt)
    (hlt : t.tv_usec.toInt < 1000000) :
    (filetimeToUnixTime (some (timevalToFiletime t))).toInt = t.tv_sec.toInt ↔
      0 ≤ t.tv_sec.toInt := by
  have hvalue := timevalToFiletime_value husec hlt
  have hlong := t.tv_sec.toInt_lt
  have hlong' := t.tv_sec.le_toInt
  rw [filetimeToUnixTime_eq (by omega), FILETIME.unixSeconds, hvalue]
  split <;> omega

end EncFS
