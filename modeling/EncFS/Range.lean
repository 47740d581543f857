import Mathlib.Algebra.Order.Group.Abs
import Mathlib.Algebra.Order.Group.Unbundled.Int
import Mathlib.Algebra.Order.Ring.Int
import Mathlib.Data.Int.Init
import Mathlib.Tactic.Ring

set_option autoImplicit false

namespace EncFS

def INT_MIN : ℤ := -2 ^ 31
def INT_MAX : ℤ := 2 ^ 31 - 1

structure Range where
  minVal : ℤ
  maxVal : ℤ
  increment : ℤ

/-- A sum that is no `int`, or a recursion that goes on. -/
inductive RangeFault
  | overflow
  | outOfFuel

def checkInt (n : ℤ) : Except RangeFault ℤ :=
  if INT_MIN ≤ n ∧ n ≤ INT_MAX then .ok n else .error .overflow

namespace Range

variable (R : Range)

def allowed (value : ℤ) : Except RangeFault Bool :=
  if R.minVal ≤ value ∧ value ≤ R.maxVal then do
    let tmp ← checkInt (value - R.minVal)
    pure (tmp.tmod R.increment == 0)
  else
    pure false

def rounded (value : ℤ) : Except RangeFault ℤ := do
  let tmp ← checkInt (value - R.minVal)
  -- try rounding to the nearest increment
  let tmp ← checkInt (tmp + (R.increment >>> (1 : ℕ)))
  let tmp ← checkInt (tmp - tmp.tmod R.increment)
  checkInt (value + tmp)

def closest : (fuel : ℕ) → (value : ℤ) → Except RangeFault ℤ
  | 0, _ => .error .outOfFuel
  | fuel + 1, value => do
    if ← R.allowed value then
      pure value
    else if value < R.minVal then
      pure R.minVal
    else if R.maxVal < value then
      pure R.maxVal
    else
      closest fuel (← R.rounded value)

structure Sound : Prop where
  min_le : R.minVal ≤ R.maxVal
  increment_pos : 1 ≤ R.increment
  whole : R.increment ∣ R.maxVal - R.minVal

structure Allowed (value : ℤ) : Prop where
  min_le : R.minVal ≤ value
  le_max : value ≤ R.maxVal
  whole : R.increment ∣ value - R.minVal

structure Nearest (value result : ℤ) : Prop where
  allowed : R.Allowed result
  nearest {a : ℤ} : R.Allowed a → |value - result| ≤ |value - a|

def Terminates (value : ℤ) : Prop :=
  ∃ fuel result, R.closest fuel value = .ok result ∧ R.Nearest value result

def NoOverflow (value : ℤ) : Prop :=
  ∀ fuel, R.closest fuel value ≠ .error .overflow

variable {R} {value : ℤ}

lemma checkInt_bind {α : Type} (n : ℤ) (f : ℤ → Except RangeFault α) :
    (checkInt n >>= f) = .error .overflow ∨ (checkInt n >>= f) = f n := by
  rw [checkInt]
  split
  · exact .inr rfl
  · exact .inl rfl

lemma Sound.allowed_max (h : R.Sound) : R.Allowed R.maxVal :=
  ⟨h.min_le, le_refl _, h.whole⟩

lemma Sound.allowed_min (h : R.Sound) : R.Allowed R.minVal :=
  ⟨le_refl _, h.min_le, by rw [sub_self]; exact dvd_zero _⟩

lemma allowed_cases (value : ℤ) :
    R.allowed value = .error .overflow ∨
      ∃ res, R.allowed value = .ok res ∧ (res = true ↔ R.Allowed value) := by
  rw [allowed]
  by_cases hin : R.minVal ≤ value ∧ value ≤ R.maxVal
  · rw [if_pos hin]
    rcases checkInt_bind (value - R.minVal) _ with h | h
    · exact .inl h
    · refine .inr ⟨_, h, ?_⟩
      rw [beq_iff_eq]
      exact ⟨fun hmod => ⟨hin.1, hin.2, Int.dvd_of_tmod_eq_zero hmod⟩,
        fun hall => Int.tmod_eq_zero_of_dvd hall.whole⟩
  · rw [if_neg hin]
    exact .inr ⟨false, rfl, iff_of_false (by decide) fun h => hin ⟨h.min_le, h.le_max⟩⟩

lemma rounded_cases (h : R.Sound) (hlt : R.minVal < value) :
    R.rounded value = .error .overflow ∨ R.rounded value = .ok (value +
      R.increment * ((value - R.minVal + R.increment / 2) / R.increment)) := by
  have hhalf : R.increment >>> (1 : ℕ) = R.increment / 2 := by
    rw [Int.shiftRight_eq_div_pow]
    rfl
  have hpos := h.increment_pos
  have hmod : (value - R.minVal + R.increment / 2) -
      (value - R.minVal + R.increment / 2).tmod R.increment =
      R.increment * ((value - R.minVal + R.increment / 2) / R.increment) := by
    rw [Int.tmod_eq_emod_of_nonneg (by omega), sub_eq_iff_eq_add]
    exact (Int.mul_ediv_add_emod _ _).symm
  rw [rounded, hhalf]
  rcases checkInt_bind (value - R.minVal) _ with h₁ | h₁
  · exact .inl h₁
  rw [h₁]
  rcases checkInt_bind (value - R.minVal + R.increment / 2) _ with h₂ | h₂
  · exact .inl h₂
  rw [h₂, hmod]
  rcases checkInt_bind (R.increment * ((value - R.minVal + R.increment / 2) / R.increment)) _
    with h₃ | h₃
  · exact .inl h₃
  rw [h₃, checkInt]
  split
  · exact .inr rfl
  · exact .inl rfl

structure Between (R : Range) (value : ℤ) : Prop where
  min_lt : R.minVal < value
  lt_max : value < R.maxVal
  not_whole : ¬R.increment ∣ value - R.minVal

lemma cases_value (h : R.Sound) (value : ℤ) :
    R.Allowed value ∨ value < R.minVal ∨ R.maxVal < value ∨ R.Between value := by
  by_cases hlow : value < R.minVal
  · exact .inr (.inl hlow)
  by_cases hhigh : R.maxVal < value
  · exact .inr (.inr (.inl hhigh))
  by_cases hwhole : R.increment ∣ value - R.minVal
  · exact .inl ⟨Int.not_lt.mp hlow, Int.not_lt.mp hhigh, hwhole⟩
  · refine .inr (.inr (.inr ⟨?_, ?_, hwhole⟩))
    · refine lt_of_le_of_ne (Int.not_lt.mp hlow) ?_
      rintro rfl
      exact hwhole h.allowed_min.whole
    · refine lt_of_le_of_ne (Int.not_lt.mp hhigh) ?_
      rintro rfl
      exact hwhole h.whole

lemma closest_allowed (hall : R.Allowed value) (hno : R.NoOverflow value) :
    R.closest 1 value = .ok value := by
  have hrun := hno 1
  rw [closest] at hrun ⊢
  rcases R.allowed_cases value with he | ⟨res, he, hres⟩
  · rw [he] at hrun
    exact absurd rfl hrun
  · rw [he, hres.mpr hall]
    rfl

lemma closest_below (hlt : value < R.minVal) : R.closest 1 value = .ok R.minVal := by
  have hout : R.allowed value = .ok false := if_neg fun hin => absurd hin.1 (Int.not_le.mpr hlt)
  rw [closest, hout]
  exact if_pos hlt

lemma closest_above (hle : R.minVal ≤ R.maxVal) (hlt : R.maxVal < value) :
    R.closest 1 value = .ok R.maxVal := by
  have hout : R.allowed value = .ok false := if_neg fun hin => absurd hin.2 (Int.not_le.mpr hlt)
  rw [closest, hout]
  exact (if_neg (by omega)).trans (if_pos hlt)

lemma closest_unique {fuel fuel' : ℕ} {w w' : ℤ} (h : R.closest fuel value = .ok w)
    (h' : R.closest fuel' value = .ok w') : w = w' := by
  induction fuel generalizing value fuel' with
  | zero => cases h
  | succ fuel ih =>
    cases fuel' with
    | zero => cases h'
    | succ fuel' =>
      rw [closest] at h h'
      cases hall : R.allowed value with
      | error e =>
        rw [hall] at h
        cases h
      | ok res =>
        rw [hall] at h h'
        dsimp only [bind, Except.bind] at h h'
        split at h
        · rw [if_pos ‹_›] at h'
          cases h
          cases h'
          rfl
        rw [if_neg ‹_›] at h'
        split at h
        · rw [if_pos ‹_›] at h'
          cases h
          cases h'
          rfl
        rw [if_neg ‹_›] at h'
        split at h
        · rw [if_pos ‹_›] at h'
          cases h
          cases h'
          rfl
        rw [if_neg ‹_›] at h'
        cases hround : R.rounded value with
        | error e =>
          rw [hround] at h
          cases h
        | ok next =>
          rw [hround] at h h'
          exact ih h h'

section Runs

variable (h : R.Sound)
include h

lemma closest_between (hbetween : R.Between value) (hno : R.NoOverflow value) (fuel : ℕ) :
    R.closest (fuel + 1) value = R.closest fuel (value +
      R.increment * ((value - R.minVal + R.increment / 2) / R.increment)) := by
  have hrun := hno (fuel + 1)
  rw [closest] at hrun ⊢
  rcases R.allowed_cases value with he | ⟨res, he, hres⟩
  · rw [he] at hrun
    exact absurd rfl hrun
  have hnot : res = false :=
    Bool.eq_false_iff.mpr fun htrue => hbetween.not_whole (hres.mp htrue).whole
  subst hnot
  rw [he] at hrun ⊢
  dsimp only [bind, Except.bind] at hrun ⊢
  rw [if_neg (by decide), if_neg (Int.not_lt.mpr (le_of_lt hbetween.min_lt)),
    if_neg (Int.not_lt.mpr (le_of_lt hbetween.lt_max))] at hrun ⊢
  rcases rounded_cases h hbetween.min_lt with hr | hr
  · rw [hr] at hrun
    exact absurd rfl hrun
  · rw [hr]

lemma NoOverflow.next (hbetween : R.Between value) (hno : R.NoOverflow value) :
    R.NoOverflow (value +
      R.increment * ((value - R.minVal + R.increment / 2) / R.increment)) := by
  intro fuel
  rw [← closest_between h hbetween hno fuel]
  exact hno (fuel + 1)

lemma closest_stays (hbetween : R.Between value) (hno : R.NoOverflow value)
    (hlow : value - R.minVal + R.increment / 2 < R.increment) (fuel : ℕ) :
    R.closest fuel value = .error .outOfFuel := by
  have hnone : (value - R.minVal + R.increment / 2) / R.increment = 0 := by
    have := hbetween.min_lt
    have := h.increment_pos
    exact Int.ediv_eq_zero_of_lt (by omega) hlow
  induction fuel with
  | zero => rfl
  | succ fuel ih => rw [closest_between h hbetween hno, hnone, mul_zero, add_zero, ih]

lemma closest_climbs (hbetween : R.Between value) (hno : R.NoOverflow value)
    (hhigh : R.increment ≤ value - R.minVal + R.increment / 2) :
    ∃ fuel, R.closest fuel value = .ok R.maxVal := by
  have hpos := h.increment_pos
  generalize hleft : (R.maxVal - value).toNat = left
  induction left using Nat.strong_induction_on generalizing value with
  | _ left ih =>
    have hmin := hbetween.min_lt
    have hmax := hbetween.lt_max
    have hnext := hno.next h hbetween
    have hstep := closest_between h hbetween hno
    generalize hq : (value - R.minVal + R.increment / 2) / R.increment = q at hnext hstep
    have hgrow : value + R.increment ≤ value + R.increment * q := by
      have hone : 1 ≤ q := by
        rw [← hq]
        exact (Int.le_ediv_iff_mul_le (by omega)).mpr (by omega)
      have hmul := mul_le_mul_of_nonneg_left hone (by omega : 0 ≤ R.increment)
      omega
    rcases lt_trichotomy (value + R.increment * q) R.maxVal with hlt | heq | hgt
    · have hwhole : ¬R.increment ∣ value + R.increment * q - R.minVal := by
        intro hdvd
        apply hbetween.not_whole
        have hsub := Int.dvd_sub hdvd (dvd_mul_right R.increment q)
        rwa [show value + R.increment * q - R.minVal - R.increment * q = value - R.minVal by ring]
          at hsub
      obtain ⟨fuel, hrun⟩ := ih _ (by omega) ⟨by omega, hlt, hwhole⟩ hnext (by omega) rfl
      exact ⟨fuel + 1, by rw [hstep, hrun]⟩
    · refine absurd ?_ hbetween.not_whole
      have hsub := Int.dvd_sub h.whole (dvd_mul_right R.increment q)
      rwa [← heq, show value + R.increment * q - R.minVal - R.increment * q = value - R.minVal by
        ring] at hsub
    · exact ⟨2, by rw [hstep, closest_above h.min_le hgt]⟩

lemma allowed_sub_increment (hlt : R.minVal < R.maxVal) :
    R.Allowed (R.maxVal - R.increment) := by
  have hle := Int.le_of_dvd (by omega) h.whole
  refine ⟨by omega, by have := h.increment_pos; omega, ?_⟩
  have hsub := Int.dvd_sub h.whole (dvd_refl R.increment)
  rwa [show R.maxVal - R.minVal - R.increment = R.maxVal - R.increment - R.minVal by ring] at hsub

lemma Allowed.eq_max_or {a : ℤ} (ha : R.Allowed a) :
    a = R.maxVal ∨ a ≤ R.maxVal - R.increment := by
  have hdvd : R.increment ∣ R.maxVal - a := by
    have hsub := Int.dvd_sub h.whole ha.whole
    rwa [show R.maxVal - R.minVal - (a - R.minVal) = R.maxVal - a by ring] at hsub
  have hle := ha.le_max
  rcases Int.lt_or_eq_of_le hle with hlt | rfl
  · have := Int.le_of_dvd (by omega) hdvd
    exact .inr (by omega)
  · exact .inl rfl

lemma nearest_max_iff (hbetween : R.Between value) :
    R.Nearest value R.maxVal ↔ 2 * (R.maxVal - value) ≤ R.increment := by
  have hmin := hbetween.min_lt
  have hmax := hbetween.lt_max
  constructor
  · intro hnear
    have hle := hnear.nearest (allowed_sub_increment h (by omega))
    rw [abs_sub_comm, abs_of_pos (by omega)] at hle
    have hinc := h.increment_pos
    rcases abs_cases (value - (R.maxVal - R.increment)) with ⟨he, -⟩ | ⟨he, -⟩
    · omega
    · omega
  · intro hhalf
    refine ⟨h.allowed_max, fun {a} ha => ?_⟩
    rw [abs_sub_comm, abs_of_pos (by omega)]
    rcases ha.eq_max_or h with rfl | hle
    · rw [abs_sub_comm]
      exact le_abs_self _
    · have := le_abs_self (value - a)
      omega

end Runs

/-- The recursion ends with the nearest size if it does not start, or near the largest size. -/
theorem closest_nearest (h : R.Sound) (hno : R.NoOverflow value) :
    R.Terminates value ↔ R.Allowed value ∨ value < R.minVal ∨ R.maxVal < value ∨
      2 * (R.maxVal - value) ≤ R.increment := by
  rcases cases_value h value with hall | hlow | hhigh | hbetween
  · refine iff_of_true ⟨1, value, closest_allowed hall hno, hall, fun _ => ?_⟩ (.inl hall)
    rw [sub_self, abs_zero]
    exact abs_nonneg _
  · refine iff_of_true ⟨1, R.minVal, closest_below hlow, h.allowed_min, fun {a} ha => ?_⟩
      (.inr (.inl hlow))
    have hle := ha.min_le
    rw [abs_of_neg (by omega), abs_of_neg (by omega)]
    omega
  · refine iff_of_true ⟨1, R.maxVal, closest_above h.min_le hhigh, h.allowed_max, fun {a} ha => ?_⟩
      (.inr (.inr (.inl hhigh)))
    have hle := ha.le_max
    rw [abs_of_pos (by omega), abs_of_pos (by omega)]
    omega
  · have hmin := hbetween.min_lt
    have hmax := hbetween.lt_max
    have hinside : ¬(R.Allowed value ∨ value < R.minVal ∨ R.maxVal < value) := by
      rintro (hall | hlow | hhigh)
      · exact hbetween.not_whole hall.whole
      · omega
      · omega
    have hright : (R.Allowed value ∨ value < R.minVal ∨ R.maxVal < value ∨
        2 * (R.maxVal - value) ≤ R.increment) ↔ 2 * (R.maxVal - value) ≤ R.increment := by
      rw [← or_assoc (a := value < R.minVal), ← or_assoc]
      exact or_iff_right hinside
    rw [hright]
    by_cases hgrows : R.increment ≤ value - R.minVal + R.increment / 2
    · obtain ⟨fuel, hrun⟩ := closest_climbs h hbetween hno hgrows
      rw [← nearest_max_iff h hbetween]
      constructor
      · rintro ⟨fuel', result, hrun', hnear⟩
        rwa [← closest_unique hrun' hrun]
      · exact fun hnear => ⟨fuel, R.maxVal, hrun, hnear⟩
    · refine iff_of_false ?_ ?_
      · rintro ⟨fuel, result, hrun, -⟩
        rw [closest_stays h hbetween hno (Int.not_le.mp hgrows)] at hrun
        cases hrun
      · have hle := Int.le_of_dvd (by omega) h.whole
        omega

def BFKeyRange : Range := ⟨128, 256, 32⟩
def BFBlockRange : Range := ⟨64, 4096, 8⟩
def AESKeyRange : Range := ⟨128, 256, 64⟩
def AESBlockRange : Range := ⟨64, 4096, 16⟩

lemma AESKeyRange_sound : AESKeyRange.Sound := ⟨by decide, by decide, by decide⟩

lemma AESKeyRange_above (fuel : ℕ) : AESKeyRange.closest fuel 250 = .error .outOfFuel ∨
    AESKeyRange.closest fuel 250 = .ok 256 := by
  match fuel with
  | 0 => exact .inl rfl
  | 1 => exact .inl rfl
  | fuel + 2 => exact .inr rfl

theorem closest_nearest_above : AESKeyRange.Terminates 250 ↔ AESKeyRange.Allowed 250 ∨
    (250 : ℤ) < 128 ∨ (256 : ℤ) < 250 ∨ 2 * ((256 : ℤ) - 250) ≤ 64 :=
  closest_nearest AESKeyRange_sound fun fuel => by
    rcases AESKeyRange_above fuel with h | h
    · rw [h]
      exact fun h => by cases h
    · rw [h]
      exact fun h => by cases h

theorem not_closest_nearest :
    ¬∀ (R : Range) (value : ℤ), R.Sound → R.NoOverflow value → R.Terminates value := by
  intro h
  have hstays (fuel : ℕ) : AESKeyRange.closest fuel 130 = .error .outOfFuel := by
    induction fuel with
    | zero => rfl
    | succ fuel ih => exact ih
  obtain ⟨fuel, result, hrun, -⟩ := h AESKeyRange 130 AESKeyRange_sound fun fuel => by
    rw [hstays]
    exact fun h => by cases h
  rw [hstays] at hrun
  cases hrun

end Range

end EncFS
