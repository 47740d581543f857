import EncFS.MACFileIO.Refinement
import Mathlib.Data.Finset.Card
import Mathlib.Order.Monotone.Defs

set_option autoImplicit false

namespace EncFS

def dataBlocks (x d : ℕ) : Finset ℕ :=
  (Finset.range x).image (· / d)

section Locations

variable {d h : ℕ} (hd : 0 < d)
include hd

lemma lt_roundUpDivide {x k : ℕ} : k < roundUpDivide x d ↔ k * d < x := by
  rcases location_cases hd x with rfl | ⟨q, r, hr, hrd, rfl⟩
  · have hzero := roundUpDivide_mul hd 0
    rw [Nat.zero_mul] at hzero
    rw [hzero]
    omega
  · rw [roundUpDivide_add q hr hrd]
    constructor
    · intro hlt
      have hle := Nat.mul_le_mul_right d (Nat.le_of_lt_succ hlt)
      omega
    · intro hlt
      by_contra hge
      have hle := Nat.mul_le_mul_right d (Nat.not_lt.mp hge)
      rw [Nat.succ_mul] at hle
      omega

lemma dataBlocks_eq (x : ℕ) : dataBlocks x d = Finset.range (roundUpDivide x d) := by
  ext k
  rw [dataBlocks, Finset.mem_image, Finset.mem_range, lt_roundUpDivide hd]
  constructor
  · rintro ⟨i, hi, rfl⟩
    exact Nat.lt_of_le_of_lt (Nat.div_mul_le_self i d) (Finset.mem_range.mp hi)
  · intro hlt
    exact ⟨k * d, Finset.mem_range.mpr hlt, Nat.mul_div_cancel k hd⟩

lemma locWithHeader_eq (x : ℕ) :
    locWithHeader x (d + h) h = x + h * (dataBlocks x d).card := by
  rw [locWithHeader, Nat.add_sub_cancel, dataBlocks_eq hd, Finset.card_range, Nat.mul_comm]

omit hd in
lemma dataBlocks_mono {x y : ℕ} (hxy : x ≤ y) : (dataBlocks x d).card ≤ (dataBlocks y d).card :=
  Finset.card_le_card (Finset.image_subset_image (Finset.range_subset_range.mpr hxy))

lemma locWithHeader_strictMono : StrictMono fun x => locWithHeader x (d + h) h := by
  intro x y hxy
  dsimp only
  rw [locWithHeader_eq hd, locWithHeader_eq hd]
  have hle : h * (dataBlocks x d).card ≤ h * (dataBlocks y d).card :=
    Nat.mul_le_mul_left h (dataBlocks_mono (Nat.le_of_lt hxy))
  omega

end Locations

/-- The translation to the file is inverted by the one back, and adds a header for every block that
the data before the offset is in. -/
theorem locations_translate {bs h : ℕ} (hbs : h < bs) :
    (∀ x, locWithoutHeader (locWithHeader x bs h) bs h = x) ∧
    (StrictMono fun x => locWithHeader x bs h) ∧
    (∀ k, locWithHeader (k * (bs - h)) bs h = k * bs) ∧
    ∀ x, (locWithHeader x bs h : ℤ) - x = h * (dataBlocks x (bs - h)).card := by
  obtain ⟨d, rfl⟩ := Nat.exists_eq_add_of_lt hbs
  rw [Nat.add_assoc, Nat.add_comm h, Nat.add_sub_cancel]
  have hd : 0 < d + 1 := Nat.succ_pos d
  refine ⟨locWithoutHeader_locWithHeader hd, locWithHeader_strictMono hd, locWithHeader_mul hd,
    fun x => ?_⟩
  rw [locWithHeader_eq hd, Nat.cast_add, Nat.cast_mul]
  omega

theorem locations_translate_small :
    (∀ x, locWithoutHeader (locWithHeader x 1024 8) 1024 8 = x) ∧
    (StrictMono fun x => locWithHeader x 1024 8) ∧
    (∀ k, locWithHeader (k * 1016) 1024 8 = k * 1024) ∧
    ∀ x, (locWithHeader x 1024 8 : ℤ) - x = 8 * (dataBlocks x 1016).card :=
  locations_translate (by decide : 8 < 1024)

end EncFS
