import EncFS.FileIO
import Mathlib.Data.Nat.Bitwise

set_option autoImplicit false

namespace EncFS.Fuse4Win

abbrev ICONV_CHAR := UInt32

/-- A negative result of a conversion is `illegal` or `invalid`; the loop of `putUtf8` does not end
for a character of 27 to 31 bits. -/
inductive ConvertError
  | illegal
  | invalid
  | endless
  deriving DecidableEq, Repr

def utf8Lengths : List ℕ :=
  List.replicate 128 1 ++ List.replicate 64 0 ++ List.replicate 32 2 ++ List.replicate 16 3 ++
    [4, 4, 4, 4, 4, 4, 4, 4, 5, 5, 5, 5, 6, 6, 0, 0]

def utf8Masks : List UInt32 := [0, 0x7f, 0x1f, 0x0f, 0x07, 0x03, 0x01]

def getUtf8 (p : Bytes) : Except ConvertError (ℕ × ICONV_CHAR) :=
  let l := utf8Lengths.getD (p.headD 0).toNat 0
  if l = 0 then .error .illegal
  else if p.length < l then .error .invalid
  else .ok (l, (p.tail.take (l - 1)).foldl (fun uc b => (uc <<< 6) ||| (b.toUInt32 &&& 0x3f))
    ((p.headD 0).toUInt32 &&& utf8Masks.getD l 0))

def MASK (n : UInt32) : UInt32 := 0xffffffff <<< n

def utf8Length (c : ICONV_CHAR) : Except ConvertError ℕ :=
  if c &&& MASK 11 = 0 then .ok 2
  else if c &&& MASK 16 = 0 then .ok 3
  else if c &&& MASK 21 = 0 then .ok 4
  else if c &&& MASK 26 = 0 then .ok 5
  else if c &&& MASK 31 ≠ 0 then .error .invalid
  else .error .endless

def putBack : (pos : ℕ) → (buf : Bytes) → (c mask : UInt32) → Bytes
  | 0, buf, _, _ => buf
  | pos + 1, buf, c, mask =>
    let buf := buf.set pos (0x80 ||| (c &&& 0x3f)).toUInt8
    let c := c >>> 6
    let mask := mask >>> 1
    if c < 0x40 then buf.set (pos - 1) (mask ||| c).toUInt8
    else putBack pos buf c mask

def putUtf8 (buf : Bytes) (c : ICONV_CHAR) : Except ConvertError (Bytes × ℕ) :=
  if c &&& MASK 7 = 0 then .ok (buf.set 0 c.toUInt8, 1)
  else do
    let o_len ← utf8Length c
    return (putBack o_len buf c 0xff80, o_len)

/-- The characters for which `putUtf8` stops one byte early, where what is left of the character
has six bits but does not fit the first byte. -/
def LeadLost (c : Char) : Prop :=
  0x800 ≤ c.toNat ∧ c.toNat ≤ 0xfff ∨ 0x10000 ≤ c.toNat ∧ c.toNat ≤ 0x3ffff

instance (c : Char) : Decidable (LeadLost c) := by
  rw [LeadLost]
  infer_instance

lemma testBit_mask (n i : ℕ) (hn : n < 32) :
    ((2 ^ 32 - 1) <<< n % 2 ^ 32).testBit i = (decide (n ≤ i) && decide (i < 32)) := by
  rw [Nat.testBit_mod_two_pow, Nat.testBit_shiftLeft, Nat.testBit_two_pow_sub_one]
  by_cases hi : n ≤ i <;> by_cases hlt : i < 32 <;> simp [hi, hlt]
  omega

lemma and_mask_eq_zero (c n : UInt32) (hn : n < 32) : c &&& MASK n = 0 ↔ c.toNat < 2 ^ n.toNat := by
  have hn' : n.toNat < 32 := hn
  rw [← UInt32.toNat_inj, UInt32.toNat_and, MASK, UInt32.toNat_shiftLeft]
  change c.toNat &&& ((2 ^ 32 - 1) <<< (n.toNat % 32) % 2 ^ 32) = 0 ↔ _
  rw [Nat.mod_eq_of_lt hn']
  constructor
  · intro hzero
    by_contra hge
    obtain ⟨i, hi, hbit⟩ := Nat.exists_ge_and_testBit_of_ge_two_pow (Nat.not_lt.mp hge)
    have hi' : i < 32 := by
      by_contra hle
      have hlarge := Nat.pow_le_pow_right (n := 2) (by decide) (Nat.not_lt.mp hle)
      rw [Nat.testBit_lt_two_pow (Nat.lt_of_lt_of_le c.toNat_lt hlarge)] at hbit
      cases hbit
    have hboth := congrArg (Nat.testBit · i) hzero
    simp only [Nat.testBit_and, hbit, testBit_mask _ _ hn', hi, hi', decide_true, Bool.and_self,
      Nat.zero_testBit] at hboth
    cases hboth
  · intro hlt
    apply Nat.eq_of_testBit_eq
    intro i
    rw [Nat.testBit_and, Nat.zero_testBit, testBit_mask _ _ hn']
    by_cases hi : n.toNat ≤ i
    · rw [Nat.testBit_lt_two_pow (Nat.lt_of_lt_of_le hlt (Nat.pow_le_pow_right (by decide) hi))]
      rfl
    · simp [hi]

section Put

lemma contByte (c : UInt32) : (0x80 ||| (c &&& 0x3f)).toUInt8 = c.toUInt8 &&& 0x3f ||| 0x80 := by
  rw [UInt32.toUInt8_or, UInt32.toUInt8_and, UInt8.or_comm]
  rfl

lemma shift_shift (c m n : UInt32) (h : m.toNat + n.toNat < 32) :
    (c >>> m) >>> n = c >>> (m + n) := by
  have hsum : (m + n).toNat = m.toNat + n.toNat := by
    rw [UInt32.toNat_add]
    omega
  rw [← UInt32.toNat_inj]
  simp only [UInt32.toNat_shiftRight, hsum]
  rw [Nat.mod_eq_of_lt (show m.toNat < 32 by omega), Nat.mod_eq_of_lt (show n.toNat < 32 by omega),
    Nat.mod_eq_of_lt h, Nat.shiftRight_add]

lemma shiftRight_lt {c : UInt32} (n : UInt32) (hn : n < 32) (m : ℕ) :
    (c >>> n).toNat < m ↔ c.toNat < m * 2 ^ n.toNat := by
  have hn' : n.toNat < 32 := hn
  rw [UInt32.toNat_shiftRight, Nat.mod_eq_of_lt hn', Nat.shiftRight_eq_div_pow]
  exact Nat.div_lt_iff_lt_mul (Nat.two_pow_pos _)

lemma leadByte (mask x : UInt32) (n : ℕ) (m : UInt8) (hm : m.toNat = 2 ^ n - 1) (hn : n ≤ 8)
    (hx : x.toNat < 2 ^ n) : (mask ||| x).toUInt8 = x.toUInt8 &&& m ||| mask.toUInt8 := by
  have hsame : x.toUInt8 &&& m = x.toUInt8 := by
    rw [← UInt8.toNat_inj, UInt8.toNat_and, hm, UInt32.toNat_toUInt8,
      Nat.and_two_pow_sub_one_eq_mod]
    have hle := Nat.pow_le_pow_right (n := 2) (by decide) hn
    rw [Nat.mod_eq_of_lt (Nat.lt_of_lt_of_le hx hle), Nat.mod_eq_of_lt hx]
  rw [UInt32.toUInt8_or, hsame, UInt8.or_comm]

section PutBack

variable {b₀ b₁ b₂ b₃ : UInt8} {rest : Bytes} {c mask : UInt32}

lemma putBack_stop (pos : ℕ) (buf : Bytes) (h : c >>> 6 < 0x40) :
    putBack (pos + 1) buf c mask =
      (buf.set pos (c.toUInt8 &&& 0x3f ||| 0x80)).set (pos - 1) (mask >>> 1 ||| c >>> 6).toUInt8 := by
  rw [putBack, if_pos h, contByte]

lemma putBack_next (pos : ℕ) (buf : Bytes) (h : ¬ c >>> 6 < 0x40) :
    putBack (pos + 1) buf c mask =
      putBack pos (buf.set pos (c.toUInt8 &&& 0x3f ||| 0x80)) (c >>> 6) (mask >>> 1) := by
  rw [putBack, if_neg h, contByte]

end PutBack

section Standard

variable {c : Char}

lemma char_le (c : Char) (n : UInt32) : c.val ≤ n ↔ c.toNat ≤ n.toNat := UInt32.le_iff_toNat_le

lemma utf8_one (h : c.toNat < 2 ^ 7) :
    c.utf8Size = 1 ∧ String.utf8EncodeChar c = [c.val.toUInt8] := by
  have h₁ : c.toNat ≤ 0x7f := by omega
  rw [String.utf8EncodeChar_eq_utf8EncodeCharFast, String.utf8EncodeCharFast, Char.utf8Size]
  simp [char_le, h₁]

lemma utf8_two (h : 2 ^ 7 ≤ c.toNat) (h' : c.toNat < 2 ^ 11) :
    c.utf8Size = 2 ∧ String.utf8EncodeChar c =
      [(c.val >>> 6).toUInt8 &&& 0x1f ||| 0xc0, c.val.toUInt8 &&& 0x3f ||| 0x80] := by
  have h₁ : ¬ c.toNat ≤ 0x7f := by omega
  have h₂ : c.toNat ≤ 0x7ff := by omega
  rw [String.utf8EncodeChar_eq_utf8EncodeCharFast, String.utf8EncodeCharFast, Char.utf8Size]
  simp [char_le, h₁, h₂]

lemma utf8_three (h : 2 ^ 11 ≤ c.toNat) (h' : c.toNat < 2 ^ 16) :
    c.utf8Size = 3 ∧ String.utf8EncodeChar c =
      [(c.val >>> 12).toUInt8 &&& 0x0f ||| 0xe0, (c.val >>> 6).toUInt8 &&& 0x3f ||| 0x80,
        c.val.toUInt8 &&& 0x3f ||| 0x80] := by
  have h₁ : ¬ c.toNat ≤ 0x7f := by omega
  have h₂ : ¬ c.toNat ≤ 0x7ff := by omega
  have h₃ : c.toNat ≤ 0xffff := by omega
  rw [String.utf8EncodeChar_eq_utf8EncodeCharFast, String.utf8EncodeCharFast, Char.utf8Size]
  simp [char_le, h₁, h₂, h₃]

lemma utf8_four (h : 2 ^ 16 ≤ c.toNat) :
    c.utf8Size = 4 ∧ String.utf8EncodeChar c =
      [(c.val >>> 18).toUInt8 &&& 0x07 ||| 0xf0, (c.val >>> 12).toUInt8 &&& 0x3f ||| 0x80,
        (c.val >>> 6).toUInt8 &&& 0x3f ||| 0x80, c.val.toUInt8 &&& 0x3f ||| 0x80] := by
  have h₁ : ¬ c.toNat ≤ 0x7f := by omega
  have h₂ : ¬ c.toNat ≤ 0x7ff := by omega
  have h₃ : ¬ c.toNat ≤ 0xffff := by omega
  rw [String.utf8EncodeChar_eq_utf8EncodeCharFast, String.utf8EncodeCharFast, Char.utf8Size]
  simp [char_le, h₁, h₂, h₃]

end Standard

structure Put (c : Char) (buf : Bytes) (coded : Bytes) : Prop where
  run : putUtf8 buf c.val = .ok (coded ++ buf.drop c.utf8Size, c.utf8Size)
  length_eq : coded.length = c.utf8Size
  standard : ¬ LeadLost c → coded = String.utf8EncodeChar c
  lost : LeadLost c → coded.head? = buf.head?

lemma char_bits (c : Char) : c.toNat < 2 ^ 21 := by
  have h : c.val.toNat < 0xd800 ∨ 0xdfff < c.val.toNat ∧ c.val.toNat < 0x110000 := c.valid
  change c.val.toNat < 2 ^ 21
  omega

lemma put_two {c : Char} {buf : Bytes} (hroom : 2 ≤ buf.length) (h : 2 ^ 7 ≤ c.toNat)
    (h' : c.toNat < 2 ^ 11) : ∃ coded, Put c buf coded := by
  obtain ⟨hsize, hstd⟩ := utf8_two h h'
  obtain ⟨b₀, b₁, rest, rfl⟩ : ∃ b₀ b₁ rest, buf = b₀ :: b₁ :: rest := by
    match buf, hroom with
    | b₀ :: b₁ :: rest, _ => exact ⟨b₀, b₁, rest, rfl⟩
  have hseven : ¬ c.val &&& MASK 7 = 0 :=
    mt (and_mask_eq_zero c.val 7 (by decide)).mp (Nat.not_lt.mpr h)
  have hlen : utf8Length c.val = .ok 2 := if_pos ((and_mask_eq_zero c.val 11 (by decide)).mpr h')
  have hstop : c.val >>> 6 < 0x40 := (shiftRight_lt 6 (by decide) 0x40).mpr (by
    change c.toNat < 0x40 * 2 ^ 6
    omega)
  have hlead := leadByte (0xff80 >>> (1 : UInt32)) (c.val >>> 6) 5 0x1f rfl (by decide)
    ((shiftRight_lt 6 (by decide) (2 ^ 5)).mpr h')
  refine ⟨_, ⟨?_, ?_, fun _ => hstd.symm, fun hlost => ?_⟩⟩
  · rw [putUtf8, if_neg hseven, hlen, hsize]
    change Except.ok (putBack 2 _ _ _, 2) = _
    rw [putBack_stop _ _ hstop, hlead]
    rfl
  · rw [hsize]
    rfl
  · rw [LeadLost] at hlost
    omega

lemma put_three {c : Char} {buf : Bytes} (hroom : 3 ≤ buf.length) (h : 2 ^ 11 ≤ c.toNat)
    (h' : c.toNat < 2 ^ 16) : ∃ coded, Put c buf coded := by
  obtain ⟨hsize, hstd⟩ := utf8_three h h'
  obtain ⟨b₀, b₁, b₂, rest, rfl⟩ : ∃ b₀ b₁ b₂ rest, buf = b₀ :: b₁ :: b₂ :: rest := by
    match buf, hroom with
    | b₀ :: b₁ :: b₂ :: rest, _ => exact ⟨b₀, b₁, b₂, rest, rfl⟩
  have hmask (n : UInt32) (hn : n < 32) (hle : 2 ^ n.toNat ≤ 2 ^ 11) : ¬ c.val &&& MASK n = 0 :=
    mt (and_mask_eq_zero c.val n hn).mp (Nat.not_lt.mpr (hle.trans h))
  have hrun : putUtf8 (b₀ :: b₁ :: b₂ :: rest) c.val =
      .ok (putBack 3 (b₀ :: b₁ :: b₂ :: rest) c.val 0xff80, 3) := by
    rw [putUtf8, if_neg (hmask 7 (by decide) (by decide)), utf8Length,
      if_neg (hmask 11 (by decide) (by decide)),
      if_pos ((and_mask_eq_zero c.val 16 (by decide)).mpr h')]
    rfl
  by_cases hstop : c.val >>> 6 < 0x40
  · -- the second byte is taken for the first
    have hlost : LeadLost c := by
      have := (shiftRight_lt 6 (by decide) 0x40).mp hstop
      change c.toNat < 0x40 * 2 ^ 6 at this
      exact .inl ⟨h, by omega⟩
    obtain ⟨x, y, hback⟩ : ∃ x y, putBack 3 (b₀ :: b₁ :: b₂ :: rest) c.val 0xff80 =
        b₀ :: x :: y :: rest := ⟨_, _, putBack_stop 2 _ hstop⟩
    refine ⟨[b₀, x, y], ?_, ?_, fun hno => absurd hlost hno, fun _ => rfl⟩
    · rw [hrun, hback, hsize]
      rfl
    · rw [hsize]
      rfl
  · have hgo := mt (shiftRight_lt 6 (by decide) 0x40).mpr hstop
    have hstop' : (c.val >>> 6) >>> 6 < 0x40 := by
      rw [shift_shift c.val 6 6 (by decide)]
      refine (shiftRight_lt 12 (by decide) 0x40).mpr (Nat.lt_of_lt_of_le h' (by decide))
    have hlead := leadByte (0xff80 >>> (1 : UInt32) >>> (1 : UInt32)) (c.val >>> 12) 4 0x0f rfl
      (by decide) ((shiftRight_lt 12 (by decide) (2 ^ 4)).mpr h')
    refine ⟨_, ?_, ?_, fun _ => hstd.symm, fun hlost => ?_⟩
    · rw [hrun, hsize, putBack_next _ _ hstop, putBack_stop _ _ hstop',
        shift_shift c.val 6 6 (by decide)]
      change Except.ok ((_ ||| c.val >>> 12).toUInt8 :: _, _) = _
      rw [hlead]
      rfl
    · rw [hsize]
      rfl
    · change ¬ c.toNat < 0x40 * 2 ^ 6 at hgo
      rw [LeadLost] at hlost
      omega

lemma put_four {c : Char} {buf : Bytes} (hroom : 4 ≤ buf.length) (h : 2 ^ 16 ≤ c.toNat) :
    ∃ coded, Put c buf coded := by
  obtain ⟨hsize, hstd⟩ := utf8_four h
  have hbits := char_bits c
  obtain ⟨b₀, b₁, b₂, b₃, rest, rfl⟩ : ∃ b₀ b₁ b₂ b₃ rest, buf = b₀ :: b₁ :: b₂ :: b₃ :: rest := by
    match buf, hroom with
    | b₀ :: b₁ :: b₂ :: b₃ :: rest, _ => exact ⟨b₀, b₁, b₂, b₃, rest, rfl⟩
  have hmask (n : UInt32) (hn : n < 32) (hle : 2 ^ n.toNat ≤ 2 ^ 16) : ¬ c.val &&& MASK n = 0 :=
    mt (and_mask_eq_zero c.val n hn).mp (Nat.not_lt.mpr (hle.trans h))
  have hrun : putUtf8 (b₀ :: b₁ :: b₂ :: b₃ :: rest) c.val =
      .ok (putBack 4 (b₀ :: b₁ :: b₂ :: b₃ :: rest) c.val 0xff80, 4) := by
    rw [putUtf8, if_neg (hmask 7 (by decide) (by decide)), utf8Length,
      if_neg (hmask 11 (by decide) (by decide)), if_neg (hmask 16 (by decide) (by decide)),
      if_pos ((and_mask_eq_zero c.val 21 (by decide)).mpr hbits)]
    rfl
  have hgo : ¬ c.val >>> 6 < 0x40 := by
    refine mt (shiftRight_lt 6 (by decide) 0x40).mp (Nat.not_lt.mpr (Nat.le_trans ?_ h))
    decide
  have hshift := shift_shift c.val 6 6 (by decide)
  by_cases hstop : c.val >>> 12 < 0x40
  · have hlost : LeadLost c := by
      have := (shiftRight_lt 12 (by decide) 0x40).mp hstop
      change c.toNat < 0x40 * 2 ^ 12 at this
      exact .inr ⟨h, by omega⟩
    have hstop' : (c.val >>> 6) >>> 6 < 0x40 := by
      rw [hshift]
      exact hstop
    obtain ⟨x, y, z, hback⟩ : ∃ x y z, putBack 4 (b₀ :: b₁ :: b₂ :: b₃ :: rest) c.val 0xff80 =
        b₀ :: x :: y :: z :: rest :=
      ⟨_, _, _, (putBack_next 3 _ hgo).trans (putBack_stop 2 _ hstop')⟩
    refine ⟨[b₀, x, y, z], ?_, ?_, fun hno => absurd hlost hno, fun _ => rfl⟩
    · rw [hrun, hback, hsize]
      rfl
    · rw [hsize]
      rfl
  · have hlarge := mt (shiftRight_lt 12 (by decide) 0x40).mpr hstop
    have hgo' : ¬ (c.val >>> 6) >>> 6 < 0x40 := by
      rw [hshift]
      exact hstop
    have hshift' := shift_shift c.val 12 6 (by decide)
    have hstop' : ((c.val >>> 6) >>> 6) >>> 6 < 0x40 := by
      rw [hshift]
      change (c.val >>> 12) >>> 6 < 0x40
      rw [hshift']
      exact (shiftRight_lt 18 (by decide) 0x40).mpr (Nat.lt_of_lt_of_le hbits (by decide))
    have hlead := leadByte (0xff80 >>> (1 : UInt32) >>> (1 : UInt32) >>> (1 : UInt32))
      (c.val >>> 18) 3 0x07 rfl (by decide) ((shiftRight_lt 18 (by decide) (2 ^ 3)).mpr hbits)
    refine ⟨_, ?_, ?_, fun _ => hstd.symm, fun hlost => ?_⟩
    · rw [hrun, hsize, putBack_next _ _ hgo, putBack_next _ _ hgo', putBack_stop _ _ hstop',
        hshift]
      change Except.ok ((_ ||| (c.val >>> 12) >>> 6).toUInt8 :: _, _) = _
      rw [hshift']
      change Except.ok ((_ ||| c.val >>> 18).toUInt8 :: _, _) = _
      rw [hlead]
      rfl
    · rw [hsize]
      rfl
    · change ¬ c.toNat < 0x40 * 2 ^ 12 at hlarge
      rw [LeadLost] at hlost
      omega

lemma putUtf8_spec (c : Char) {buf : Bytes} (hroom : c.utf8Size ≤ buf.length) :
    ∃ coded, Put c buf coded := by
  by_cases h₁ : c.toNat < 2 ^ 7
  · obtain ⟨hsize, hstd⟩ := utf8_one h₁
    rw [hsize] at hroom
    cases buf with
    | nil => cases hroom
    | cons b₀ rest =>
      refine ⟨[c.val.toUInt8], ?_, by simp [hsize], fun _ => hstd.symm, fun hlost => ?_⟩
      · rw [putUtf8, if_pos ((and_mask_eq_zero c.val 7 (by decide)).mpr h₁), hsize]
        rfl
      · rw [LeadLost] at hlost
        omega
  by_cases h₂ : c.toNat < 2 ^ 11
  · exact put_two ((utf8_two (Nat.not_lt.mp h₁) h₂).1 ▸ hroom) (Nat.not_lt.mp h₁) h₂
  by_cases h₃ : c.toNat < 2 ^ 16
  · exact put_three ((utf8_three (Nat.not_lt.mp h₂) h₃).1 ▸ hroom) (Nat.not_lt.mp h₂) h₃
  · exact put_four ((utf8_four (Nat.not_lt.mp h₃)).1 ▸ hroom) (Nat.not_lt.mp h₃)

end Put

section Get

lemma payload_toNat (x : UInt32) :
    ((x.toUInt8 &&& 0x3f ||| 0x80).toUInt32 &&& 0x3f).toNat = x.toNat % 64 := by
  rw [UInt32.toNat_and, UInt8.toNat_toUInt32, UInt8.toNat_or, UInt8.toNat_and, UInt32.toNat_toUInt8]
  change (x.toNat % 256 &&& 2 ^ 6 - 1 ||| 2 ^ 7) &&& 2 ^ 6 - 1 = x.toNat % 64
  rw [Nat.and_two_pow_sub_one_eq_mod, Nat.and_two_pow_sub_one_eq_mod, Nat.or_mod_two_pow]
  simp [Nat.mod_mod_of_dvd]

lemma get_step {uc : UInt32} {n : ℕ} (huc : uc.toNat = n) (h : n < 2 ^ 26) (x : UInt32) :
    ((uc <<< 6) ||| ((x.toUInt8 &&& 0x3f ||| 0x80).toUInt32 &&& 0x3f)).toNat =
      n * 64 + x.toNat % 64 := by
  subst huc
  have hlt : x.toNat % 64 < 2 ^ 6 := Nat.mod_lt _ (by decide)
  have hshift : (uc <<< 6).toNat = uc.toNat <<< 6 := by
    rw [UInt32.toNat_shiftLeft]
    change uc.toNat <<< 6 % 2 ^ 32 = uc.toNat <<< 6
    rw [Nat.shiftLeft_eq]
    omega
  rw [UInt32.toNat_or, payload_toNat, hshift, ← Nat.shiftLeft_add_eq_or_of_lt hlt, Nat.shiftLeft_eq]

lemma shiftRight_toNat (c n : UInt32) (hn : n < 32) :
    (c >>> n).toNat = c.toNat / 2 ^ n.toNat := by
  have hn' : n.toNat < 32 := hn
  rw [UInt32.toNat_shiftRight, Nat.mod_eq_of_lt hn', Nat.shiftRight_eq_div_pow]

structure Lead (lead : UInt8) (l : ℕ) (x : UInt32) : Prop where
  length_eq : utf8Lengths.getD lead.toNat 0 = l
  bits : (lead.toUInt32 &&& utf8Masks.getD l 0).toNat = x.toNat

lemma lead_one {x : UInt32} (hx : x.toNat < 128) : Lead x.toUInt8 1 x := by
  have h : ∀ y < 128, utf8Lengths.getD (UInt32.ofNat y).toUInt8.toNat 0 = 1 ∧
      ((UInt32.ofNat y).toUInt8.toUInt32 &&& 0x7f).toNat = y := by decide
  have := h x.toNat hx
  rw [UInt32.ofNat_toNat] at this
  exact ⟨this.1, this.2⟩

lemma lead_two {x : UInt32} (hx : x.toNat < 32) : Lead (x.toUInt8 &&& 0x1f ||| 0xc0) 2 x := by
  have h : ∀ y < 32, utf8Lengths.getD ((UInt32.ofNat y).toUInt8 &&& 0x1f ||| 0xc0).toNat 0 = 2 ∧
      (((UInt32.ofNat y).toUInt8 &&& 0x1f ||| 0xc0).toUInt32 &&& 0x1f).toNat = y := by decide
  have := h x.toNat hx
  rw [UInt32.ofNat_toNat] at this
  exact ⟨this.1, this.2⟩

lemma lead_three {x : UInt32} (hx : x.toNat < 16) : Lead (x.toUInt8 &&& 0x0f ||| 0xe0) 3 x := by
  have h : ∀ y < 16, utf8Lengths.getD ((UInt32.ofNat y).toUInt8 &&& 0x0f ||| 0xe0).toNat 0 = 3 ∧
      (((UInt32.ofNat y).toUInt8 &&& 0x0f ||| 0xe0).toUInt32 &&& 0x0f).toNat = y := by decide
  have := h x.toNat hx
  rw [UInt32.ofNat_toNat] at this
  exact ⟨this.1, this.2⟩

lemma lead_four {x : UInt32} (hx : x.toNat < 8) : Lead (x.toUInt8 &&& 0x07 ||| 0xf0) 4 x := by
  have h : ∀ y < 8, utf8Lengths.getD ((UInt32.ofNat y).toUInt8 &&& 0x07 ||| 0xf0).toNat 0 = 4 ∧
      (((UInt32.ofNat y).toUInt8 &&& 0x07 ||| 0xf0).toUInt32 &&& 0x07).toNat = y := by decide
  have := h x.toNat hx
  rw [UInt32.ofNat_toNat] at this
  exact ⟨this.1, this.2⟩

lemma getUtf8_of_lead {lead : UInt8} {x : UInt32} {m : Bytes}
    (h : Lead lead (m.length + 1) x) (rest : Bytes) :
    getUtf8 (lead :: m ++ rest) = .ok (m.length + 1,
      m.foldl (fun uc b => (uc <<< 6) ||| (b.toUInt32 &&& 0x3f)) x) := by
  have hbits := UInt32.toNat_inj.mp h.bits
  have hroom : ¬ (lead :: m ++ rest).length < m.length + 1 := by
    simp
  rw [getUtf8]
  simp only [List.cons_append, List.headD_cons, h.length_eq, Nat.succ_ne_zero, if_false,
    List.tail_cons, Nat.add_one_sub_one, List.take_left', hbits] at hroom ⊢
  rw [if_neg hroom]

lemma getUtf8_spec (c : Char) (rest : Bytes) :
    getUtf8 (String.utf8EncodeChar c ++ rest) = .ok (c.utf8Size, c.val) := by
  have hval : c.val.toNat = c.toNat := rfl
  have hbits := char_bits c
  have h6 : (c.val >>> 6).toNat = c.toNat / 2 ^ 6 := shiftRight_toNat c.val 6 (by decide)
  have h12 : (c.val >>> 12).toNat = c.toNat / 2 ^ 12 := shiftRight_toNat c.val 12 (by decide)
  have h18 : (c.val >>> 18).toNat = c.toNat / 2 ^ 18 := shiftRight_toNat c.val 18 (by decide)
  by_cases h₁ : c.toNat < 2 ^ 7
  · obtain ⟨hsize, hstd⟩ := utf8_one h₁
    rw [hsize, hstd]
    exact getUtf8_of_lead (m := []) (lead_one h₁) rest
  by_cases h₂ : c.toNat < 2 ^ 11
  · obtain ⟨hsize, hstd⟩ := utf8_two (Nat.not_lt.mp h₁) h₂
    rw [hsize, hstd]
    refine (getUtf8_of_lead (m := [_]) (lead_two (by omega)) rest).trans ?_
    refine congrArg (fun x => Except.ok (2, x)) (UInt32.toNat_inj.mp ?_)
    exact (get_step h6 (by omega) c.val).trans (by omega)
  by_cases h₃ : c.toNat < 2 ^ 16
  · obtain ⟨hsize, hstd⟩ := utf8_three (Nat.not_lt.mp h₂) h₃
    rw [hsize, hstd]
    refine (getUtf8_of_lead (m := [_, _]) (lead_three (by omega)) rest).trans ?_
    refine congrArg (fun x => Except.ok (3, x)) (UInt32.toNat_inj.mp ?_)
    have hone := get_step h12 (by omega) (c.val >>> 6)
    exact (get_step hone (by omega) c.val).trans (by omega)
  · obtain ⟨hsize, hstd⟩ := utf8_four (Nat.not_lt.mp h₃)
    rw [hsize, hstd]
    refine (getUtf8_of_lead (m := [_, _, _]) (lead_four (by omega)) rest).trans ?_
    refine congrArg (fun x => Except.ok (4, x)) (UInt32.toNat_inj.mp ?_)
    have hone := get_step h18 (by omega) (c.val >>> 12)
    have htwo := get_step hone (by omega) (c.val >>> 6)
    exact (get_step htwo (by omega) c.val).trans (by omega)

end Get

end EncFS.Fuse4Win
