import EncFS.Digits
import EncFS.FileIO

/-! The conversions between bytes and the base 64 digits that names are written in. -/

set_option autoImplicit false

namespace EncFS

def B64ToB256Bytes (numB64Bytes : ℕ) : ℕ :=
  numB64Bytes * 6 / 8

def B256ToB64Bytes (numB256Bytes : ℕ) : ℕ :=
  (numB256Bytes * 8 + 5) / 6

def fillWork (src2Pow dst2Pow : ℕ) : (src : Bytes) → (work workBits : ℕ) → Bytes × ℕ × ℕ
  | [], work, workBits => ([], work, workBits)
  | s :: src, work, workBits =>
    if workBits < dst2Pow then
      fillWork src2Pow dst2Pow src (work ||| s.toNat <<< workBits) (workBits + src2Pow)
    else
      (s :: src, work, workBits)

def changeBase2Inline (src2Pow dst2Pow : ℕ) (outputPartialLastByte : Bool) :
    (fuel : ℕ) → (src : Bytes) → (work workBits : ℕ) → Bytes
  | 0, _, _, _ => []
  | fuel + 1, src, work, workBits =>
    let (rest, work, workBits) := fillWork src2Pow dst2Pow src work workBits
    let outVal := UInt8.ofNat (work % 2 ^ dst2Pow)
    let work := work >>> dst2Pow
    if rest = [] then
      if workBits ≠ dst2Pow ∧ outputPartialLastByte then
        [outVal, UInt8.ofNat (work % 2 ^ dst2Pow)]
      else
        [outVal]
    else
      outVal :: changeBase2Inline src2Pow dst2Pow outputPartialLastByte fuel rest work
        (workBits - dst2Pow)

def B642AsciiTable : Bytes :=
  [44, 45, 48, 49, 50, 51, 52, 53, 54, 55, 56, 57]

def B64ToAsciiChar (ch : UInt8) : UInt8 :=
  if 11 < ch then
    if 37 < ch then ch + (97 - 38) else ch + (65 - 12)
  else
    B642AsciiTable.getD ch.toNat 0

def B64ToAscii (src : Bytes) : Bytes :=
  src.map B64ToAsciiChar

def Ascii2B64Table : Bytes :=
  List.replicate 44 32 ++ [48, 49, 32, 32] ++ [50, 51, 52, 53, 54, 55, 56, 57, 58, 59] ++
    List.replicate 7 32

def AsciiToB64Char (ch : UInt8) : UInt8 :=
  if 65 ≤ ch then
    if 97 ≤ ch then ch + 38 - 97 else ch + 12 - 65
  else
    Ascii2B64Table.getD ch.toNat 0 - 48

def AsciiToB64 (src : Bytes) : Bytes :=
  src.map AsciiToB64Char

def bytesToAscii (src : Bytes) : Bytes :=
  B64ToAscii (changeBase2Inline 8 6 true (src.length * 2) src 0 0)

def asciiToBytes (src : Bytes) : Bytes :=
  changeBase2Inline 6 8 false src.length (AsciiToB64 src) 0 0

def pendingValue (src2Pow : ℕ) (src : Bytes) (work workBits : ℕ) : ℕ :=
  work + 2 ^ workBits * Nat.ofDigits (2 ^ src2Pow) (src.map UInt8.toNat)

structure Pending (src2Pow : ℕ) (src : Bytes) (work workBits value bits : ℕ) : Prop where
  digit : ∀ s ∈ src, s.toNat < 2 ^ src2Pow
  work_lt : work < 2 ^ workBits
  value_eq : pendingValue src2Pow src work workBits = value
  bits_eq : workBits + src.length * src2Pow = bits

section Conversion

variable {src2Pow dst2Pow value bits : ℕ}

lemma Pending.push {s : UInt8} {src : Bytes} {work workBits : ℕ}
    (h : Pending src2Pow (s :: src) work workBits value bits) :
    Pending src2Pow src (work ||| s.toNat <<< workBits) (workBits + src2Pow) value bits := by
  have hs := h.digit s List.mem_cons_self
  have hor : work ||| s.toNat <<< workBits = work + 2 ^ workBits * s.toNat := by
    rw [Nat.shiftLeft_eq, Nat.mul_comm, Nat.or_comm, ← Nat.two_pow_add_eq_or_of_lt h.work_lt,
      Nat.add_comm]
  refine ⟨fun e he => h.digit e (List.mem_cons_of_mem s he), ?_, ?_, ?_⟩
  · rw [hor, pow_add]
    calc work + 2 ^ workBits * s.toNat < 2 ^ workBits + 2 ^ workBits * s.toNat :=
          Nat.add_lt_add_right h.work_lt _
      _ = 2 ^ workBits * (s.toNat + 1) := by ring
      _ ≤ 2 ^ workBits * 2 ^ src2Pow := Nat.mul_le_mul_left _ hs
  · rw [← h.value_eq, pendingValue, pendingValue, hor, List.map_cons, Nat.ofDigits_cons, pow_add]
    ring
  · rw [← h.bits_eq, List.length_cons]
    ring

variable (dst2Pow) in
lemma fillWork_spec {src : Bytes} {work workBits : ℕ}
    (h : Pending src2Pow src work workBits value bits) :
    ∃ rest work' workBits', fillWork src2Pow dst2Pow src work workBits = (rest, work', workBits') ∧
      Pending src2Pow rest work' workBits' value bits ∧ (rest = [] ∨ dst2Pow ≤ workBits') ∧
      (workBits' = workBits ∨ workBits' < dst2Pow + src2Pow) := by
  induction src generalizing work workBits with
  | nil => exact ⟨[], work, workBits, rfl, h, .inl rfl, .inl rfl⟩
  | cons s src ih =>
    rw [fillWork]
    by_cases hlt : workBits < dst2Pow
    · rw [if_pos hlt]
      obtain ⟨rest, work', workBits', he, hp, hfull, hle⟩ := ih h.push
      exact ⟨rest, work', workBits', he, hp, hfull, by omega⟩
    · rw [if_neg hlt]
      exact ⟨s :: src, work, workBits, rfl, h, .inr (Nat.not_lt.mp hlt), .inl rfl⟩

lemma Pending.drop {src : Bytes} {work workBits : ℕ}
    (h : Pending src2Pow src work workBits value bits) (hle : dst2Pow ≤ workBits) :
    work % 2 ^ dst2Pow = value % 2 ^ dst2Pow ∧ Pending src2Pow src (work >>> dst2Pow)
      (workBits - dst2Pow) (value / 2 ^ dst2Pow) (bits - dst2Pow) := by
  obtain ⟨rest, rfl⟩ := Nat.exists_eq_add_of_le hle
  have hv : value = work + 2 ^ dst2Pow *
      (2 ^ rest * Nat.ofDigits (2 ^ src2Pow) (src.map UInt8.toNat)) := by
    rw [← h.value_eq, pendingValue, pow_add, Nat.mul_assoc]
  refine ⟨by rw [hv, Nat.add_mul_mod_self_left], h.digit, ?_, ?_, ?_⟩
  · rw [Nat.shiftRight_eq_div_pow, Nat.add_sub_cancel_left]
    have := h.work_lt
    rw [pow_add] at this
    exact Nat.div_lt_of_lt_mul this
  · rw [pendingValue, hv, Nat.add_mul_div_left _ _ (Nat.two_pow_pos _),
      Nat.shiftRight_eq_div_pow, Nat.add_sub_cancel_left]
  · rw [← h.bits_eq]
    omega

lemma Pending.value_nil {work workBits : ℕ} (h : Pending src2Pow [] work workBits value bits) :
    value = work ∧ bits = workBits := by
  have hv := h.value_eq
  have hb := h.bits_eq
  simp only [pendingValue, List.map_nil, Nat.ofDigits_nil, Nat.mul_zero, Nat.add_zero] at hv
  rw [List.length_nil, Nat.zero_mul, Nat.add_zero] at hb
  exact ⟨hv.symm, hb.symm⟩

lemma changeBase2Inline_encode {fuel : ℕ} {src : Bytes} {work workBits : ℕ}
    (h : Pending 8 src work workBits value bits) (hne : src ≠ []) (hbits : workBits ≤ 6)
    (heven : workBits % 2 = 0) (hfuel : (bits + 5) / 6 ≤ fuel + 1) :
    changeBase2Inline 8 6 true fuel src work workBits =
      (digitsUpTo 64 ((bits + 5) / 6) value).map UInt8.ofNat := by
  have hpos := List.length_pos_iff.mpr hne
  have hsum := h.bits_eq
  induction fuel generalizing src work workBits value bits with
  | zero => omega
  | succ fuel ih =>
    obtain ⟨rest, work', workBits', he, hp, hfull, hle⟩ := fillWork_spec 6 h
    have hsum' := hp.bits_eq
    rw [changeBase2Inline, he]
    by_cases hrest : rest = []
    · subst hrest
      obtain ⟨rfl, rfl⟩ := hp.value_nil
      have hcount : (bits + 5) / 6 = 2 := by omega
      have hmore : bits ≠ 6 := by omega
      simp only [if_true, hmore, ne_eq, not_false_eq_true, and_self, hcount, digitsUpTo,
        Nat.shiftRight_eq_div_pow]
      rfl
    · have hsix : 6 ≤ workBits' := hfull.resolve_left hrest
      obtain ⟨hdigit, hdrop⟩ := hp.drop hsix
      have hpos' := List.length_pos_iff.mpr hrest
      have hcount : (bits + 5) / 6 = (bits - 6 + 5) / 6 + 1 := by omega
      simp only [if_neg hrest]
      rw [ih hdrop hrest (by omega) (by omega) (by omega) hpos' (by omega), hcount, digitsUpTo,
        List.map_cons]
      congr 2

lemma changeBase2Inline_decode {fuel : ℕ} {src : Bytes} {work workBits : ℕ}
    (h : Pending 6 src work workBits value bits) (hbits : workBits < 8)
    (hfuel : bits / 8 ≤ fuel) :
    (changeBase2Inline 6 8 false fuel src work workBits).take (bits / 8) =
      (digitsUpTo 256 (bits / 8) value).map UInt8.ofNat := by
  have hsum := h.bits_eq
  induction fuel generalizing src work workBits value bits with
  | zero =>
    rw [Nat.le_zero.mp hfuel]
    rfl
  | succ fuel ih =>
    obtain ⟨rest, work', workBits', he, hp, hfull, hle⟩ := fillWork_spec 8 h
    have hsum' := hp.bits_eq
    rw [changeBase2Inline, he]
    by_cases hrest : rest = []
    · subst hrest
      obtain ⟨rfl, rfl⟩ := hp.value_nil
      simp only [if_true, Bool.false_eq_true, and_false, if_false]
      have hcount : bits / 8 = 0 ∨ bits / 8 = 1 := by omega
      rcases hcount with hcount | hcount
      · rw [hcount]
        rfl
      · rw [hcount]
        rfl
    · have height : 8 ≤ workBits' := hfull.resolve_left hrest
      obtain ⟨hdigit, hdrop⟩ := hp.drop height
      have hcount : bits / 8 = (bits - 8) / 8 + 1 := by omega
      simp only [if_neg hrest]
      rw [hcount, List.take_succ_cons, ih hdrop (by omega) (by omega) (by omega), digitsUpTo,
        List.map_cons]
      congr 2

end Conversion

section Ascii

lemma asciiToB64_b64ToAscii : ∀ d < 64, AsciiToB64Char (B64ToAsciiChar (UInt8.ofNat d)) =
    UInt8.ofNat d := by
  decide

lemma b64ToAscii_plain : ∀ d < 64, B64ToAsciiChar (UInt8.ofNat d) ≠ 0 ∧
    B64ToAsciiChar (UInt8.ofNat d) ≠ 46 ∧ B64ToAsciiChar (UInt8.ofNat d) ≠ 47 := by
  decide

lemma ofDigits_bytes_lt (src : Bytes) :
    Nat.ofDigits 256 (src.map UInt8.toNat) < 256 ^ src.length := by
  have h := ofDigits_lt (digit_lt_of_mem UInt8.toNat_lt src.reverse)
  simpa using h

lemma digitsUpTo_bytes (src : Bytes) :
    digitsUpTo 256 src.length (Nat.ofDigits 256 (src.map UInt8.toNat)) = src.map UInt8.toNat := by
  have h := digitsUpTo_ofDigits (digit_lt_of_mem UInt8.toNat_lt src.reverse)
  simpa using h

lemma bytes_pending (src : Bytes) :
    Pending 8 src 0 0 (Nat.ofDigits 256 (src.map UInt8.toNat)) (src.length * 8) where
  digit s _ := s.toNat_lt
  work_lt := Nat.one_pos
  value_eq := by simp [pendingValue]
  bits_eq := Nat.zero_add _

lemma bytesToAscii_eq {src : Bytes} (hne : src ≠ []) :
    bytesToAscii src = (digitsUpTo 64 (B256ToB64Bytes src.length)
      (Nat.ofDigits 256 (src.map UInt8.toNat))).map fun d => B64ToAsciiChar (UInt8.ofNat d) := by
  have hpos := List.length_pos_iff.mpr hne
  rw [bytesToAscii, changeBase2Inline_encode (bytes_pending src) hne (Nat.zero_le _) rfl
    (by omega), B64ToAscii, List.map_map]
  rfl

lemma bytesToAscii_length {src : Bytes} (hne : src ≠ []) :
    (bytesToAscii src).length = B256ToB64Bytes src.length := by
  rw [bytesToAscii_eq hne, List.length_map, digitsUpTo_length]

lemma bytesToAscii_plain {src : Bytes} (hne : src ≠ []) {ch : UInt8} (hch : ch ∈ bytesToAscii src) :
    ch ≠ 0 ∧ ch ≠ 46 ∧ ch ≠ 47 := by
  rw [bytesToAscii_eq hne] at hch
  obtain ⟨d, hd, rfl⟩ := List.mem_map.mp hch
  exact b64ToAscii_plain d (digitsUpTo_lt (by decide) _ _ d hd)

lemma b64ToB256_b256ToB64 (n : ℕ) : B64ToB256Bytes (B256ToB64Bytes n) = n := by
  rw [B64ToB256Bytes, B256ToB64Bytes]
  omega

lemma digits_pending {l value : ℕ} (hvalue : value < 64 ^ l) :
    Pending 6 ((digitsUpTo 64 l value).map UInt8.ofNat) 0 0 value (l * 6) where
  digit s hs := by
    obtain ⟨d, hd, rfl⟩ := List.mem_map.mp hs
    have hlt := digitsUpTo_lt (by decide) _ _ d hd
    rw [UInt8.toNat_ofNat']
    omega
  work_lt := Nat.one_pos
  value_eq := by
    have hback : ((digitsUpTo 64 l value).map UInt8.ofNat).map UInt8.toNat =
        digitsUpTo 64 l value := by
      rw [List.map_map]
      refine (List.map_congr_left fun d hd => ?_).trans (List.map_id _)
      have hlt := digitsUpTo_lt (by decide) _ _ d hd
      simp only [Function.comp_apply, UInt8.toNat_ofNat', id_eq]
      omega
    have hdigits := ofDigits_digitsUpTo (b := 64) l value
    rw [Nat.mod_eq_of_lt hvalue] at hdigits
    rw [pendingValue, hback]
    simpa using hdigits
  bits_eq := by rw [List.length_map, digitsUpTo_length, Nat.zero_add]

lemma ofDigits_lt_symbols (src : Bytes) :
    Nat.ofDigits 256 (src.map UInt8.toNat) < 64 ^ B256ToB64Bytes src.length := by
  refine Nat.lt_of_lt_of_le (ofDigits_bytes_lt src) ?_
  rw [show 256 = 2 ^ 8 from rfl, show 64 = 2 ^ 6 from rfl, ← pow_mul, ← pow_mul]
  refine Nat.pow_le_pow_right (by decide) ?_
  rw [B256ToB64Bytes]
  omega

lemma asciiToBytes_bytesToAscii {src : Bytes} (hne : src ≠ []) :
    (asciiToBytes (bytesToAscii src)).take src.length = src := by
  have hlt := ofDigits_lt_symbols src
  have hdigits : AsciiToB64 (bytesToAscii src) = (digitsUpTo 64 (B256ToB64Bytes src.length)
      (Nat.ofDigits 256 (src.map UInt8.toNat))).map UInt8.ofNat := by
    rw [bytesToAscii_eq hne, AsciiToB64, List.map_map]
    exact List.map_congr_left fun d hd =>
      asciiToB64_b64ToAscii d (digitsUpTo_lt (by decide) _ _ d hd)
  have hcount : B256ToB64Bytes src.length * 6 / 8 = src.length :=
    b64ToB256_b256ToB64 src.length
  have hfuel : B256ToB64Bytes src.length * 6 / 8 ≤ (bytesToAscii src).length := by
    rw [bytesToAscii_length hne, hcount, B256ToB64Bytes]
    omega
  have hdecode := changeBase2Inline_decode (digits_pending hlt) (by decide) hfuel
  rw [hcount, digitsUpTo_bytes, List.map_map] at hdecode
  rw [asciiToBytes, hdigits, hdecode]
  exact (List.map_congr_left fun s _ => UInt8.ofNat_toNat).trans (List.map_id src)

end Ascii

end EncFS
