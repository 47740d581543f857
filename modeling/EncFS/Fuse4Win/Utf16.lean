import EncFS.Fuse4Win.Utf8

set_option autoImplicit false

namespace EncFS.Fuse4Win

def GET_A2 (p : Bytes) : ICONV_CHAR :=
  (p.getD 0 0).toUInt32 ||| (p.getD 1 0).toUInt32 <<< 8

def PUT_A2 (buf : Bytes) (pos : ℕ) (c : ICONV_CHAR) : Bytes :=
  (buf.set pos c.toUInt8).set (pos + 1) (c >>> 8).toUInt8

def getUtf16 (p : Bytes) : Except ConvertError (ℕ × ICONV_CHAR) :=
  if p.length < 2 then .error .invalid
  else
    let c := GET_A2 p
    let c2 := GET_A2 (p.drop 2)
    if c &&& 0xfc00 = 0xd800 ∧ 4 ≤ p.length ∧ c2 &&& 0xfc00 = 0xdc00 then
      .ok (4, (c <<< 10) + c2 - (((0xd800 : UInt32) <<< 10) + 0xdc00 - 0x10000))
    else .ok (2, c)

def putUtf16 (buf : Bytes) (c : ICONV_CHAR) : Except ConvertError (Bytes × ℕ) :=
  if 0x110000 ≤ c then .error .illegal
  else if c < 0x10000 then .ok (PUT_A2 buf 0 c, 2)
  else
    let c := c - 0x10000
    let buf := PUT_A2 buf 0 (0xd800 + c >>> (10 : UInt32))
    .ok (PUT_A2 buf 2 (0xdc00 + (c &&& 0x3ff)), 4)

def wcharBytes (str : List UInt16) : Bytes :=
  str.flatMap fun u : UInt16 => [u.toUInt8, (u >>> 8).toUInt8]

def wchars : (mem : Bytes) → List UInt16
  | lo :: hi :: mem => (GET_A2 [lo, hi]).toUInt16 :: wchars mem
  | _ => []

def wcs (str : List UInt16) : List UInt16 :=
  str.takeWhile (· != 0)

def IsHigh (u : UInt16) : Prop := 0xd800 ≤ u.toNat ∧ u.toNat ≤ 0xdbff

def IsLow (u : UInt16) : Prop := 0xdc00 ≤ u.toNat ∧ u.toNat ≤ 0xdfff

instance (u : UInt16) : Decidable (IsHigh u) := by
  rw [IsHigh]
  infer_instance

inductive WellFormed : List UInt16 → Prop
  | nil : WellFormed []
  | unit {u : UInt16} {str : List UInt16} : ¬ IsHigh u → ¬ IsLow u → WellFormed str →
      WellFormed (u :: str)
  | pair {hi lo : UInt16} {str : List UInt16} : IsHigh hi → IsLow lo → WellFormed str →
      WellFormed (hi :: lo :: str)

def utf16Text : (str : List UInt16) → List Char
  | [] => []
  | [u] => [Char.ofNat u.toNat]
  | hi :: lo :: str =>
    if IsHigh hi then
      Char.ofNat (0x10000 + (hi.toNat - 0xd800) * 0x400 + (lo.toNat - 0xdc00)) :: utf16Text str
    else Char.ofNat hi.toNat :: utf16Text (lo :: str)

def utf16Units (c : Char) : List UInt16 :=
  if c.toNat < 0x10000 then [UInt16.ofNat c.toNat]
  else [UInt16.ofNat (0xd800 + (c.toNat - 0x10000) / 0x400),
    UInt16.ofNat (0xdc00 + (c.toNat - 0x10000) % 0x400)]

section WellFormed

lemma toNat_ofNat {n : ℕ} (h : n < 0xd800 ∨ 0xdfff < n ∧ n < 0x110000) : (Char.ofNat n).toNat = n := by
  have hvalid : n.isValidChar := h
  rw [Char.ofNat, dif_pos hvalid]
  rfl

lemma utf16Text_unit {u : UInt16} (hhigh : ¬ IsHigh u) (str : List UInt16) :
    utf16Text (u :: str) = Char.ofNat u.toNat :: utf16Text str := by
  cases str with
  | nil => rfl
  | cons lo str => rw [utf16Text, if_neg hhigh]

lemma utf16Units_unit {u : UInt16} (hhigh : ¬ IsHigh u) (hlow : ¬ IsLow u) :
    (Char.ofNat u.toNat).toNat = u.toNat ∧ utf16Units (Char.ofNat u.toNat) = [u] := by
  have hu := u.toNat_lt
  rw [IsHigh] at hhigh
  rw [IsLow] at hlow
  have hnat : (Char.ofNat u.toNat).toNat = u.toNat := toNat_ofNat (by omega)
  refine ⟨hnat, ?_⟩
  rw [utf16Units, hnat, if_pos hu, UInt16.ofNat_toNat]

lemma utf16Units_pair {hi lo : UInt16} (hhigh : IsHigh hi) (hlow : IsLow lo) :
    (Char.ofNat (0x10000 + (hi.toNat - 0xd800) * 0x400 + (lo.toNat - 0xdc00))).toNat =
        0x10000 + (hi.toNat - 0xd800) * 0x400 + (lo.toNat - 0xdc00) ∧
      utf16Units (Char.ofNat (0x10000 + (hi.toNat - 0xd800) * 0x400 + (lo.toNat - 0xdc00))) =
        [hi, lo] := by
  obtain ⟨h₁, h₂⟩ := hhigh
  obtain ⟨h₃, h₄⟩ := hlow
  have hnat : (Char.ofNat (0x10000 + (hi.toNat - 0xd800) * 0x400 + (lo.toNat - 0xdc00))).toNat =
      0x10000 + (hi.toNat - 0xd800) * 0x400 + (lo.toNat - 0xdc00) := toNat_ofNat (by omega)
  refine ⟨hnat, ?_⟩
  have hfirst : 0xd800 + (0x10000 + (hi.toNat - 0xd800) * 0x400 + (lo.toNat - 0xdc00) - 0x10000) /
      0x400 = hi.toNat := by omega
  have hsecond : 0xdc00 + (0x10000 + (hi.toNat - 0xd800) * 0x400 + (lo.toNat - 0xdc00) - 0x10000) %
      0x400 = lo.toNat := by omega
  rw [utf16Units, hnat, if_neg (by omega), hfirst, hsecond, UInt16.ofNat_toNat, UInt16.ofNat_toNat]

lemma WellFormed.units_text {str : List UInt16} (h : WellFormed str) :
    (utf16Text str).flatMap utf16Units = str := by
  induction h with
  | nil => rfl
  | unit hhigh hlow _ ih =>
    rw [utf16Text_unit hhigh, List.flatMap_cons, (utf16Units_unit hhigh hlow).2, ih]
    rfl
  | pair hhigh hlow _ ih =>
    rw [utf16Text, if_pos hhigh, List.flatMap_cons, (utf16Units_pair hhigh hlow).2, ih]
    rfl

end WellFormed

section Units

lemma GET_A2_unit (u : UInt16) (rest : Bytes) :
    GET_A2 (u.toUInt8 :: (u >>> 8).toUInt8 :: rest) = u.toUInt32 := by
  have hu := u.toNat_lt
  have hhigh : (u >>> 8).toUInt8.toNat = u.toNat / 2 ^ 8 := by
    rw [UInt16.toNat_toUInt8, UInt16.toNat_shiftRight]
    change u.toNat >>> 8 % 2 ^ 8 = _
    rw [Nat.shiftRight_eq_div_pow]
    omega
  have hshift : ((u >>> 8).toUInt8.toUInt32 <<< 8).toNat = (u.toNat / 2 ^ 8) <<< 8 := by
    rw [UInt32.toNat_shiftLeft, UInt8.toNat_toUInt32, hhigh]
    change (u.toNat / 2 ^ 8) <<< 8 % 2 ^ 32 = _
    rw [Nat.shiftLeft_eq]
    omega
  have hlow : u.toNat % 2 ^ 8 < 2 ^ 8 := Nat.mod_lt _ (by decide)
  change u.toUInt8.toUInt32 ||| (u >>> 8).toUInt8.toUInt32 <<< 8 = _
  rw [← UInt32.toNat_inj, UInt32.toNat_or, hshift, UInt8.toNat_toUInt32, UInt16.toNat_toUInt8,
    UInt16.toNat_toUInt32, Nat.or_comm, ← Nat.shiftLeft_add_eq_or_of_lt hlow, Nat.shiftLeft_eq]
  omega

lemma wchars_wcharBytes (str : List UInt16) (mem : Bytes) :
    wchars (wcharBytes str ++ mem) = str ++ wchars mem := by
  induction str with
  | nil => rfl
  | cons u str ih =>
    change (GET_A2 [u.toUInt8, (u >>> 8).toUInt8]).toUInt16 :: wchars (wcharBytes str ++ mem) = _
    rw [GET_A2_unit u [], UInt16.toUInt16_toUInt32, ih]
    rfl

lemma PUT_A2_unit {c : UInt32} {u : UInt16} (h : c.toNat = u.toNat) (front : Bytes) (b₀ b₁ : UInt8)
    (rest : Bytes) : PUT_A2 (front ++ b₀ :: b₁ :: rest) front.length c =
      front ++ wcharBytes [u] ++ rest := by
  have hu := u.toNat_lt
  have hlow : c.toUInt8 = u.toUInt8 := by
    rw [← UInt8.toNat_inj, UInt32.toNat_toUInt8, UInt16.toNat_toUInt8, h]
  have hhigh : (c >>> 8).toUInt8 = (u >>> 8).toUInt8 := by
    rw [← UInt8.toNat_inj, UInt32.toNat_toUInt8, UInt16.toNat_toUInt8, UInt32.toNat_shiftRight,
      UInt16.toNat_shiftRight, h]
    rfl
  rw [PUT_A2, hlow, hhigh, List.set_append_right _ _ (Nat.le_refl _),
    List.set_append_right _ _ (Nat.le_succ _), Nat.sub_self, Nat.succ_sub (Nat.le_refl _),
    Nat.sub_self, List.append_assoc]
  rfl

lemma and_kind {c : UInt32} (h : c.toNat < 0x10000) :
    (c &&& 0xfc00).toNat = c.toNat / 0x400 * 0x400 := by
  have hsplit : c.toNat &&& 63 <<< 10 = (c.toNat >>> 10 &&& 2 ^ 6 - 1) <<< 10 := by
    apply Nat.eq_of_testBit_eq
    intro i
    simp only [Nat.testBit_and, Nat.testBit_shiftLeft, Nat.testBit_shiftRight]
    by_cases hi : 10 ≤ i
    · rw [Nat.add_sub_cancel' hi]
      simp [hi]
    · simp [hi]
  rw [UInt32.toNat_and]
  change c.toNat &&& 63 <<< 10 = _
  rw [hsplit, Nat.and_two_pow_sub_one_eq_mod, Nat.shiftRight_eq_div_pow, Nat.shiftLeft_eq]
  omega

lemma kind_iff {c : UInt32} (h : c.toNat < 0x10000) (k : UInt32) (hk : k.toNat % 0x400 = 0) :
    c &&& 0xfc00 = k ↔ k.toNat ≤ c.toNat ∧ c.toNat < k.toNat + 0x400 := by
  rw [← UInt32.toNat_inj, and_kind h]
  omega

lemma utf16_cases (c : Char) :
    (∃ u : UInt16, utf16Units c = [u] ∧ u.toNat = c.toNat ∧ ¬ IsHigh u ∧ ¬ IsLow u) ∨
    ∃ hi lo : UInt16, utf16Units c = [hi, lo] ∧ IsHigh hi ∧ IsLow lo ∧ 0x10000 ≤ c.toNat ∧
      c.toNat < 0x110000 ∧ hi.toNat = 0xd800 + (c.toNat - 0x10000) / 0x400 ∧
      lo.toNat = 0xdc00 + (c.toNat - 0x10000) % 0x400 := by
  have hvalid : c.toNat < 0xd800 ∨ 0xdfff < c.toNat ∧ c.toNat < 0x110000 := c.valid
  rw [utf16Units]
  by_cases h : c.toNat < 0x10000
  · have hu : (UInt16.ofNat c.toNat).toNat = c.toNat := by
      rw [UInt16.toNat_ofNat']
      exact Nat.mod_eq_of_lt h
    refine .inl ⟨_, if_pos h, hu, ?_, ?_⟩
    · rw [IsHigh, hu]
      omega
    · rw [IsLow, hu]
      omega
  · have hhi : (UInt16.ofNat (0xd800 + (c.toNat - 0x10000) / 0x400)).toNat =
        0xd800 + (c.toNat - 0x10000) / 0x400 := by
      rw [UInt16.toNat_ofNat']
      omega
    have hlo : (UInt16.ofNat (0xdc00 + (c.toNat - 0x10000) % 0x400)).toNat =
        0xdc00 + (c.toNat - 0x10000) % 0x400 := by
      rw [UInt16.toNat_ofNat']
      omega
    refine .inr ⟨_, _, if_neg h, ?_, ?_, by omega, by omega, hhi, hlo⟩
    · rw [IsHigh, hhi]
      omega
    · rw [IsLow, hlo]
      omega

lemma getUtf16_spec (c : Char) (rest : Bytes) :
    getUtf16 (wcharBytes (utf16Units c) ++ rest) =
      .ok ((wcharBytes (utf16Units c)).length, c.val) := by
  rcases utf16_cases c with ⟨u, hunits, hu, hhigh, hlow⟩ |
    ⟨hi, lo, hunits, hhigh, hlow, hmin, hmax, hhi, hlo⟩
  · have hread : GET_A2 (wcharBytes (utf16Units c) ++ rest) = c.val := by
      rw [hunits]
      refine (GET_A2_unit u rest).trans (UInt32.toNat_inj.mp ?_)
      rw [UInt16.toNat_toUInt32, hu]
      rfl
    have hkind : ¬ c.val &&& 0xfc00 = 0xd800 := by
      have hsmall : c.val.toNat < 0x10000 := by
        change c.toNat < 0x10000
        exact hu ▸ u.toNat_lt
      rw [kind_iff hsmall 0xd800 (by decide)]
      rw [IsHigh, hu] at hhigh
      change ¬ (0xd800 ≤ c.toNat ∧ c.toNat < 0xd800 + 0x400)
      omega
    rw [getUtf16, hread, if_neg (by simp [hunits, wcharBytes]), if_neg fun h => hkind h.1, hunits]
    rfl
  · have hread : GET_A2 (wcharBytes (utf16Units c) ++ rest) = hi.toUInt32 := by
      rw [hunits]
      exact GET_A2_unit hi _
    have hread' : GET_A2 ((wcharBytes (utf16Units c) ++ rest).drop 2) = lo.toUInt32 := by
      rw [hunits]
      exact GET_A2_unit lo rest
    have hkind : hi.toUInt32 &&& 0xfc00 = 0xd800 := by
      rw [kind_iff (c := hi.toUInt32) hi.toNat_lt 0xd800 (by decide)]
      exact ⟨hhigh.1, Nat.lt_succ_of_le hhigh.2⟩
    have hkind' : lo.toUInt32 &&& 0xfc00 = 0xdc00 := by
      rw [kind_iff (c := lo.toUInt32) lo.toNat_lt 0xdc00 (by decide)]
      exact ⟨hlow.1, Nat.lt_succ_of_le hlow.2⟩
    have hlen : 4 ≤ (wcharBytes (utf16Units c) ++ rest).length := by
      simp [hunits, wcharBytes]
    rw [getUtf16, hread, hread', if_neg (by omega), if_pos ⟨hkind, hlen, hkind'⟩, hunits]
    refine congrArg (fun x => Except.ok (4, x)) (UInt32.toNat_inj.mp ?_)
    have hshift : (hi.toUInt32 <<< 10).toNat = hi.toNat * 2 ^ 10 := by
      rw [UInt32.toNat_shiftLeft, UInt16.toNat_toUInt32]
      change hi.toNat <<< 10 % 2 ^ 32 = _
      rw [Nat.shiftLeft_eq]
      omega
    have hval : c.val.toNat = c.toNat := rfl
    rw [UInt32.toNat_sub, UInt32.toNat_add, hshift, UInt16.toNat_toUInt32, hval]
    change (2 ^ 32 - 0x35fdc00 + (hi.toNat * 2 ^ 10 + lo.toNat) % 2 ^ 32) % 2 ^ 32 = c.toNat
    omega

lemma putUtf16_spec (c : Char) {buf : Bytes}
    (hroom : (wcharBytes (utf16Units c)).length ≤ buf.length) :
    putUtf16 buf c.val = .ok (wcharBytes (utf16Units c) ++
      buf.drop (wcharBytes (utf16Units c)).length, (wcharBytes (utf16Units c)).length) := by
  have hval : c.val.toNat = c.toNat := rfl
  rcases utf16_cases c with ⟨u, hunits, hu, -, -⟩ | ⟨hi, lo, hunits, -, -, hmin, hmax, hhi, hlo⟩
  · rw [hunits] at hroom ⊢
    have hlt := u.toNat_lt
    obtain ⟨b₀, b₁, rest, rfl⟩ : ∃ b₀ b₁ rest, buf = b₀ :: b₁ :: rest := by
      match buf, hroom with
      | b₀ :: b₁ :: rest, _ => exact ⟨b₀, b₁, rest, rfl⟩
    have hsmall : c.val < 0x10000 := by
      change c.toNat < 0x10000
      omega
    have hvalid : ¬ 0x110000 ≤ c.val := by
      change ¬ 0x110000 ≤ c.toNat
      omega
    rw [putUtf16, if_neg hvalid, if_pos hsmall]
    exact congrArg (fun x => Except.ok (x, 2)) (PUT_A2_unit hu.symm [] b₀ b₁ rest)
  · rw [hunits] at hroom ⊢
    obtain ⟨b₀, b₁, b₂, b₃, rest, rfl⟩ :
        ∃ b₀ b₁ b₂ b₃ rest, buf = b₀ :: b₁ :: b₂ :: b₃ :: rest := by
      match buf, hroom with
      | b₀ :: b₁ :: b₂ :: b₃ :: rest, _ => exact ⟨b₀, b₁, b₂, b₃, rest, rfl⟩
    have hlarge : ¬ c.val < 0x10000 := by
      change ¬ c.toNat < 0x10000
      omega
    have hvalid : ¬ 0x110000 ≤ c.val := by
      change ¬ 0x110000 ≤ c.toNat
      omega
    have hoff : (c.val - 0x10000).toNat = c.toNat - 0x10000 := by
      rw [UInt32.toNat_sub_of_le _ _ (Nat.le_of_not_lt hlarge)]
      rfl
    have hfirst : (0xd800 + (c.val - 0x10000) >>> (10 : UInt32)).toNat = hi.toNat := by
      have := shiftRight_toNat (c.val - 0x10000) 10 (by decide)
      rw [UInt32.toNat_add, this, hoff]
      change (0xd800 + (c.toNat - 0x10000) / 2 ^ 10) % 2 ^ 32 = _
      omega
    have hsecond : (0xdc00 + ((c.val - 0x10000) &&& 0x3ff)).toNat = lo.toNat := by
      rw [UInt32.toNat_add, UInt32.toNat_and, hoff]
      change (0xdc00 + ((c.toNat - 0x10000) &&& 2 ^ 10 - 1)) % 2 ^ 32 = _
      rw [Nat.and_two_pow_sub_one_eq_mod]
      omega
    rw [putUtf16, if_neg hvalid, if_neg hlarge]
    have hput := PUT_A2_unit hfirst [] b₀ b₁ (b₂ :: b₃ :: rest)
    refine congrArg (fun x => Except.ok (x, 4)) ?_
    refine (congrArg (PUT_A2 · 2 _) hput).trans ?_
    exact PUT_A2_unit hsecond (wcharBytes [hi]) b₂ b₃ rest

end Units

end EncFS.Fuse4Win
