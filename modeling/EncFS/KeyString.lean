import EncFS.CipherKey
import EncFS.NameIO

set_option autoImplicit false

namespace EncFS

def drainWork (dst2Pow : ℕ) : (fuel work workBits : ℕ) → Bytes × ℕ × ℕ
  | 0, work, workBits => ([], work, workBits)
  | fuel + 1, work, workBits =>
    if dst2Pow ≤ workBits then
      let (out, work', workBits') := drainWork dst2Pow fuel (work >>> dst2Pow) (workBits - dst2Pow)
      (UInt8.ofNat (work % 2 ^ dst2Pow) :: out, work', workBits')
    else
      ([], work, workBits)

def changeBits (src2Pow dst2Pow : ℕ) : (src : Bytes) → (work workBits : ℕ) → Bytes × ℕ × ℕ
  | [], work, workBits => ([], work, workBits)
  | s :: src, work, workBits =>
    let work := work ||| s.toNat <<< workBits
    let workBits := workBits + src2Pow
    -- every pass takes bits out of the work buffer, so there are at most `workBits` of them
    let (out, work, workBits) := drainWork dst2Pow workBits work workBits
    let (out', work, workBits) := changeBits src2Pow dst2Pow src work workBits
    (out ++ out', work, workBits)

def changeBase2 (src : Bytes) (src2Pow dstLen dst2Pow : ℕ) : Bytes :=
  let (out, work, workBits) := changeBits src2Pow dst2Pow src 0 0
  if workBits ≠ 0 ∧ out.length < dstLen then
    out ++ [UInt8.ofNat (work % 2 ^ dst2Pow)]
  else
    out

section Conversion

variable {src2Pow dst2Pow value bits : ℕ}

lemma drainWork_spec {src : Bytes} (hpos : 0 < dst2Pow) {fuel work workBits : ℕ}
    (h : Pending src2Pow src work workBits value bits) (hfuel : workBits ≤ fuel) :
    ∃ work', drainWork dst2Pow fuel work workBits =
        ((digitsUpTo (2 ^ dst2Pow) (workBits / dst2Pow) value).map UInt8.ofNat, work',
          workBits % dst2Pow) ∧
      Pending src2Pow src work' (workBits % dst2Pow)
        (value / (2 ^ dst2Pow) ^ (workBits / dst2Pow)) (bits - dst2Pow * (workBits / dst2Pow)) := by
  induction fuel generalizing work workBits value bits with
  | zero =>
    obtain rfl : workBits = 0 := by omega
    exact ⟨work, by simp [drainWork, digitsUpTo], by simpa using h⟩
  | succ fuel ih =>
    rw [drainWork]
    by_cases hle : dst2Pow ≤ workBits
    · obtain ⟨hdigit, hdrop⟩ := h.drop hle
      obtain ⟨work', hrun, hrest⟩ := ih hdrop (by omega)
      have hcount : workBits / dst2Pow = (workBits - dst2Pow) / dst2Pow + 1 :=
        Nat.div_eq_sub_div hpos hle
      have hmod : (workBits - dst2Pow) % dst2Pow = workBits % dst2Pow :=
        (Nat.mod_eq_sub_mod hle).symm
      refine ⟨work', ?_, ?_⟩
      · rw [if_pos hle, hrun, hcount, digitsUpTo, List.map_cons, hdigit, hmod]
      · rw [hcount, pow_succ', ← Nat.div_div_eq_div_mul, Nat.mul_succ, Nat.add_comm (dst2Pow * _),
          ← Nat.sub_sub, ← hmod]
        exact hrest
    · have hlt := Nat.not_le.mp hle
      rw [if_neg hle, Nat.div_eq_of_lt hlt, Nat.mod_eq_of_lt hlt]
      exact ⟨work, by simp [digitsUpTo], by simpa using h⟩

lemma changeBits_spec (hpos : 0 < dst2Pow) {src : Bytes} {work workBits : ℕ}
    (h : Pending src2Pow src work workBits value bits) (hlt : workBits < dst2Pow) :
    changeBits src2Pow dst2Pow src work workBits =
      ((digitsUpTo (2 ^ dst2Pow) (bits / dst2Pow) value).map UInt8.ofNat,
        value / (2 ^ dst2Pow) ^ (bits / dst2Pow), bits % dst2Pow) := by
  induction src generalizing work workBits value bits with
  | nil =>
    obtain ⟨rfl, rfl⟩ := h.value_nil
    simp [changeBits, Nat.div_eq_of_lt hlt, Nat.mod_eq_of_lt hlt, digitsUpTo]
  | cons s src ih =>
    obtain ⟨work', hrun, hrest⟩ := drainWork_spec hpos h.push (Nat.le_refl _)
    have hsum := h.push.bits_eq
    rw [changeBits]
    dsimp only
    generalize workBits + src2Pow = workBits at *
    rw [hrun]
    dsimp only
    rw [ih hrest (Nat.mod_lt _ hpos)]
    have hbits : bits = bits - dst2Pow * (workBits / dst2Pow) + dst2Pow * (workBits / dst2Pow) := by
      have := Nat.mul_div_le workBits dst2Pow
      omega
    have hcount : bits / dst2Pow =
        workBits / dst2Pow + (bits - dst2Pow * (workBits / dst2Pow)) / dst2Pow := by
      conv_lhs => rw [hbits, Nat.add_mul_div_left _ _ hpos, Nat.add_comm]
    have hmod : bits % dst2Pow = (bits - dst2Pow * (workBits / dst2Pow)) % dst2Pow := by
      conv_lhs => rw [hbits, Nat.add_mul_mod_self_left]
    rw [hcount, hmod, digitsUpTo_add, List.map_append, Nat.div_div_eq_div_mul, ← pow_add]

lemma changeBase2_eq (hpos : 0 < dst2Pow) {src : Bytes} (h : Pending src2Pow src 0 0 value bits)
    (dstLen : ℕ) :
    changeBase2 src src2Pow dstLen dst2Pow =
      (digitsUpTo (2 ^ dst2Pow)
        (bits / dst2Pow + if bits % dst2Pow ≠ 0 ∧ bits / dst2Pow < dstLen then 1 else 0)
        value).map UInt8.ofNat := by
  rw [changeBase2, changeBits_spec hpos h hpos]
  simp only [List.length_map, digitsUpTo_length]
  split
  · rw [digitsUpTo_add, List.map_append]
    rfl
  · rfl

lemma changeBase2_encode (src : Bytes) :
    changeBase2 src 8 (B256ToB64Bytes src.length) 6 =
      (digitsUpTo 64 (B256ToB64Bytes src.length)
        (Nat.ofDigits 256 (src.map UInt8.toNat))).map UInt8.ofNat := by
  have hcount : (src.length * 8 / 6 + if src.length * 8 % 6 ≠ 0 ∧
      src.length * 8 / 6 < B256ToB64Bytes src.length then 1 else 0) =
      B256ToB64Bytes src.length := by
    rw [B256ToB64Bytes]
    split <;> omega
  rw [changeBase2_eq (by decide) (bytes_pending src), hcount]
  rfl

end Conversion

def lastSymbolBits (n : ℕ) : ℕ := 8 * n - 6 * (B256ToB64Bytes n - 1)

section LastSymbol

lemma lowBits_toNat (last : UInt8) (k : ℕ) :
    (UInt8.ofNat (last.toNat % 2 ^ k)).toNat = last.toNat % 2 ^ k := by
  rw [UInt8.toNat_ofNat']
  exact Nat.mod_eq_of_lt (Nat.lt_of_le_of_lt (Nat.mod_le _ _) last.toNat_lt)

lemma bytes_of_digits {n : ℕ} {init : Bytes} (hn : n = init.length + 1) (last : UInt8) :
    digitsUpTo 256 n (Nat.ofDigits 256 ((init ++ [last]).map UInt8.toNat) %
        64 ^ (B256ToB64Bytes n - 1)) =
      (init ++ [UInt8.ofNat (last.toNat % 2 ^ (8 - lastSymbolBits n))]).map UInt8.toNat := by
  have hsplit : 64 ^ (B256ToB64Bytes n - 1) = 256 ^ init.length * 2 ^ (8 - lastSymbolBits n) := by
    rw [show 256 = 2 ^ 8 from rfl, show 64 = 2 ^ 6 from rfl, ← pow_mul, ← pow_mul, ← pow_add]
    congr 1
    rw [lastSymbolBits, B256ToB64Bytes]
    omega
  have hvalue : Nat.ofDigits 256 ((init ++ [last]).map UInt8.toNat) %
      64 ^ (B256ToB64Bytes n - 1) = Nat.ofDigits 256
        ((init ++ [UInt8.ofNat (last.toNat % 2 ^ (8 - lastSymbolBits n))]).map UInt8.toNat) := by
    simp only [List.map_append, Nat.ofDigits_append, List.length_map, List.map_singleton,
      Nat.ofDigits_singleton, lowBits_toNat]
    rw [hsplit, Nat.mod_mul, Nat.add_mul_mod_self_left, Nat.mod_eq_of_lt (ofDigits_bytes_lt init),
      Nat.add_mul_div_left _ _ (by positivity), Nat.div_eq_of_lt (ofDigits_bytes_lt init),
      Nat.zero_add]
  have hback := digitsUpTo_bytes
    (init ++ [UInt8.ofNat (last.toNat % 2 ^ (8 - lastSymbolBits n))])
  rw [List.length_append, List.length_singleton, ← hn] at hback
  rw [hvalue, hback]

end LastSymbol

namespace KeyCipher

def keyLength : KeyCipher → ℕ
  | ssl S => S.keySize + S.ivLength
  | null => 0

def encodeAsString (C : KeyCipher) (key _encodingKey : Bytes) : Option Bytes :=
  let keyBuf := C.writeKey key key
  let b64Len := B256ToB64Bytes C.encodedKeySize
  let b64Key := B64ToAscii (changeBase2 keyBuf 8 b64Len 6)
  if b64Len = 0 then none else some (cString (b64Key.set (b64Len - 1) 0))

def decodeString (C : KeyCipher) (str : Bytes) : Bytes :=
  changeBase2 (AsciiToB64 str) 6 C.encodedKeySize 8

variable {C : KeyCipher} {key : Bytes}

lemma writeKey_length (hkey : key.length = C.keyLength) :
    (C.writeKey key key).length = C.encodedKeySize := by
  cases C with
  | ssl S => exact SSL_Cipher.writeKey_length key hkey
  | null => rfl

lemma encodeAsString_eq (hkey : key.length = C.keyLength) (encodingKey : Bytes)
    (hpos : 0 < C.encodedKeySize) :
    C.encodeAsString key encodingKey = some
      ((digitsUpTo 64 (B256ToB64Bytes C.encodedKeySize - 1)
        (Nat.ofDigits 256 ((C.writeKey key key).map UInt8.toNat))).map
          fun d => B64ToAsciiChar (UInt8.ofNat d)) := by
  have hlen : B256ToB64Bytes C.encodedKeySize = B256ToB64Bytes C.encodedKeySize - 1 + 1 := by
    rw [B256ToB64Bytes]
    omega
  have hencoded := changeBase2_encode (C.writeKey key key)
  rw [writeKey_length hkey] at hencoded
  rw [encodeAsString, hencoded, if_neg (by omega), B64ToAscii, List.map_map]
  generalize B256ToB64Bytes C.encodedKeySize - 1 = l at hlen
  rw [hlen, digitsUpTo_add, List.map_append]
  refine congrArg some ((congrArg cString ?_).trans (cString_terminated (r := []) ?_))
  · rw [List.set_append_right _ _ (by simp)]
    simp [digitsUpTo]
  · intro hm
    obtain ⟨d, hd, hz⟩ := List.mem_map.mp hm
    exact (b64ToAscii_plain d (digitsUpTo_lt (by decide) _ _ d hd)).1 hz

lemma decodeString_eq (hkey : key.length = C.keyLength) (encodingKey : Bytes) {init : Bytes}
    {last : UInt8} (hdata : C.writeKey key key = init ++ [last]) :
    ∃ str, C.encodeAsString key encodingKey = some str ∧ C.decodeString str =
      init ++ [UInt8.ofNat (last.toNat % 2 ^ (8 - lastSymbolBits C.encodedKeySize))] := by
  have hsize : C.encodedKeySize = init.length + 1 := by
    rw [← writeKey_length hkey, hdata, List.length_append, List.length_singleton]
  refine ⟨_, encodeAsString_eq hkey encodingKey (by omega), ?_⟩
  have hdigits := bytes_of_digits hsize last
  rw [hdata]
  generalize Nat.ofDigits 256 ((init ++ [last]).map UInt8.toNat) = value at hdigits
  have hsymbols : AsciiToB64 ((digitsUpTo 64 (B256ToB64Bytes C.encodedKeySize - 1) value).map
      fun d => B64ToAsciiChar (UInt8.ofNat d)) =
      (digitsUpTo 64 (B256ToB64Bytes C.encodedKeySize - 1)
        (value % 64 ^ (B256ToB64Bytes C.encodedKeySize - 1))).map UInt8.ofNat := by
    rw [digitsUpTo_mod, AsciiToB64, List.map_map]
    exact List.map_congr_left fun d hd =>
      asciiToB64_b64ToAscii d (digitsUpTo_lt (by decide) _ _ d hd)
  have hcount : (B256ToB64Bytes C.encodedKeySize - 1) * 6 / 8 +
      (if (B256ToB64Bytes C.encodedKeySize - 1) * 6 % 8 ≠ 0 ∧
        (B256ToB64Bytes C.encodedKeySize - 1) * 6 / 8 < C.encodedKeySize then 1 else 0) =
      C.encodedKeySize := by
    rw [B256ToB64Bytes]
    split <;> omega
  have hpending := digits_pending
    (Nat.mod_lt value (Nat.two_pow_pos 6 |> Nat.pow_pos (n := B256ToB64Bytes C.encodedKeySize - 1)))
  rw [decodeString, hsymbols, changeBase2_eq (by decide) hpending, hcount]
  change (digitsUpTo 256 C.encodedKeySize _).map UInt8.ofNat = _
  rw [hdigits, List.map_map]
  exact (List.map_congr_left fun s _ => UInt8.ofNat_toNat).trans (List.map_id _)

lemma encodeAsString_congr {key' : Bytes} (hkey : key.length = C.keyLength)
    (hkey' : key'.length = C.keyLength) (encodingKey encodingKey' : Bytes) {init : Bytes}
    {last last' : UInt8} (hdata : C.writeKey key key = init ++ [last])
    (hdata' : C.writeKey key' key' = init ++ [last'])
    (hbits : last.toNat % 2 ^ (8 - lastSymbolBits C.encodedKeySize) =
      last'.toNat % 2 ^ (8 - lastSymbolBits C.encodedKeySize)) :
    C.encodeAsString key encodingKey = C.encodeAsString key' encodingKey' := by
  have hsize : C.encodedKeySize = init.length + 1 := by
    rw [← writeKey_length hkey, hdata, List.length_append, List.length_singleton]
  have hlt (l : UInt8) : Nat.ofDigits 256 ((init ++ [l]).map UInt8.toNat) %
      64 ^ (B256ToB64Bytes C.encodedKeySize - 1) < 256 ^ C.encodedKeySize := by
    apply Nat.lt_of_le_of_lt (Nat.mod_le _ _)
    have := ofDigits_bytes_lt (init ++ [l])
    rwa [List.length_append, List.length_singleton, ← hsize] at this
  have hdigits := (bytes_of_digits hsize last).trans
    ((congrArg (fun l => (init ++ [UInt8.ofNat l]).map UInt8.toNat) hbits).trans
      (bytes_of_digits hsize last').symm)
  rw [digitsUpTo_inj, Nat.mod_eq_of_lt (hlt last), Nat.mod_eq_of_lt (hlt last'),
    ← digitsUpTo_inj] at hdigits
  rw [encodeAsString_eq hkey encodingKey (by omega), encodeAsString_eq hkey' encodingKey' (by omega),
    hdata, hdata', hdigits]

lemma encodeAsString_of_nil (hkey : key.length = C.keyLength) (encodingKey : Bytes)
    (hdata : C.writeKey key key = []) : C.encodeAsString key encodingKey = none := by
  have hsize := writeKey_length hkey
  rw [hdata, List.length_nil] at hsize
  rw [encodeAsString, ← hsize]
  rfl

/-- The last byte has no bit that the lost symbol carries. -/
def LosesNothing (C : KeyCipher) (key : Bytes) : Prop :=
  ∃ init last, C.writeKey key key = init ++ [last] ∧
    last.toNat < 2 ^ (8 - lastSymbolBits C.encodedKeySize)

/-- The encoded bytes of two keys are the same but for bits that the lost symbol carries. -/
def DifferInLost (C : KeyCipher) (key key' : Bytes) : Prop :=
  ∃ init last last', C.writeKey key key = init ++ [last] ∧ C.writeKey key' key' = init ++ [last'] ∧
    last ≠ last' ∧ last.toNat % 2 ^ (8 - lastSymbolBits C.encodedKeySize) =
      last'.toNat % 2 ^ (8 - lastSymbolBits C.encodedKeySize)

lemma decodes_iff (hkey : key.length = C.keyLength) (encodingKey : Bytes) :
    (∃ str, C.encodeAsString key encodingKey = some str ∧
      C.decodeString str = C.writeKey key key) ↔ C.LosesNothing key := by
  have hlow (last : UInt8) : UInt8.ofNat (last.toNat %
      2 ^ (8 - lastSymbolBits C.encodedKeySize)) = last ↔
      last.toNat < 2 ^ (8 - lastSymbolBits C.encodedKeySize) := by
    rw [← UInt8.toNat_inj, lowBits_toNat]
    exact Nat.mod_eq_iff_lt (by positivity)
  constructor
  · rintro ⟨str, hstr, hback⟩
    rcases List.eq_nil_or_concat (C.writeKey key key) with hnil | ⟨init, last, hdata⟩
    · rw [encodeAsString_of_nil hkey encodingKey hnil] at hstr
      cases hstr
    · rw [List.concat_eq_append] at hdata
      obtain ⟨str', hstr', hback'⟩ := decodeString_eq hkey encodingKey hdata
      cases hstr.symm.trans hstr'
      rw [hback', hdata] at hback
      have hlast := List.cons.inj (List.append_cancel_left hback) |>.1
      exact ⟨init, last, hdata, (hlow last).mp hlast⟩
  · rintro ⟨init, last, hdata, hlt⟩
    obtain ⟨str, hstr, hback⟩ := decodeString_eq hkey encodingKey hdata
    exact ⟨str, hstr, by rw [hback, (hlow last).mpr hlt, hdata]⟩

lemma distinguishes_iff {key' : Bytes} (hkey : key.length = C.keyLength)
    (hkey' : key'.length = C.keyLength) (encodingKey encodingKey' : Bytes) :
    (C.writeKey key key ≠ C.writeKey key' key' →
      C.encodeAsString key encodingKey ≠ C.encodeAsString key' encodingKey') ↔
      ¬ C.DifferInLost key key' := by
  constructor
  · rintro hdistinct ⟨init, last, last', hdata, hdata', hne, hbits⟩
    refine hdistinct ?_ (encodeAsString_congr hkey hkey' _ _ hdata hdata' hbits)
    rw [hdata, hdata']
    intro h
    exact hne (List.cons.inj (List.append_cancel_left h)).1
  · intro hdiffer hne hsame
    have hlen := (writeKey_length hkey).trans (writeKey_length hkey').symm
    rcases List.eq_nil_or_concat (C.writeKey key key) with hnil | ⟨init, last, hdata⟩
    · rw [hnil, List.length_nil] at hlen
      exact hne (hnil.trans (List.length_eq_zero_iff.mp hlen.symm).symm)
    rcases List.eq_nil_or_concat (C.writeKey key' key') with hnil | ⟨init', last', hdata'⟩
    · rw [hnil, List.length_nil] at hlen
      exact hne ((List.length_eq_zero_iff.mp hlen).trans hnil.symm)
    rw [List.concat_eq_append] at hdata hdata'
    obtain ⟨str, hstr, hback⟩ := decodeString_eq hkey encodingKey hdata
    obtain ⟨str', hstr', hback'⟩ := decodeString_eq hkey' encodingKey' hdata'
    cases hstr.symm.trans (hsame.trans hstr')
    obtain ⟨rfl, hlast⟩ := List.append_inj' (hback.symm.trans hback') rfl
    have hbits := congrArg UInt8.toNat (List.cons.inj hlast).1
    rw [lowBits_toNat, lowBits_toNat] at hbits
    refine hdiffer ⟨init, last, last', hdata, hdata', ?_, hbits⟩
    rintro rfl
    exact hne (hdata.trans hdata'.symm)

/-- The string gives the encoded bytes back where no bit of the last one is lost, and it tells two
keys apart unless they differ in lost bits only. -/
theorem encodeAsString_determines (hkey : key.length = C.keyLength) (encodingKey : Bytes) :
    ((∃ str, C.encodeAsString key encodingKey = some str ∧
      C.decodeString str = C.writeKey key key) ↔ C.LosesNothing key) ∧
    ∀ key' encodingKey' : Bytes, key'.length = C.keyLength →
      ((C.writeKey key key ≠ C.writeKey key' key' →
        C.encodeAsString key encodingKey ≠ C.encodeAsString key' encodingKey') ↔
        ¬ C.DifferInLost key key') :=
  ⟨decodes_iff hkey encodingKey, fun _ encodingKey' hkey' =>
    distinguishes_iff hkey hkey' encodingKey encodingKey'⟩

theorem encodeAsString_determines_three : (ssl maskSSL).LosesNothing [3, 0] ∧
    ∃ str, (ssl maskSSL).encodeAsString [3, 0] [] = some str ∧
      (ssl maskSSL).decodeString str = (ssl maskSSL).writeKey [3, 0] [3, 0] := by
  have hlast : (ssl maskSSL).LosesNothing [3, 0] :=
    ⟨[0, 100, 2, 1, 0], 3, by decide, by decide⟩
  exact ⟨hlast, (encodeAsString_determines (C := ssl maskSSL) rfl []).1.mpr hlast⟩

theorem not_encodeAsString_determines : ¬ ∀ (C : KeyCipher) (key : Bytes),
    key.length = C.keyLength → ∃ str, C.encodeAsString key key = some str ∧
      C.decodeString str = C.writeKey key key := by
  intro h
  obtain ⟨str, hstr, hback⟩ := h (ssl maskSSL) [4, 0] rfl
  have hstr' : (ssl maskSSL).encodeAsString [4, 0] [4, 0] =
      some [44, 69, 97, 82, 122, 45, 44] := by decide
  cases hstr.symm.trans hstr'
  exact absurd hback (by decide)

end KeyCipher

end EncFS
