import EncFS.Base64
import EncFS.Buffer

set_option autoImplicit false

namespace EncFS

open Buffer

namespace InPlace

def fillWork (buf : Bytes) (src2Pow dst2Pow : ℕ) :
    (srcLen src work workBits : ℕ) → Option (ℕ × ℕ × ℕ × ℕ)
  | 0, src, work, workBits => some (0, src, work, workBits)
  | srcLen + 1, src, work, workBits =>
    if workBits < dst2Pow then do
      let s ← readAt buf src
      fillWork buf src2Pow dst2Pow srcLen (src + 1) (work ||| s.toNat <<< workBits)
        (workBits + src2Pow)
    else
      some (srcLen + 1, src, work, workBits)

def changeBase2Inline (src2Pow dst2Pow : ℕ) (outputPartialLastByte : Bool) :
    (fuel : ℕ) → (buf : Bytes) → (srcLen src work workBits outLoc : ℕ) → Option Bytes
  | 0, _, _, _, _, _, _ => none
  | fuel + 1, buf, srcLen, src, work, workBits, outLoc => do
    let (srcLen, src, work, workBits) ← fillWork buf src2Pow dst2Pow srcLen src work workBits
    let outVal := UInt8.ofNat (work % 2 ^ dst2Pow)
    let work := work >>> dst2Pow
    if srcLen = 0 then do
      let buf ← writeAt buf outLoc outVal
      if workBits ≠ dst2Pow ∧ outputPartialLastByte then
        writeAt buf (outLoc + 1) (UInt8.ofNat (work % 2 ^ dst2Pow))
      else
        some buf
    else do
      let buf ← changeBase2Inline src2Pow dst2Pow outputPartialLastByte fuel buf srcLen src work
        (workBits - dst2Pow) (outLoc + 1)
      writeAt buf outLoc outVal

def B64ToAsciiChar (ch : UInt8) : Option UInt8 :=
  if 11 < ch then
    if 37 < ch then some (ch + (97 - 38)) else some (ch + (65 - 12))
  else
    readAt B642AsciiTable ch.toNat

def B64ToAscii : (length offset : ℕ) → (buf : Bytes) → Option Bytes
  | 0, _, buf => some buf
  | length + 1, offset, buf => do
    let ch ← readAt buf offset
    let ch ← B64ToAsciiChar ch
    let buf ← writeAt buf offset ch
    B64ToAscii length (offset + 1) buf

def AsciiToB64Char (ch : UInt8) : Option UInt8 :=
  if 65 ≤ ch then
    if 97 ≤ ch then some (ch + 38 - 97) else some (ch + 12 - 65)
  else do
    let d ← readAt Ascii2B64Table ch.toNat
    some (d - 48)

def AsciiToB64 (src : Bytes) : (length offset : ℕ) → (out : Bytes) → Option Bytes
  | 0, _, out => some out
  | length + 1, offset, out => do
    let ch ← readAt src offset
    let ch ← AsciiToB64Char ch
    let out ← writeAt out offset ch
    AsciiToB64 src length (offset + 1) out

def translate (f : UInt8 → Option UInt8) : (length offset : ℕ) → (buf : Bytes) → Option Bytes
  | 0, _, buf => some buf
  | length + 1, offset, buf => do
    let ch ← readAt buf offset
    let ch ← f ch
    let buf ← writeAt buf offset ch
    translate f length (offset + 1) buf

def AsciiToB64Inline : (length offset : ℕ) → (buf : Bytes) → Option Bytes :=
  translate AsciiToB64Char

section Conversion

variable {src2Pow dst2Pow : ℕ}

lemma fillWork_eq {buf input : Bytes} {src : ℕ} (h : input <+: buf.drop src) (work workBits : ℕ) :
    ∃ rest work' workBits' src', EncFS.fillWork src2Pow dst2Pow input work workBits =
        (rest, work', workBits') ∧
      fillWork buf src2Pow dst2Pow input.length src work workBits =
        some (rest.length, src', work', workBits') ∧
      rest <+: buf.drop src' ∧ (rest = [] ∨ dst2Pow ≤ workBits') ∧
      (workBits' = workBits ∨ workBits' < dst2Pow + src2Pow) ∧
      workBits' + rest.length * src2Pow = workBits + input.length * src2Pow := by
  induction input generalizing src work workBits with
  | nil => exact ⟨[], work, workBits, src, rfl, rfl, List.nil_prefix, .inl rfl, .inl rfl, rfl⟩
  | cons s input ih =>
    obtain ⟨hread, htail, -⟩ := readAt_head h
    by_cases hlt : workBits < dst2Pow
    · obtain ⟨rest, work', workBits', src', he, he', hrest, hfull, hle, hbits⟩ :=
        ih htail (work ||| s.toNat <<< workBits) (workBits + src2Pow)
      refine ⟨rest, work', workBits', src', ?_, ?_, hrest, hfull, by omega, ?_⟩
      · rw [EncFS.fillWork, if_pos hlt, he]
      · rw [List.length_cons, fillWork, if_pos hlt, hread]
        exact he'
      · rw [hbits, List.length_cons, Nat.succ_mul]
        omega
    · refine ⟨s :: input, work, workBits, src, ?_, ?_, h, .inr (Nat.not_lt.mp hlt), .inl rfl, rfl⟩
      · rw [EncFS.fillWork, if_neg hlt]
      · rw [List.length_cons, fillWork, if_neg hlt]

lemma changeBase2Inline_eq {outputPartialLastByte : Bool} {fuel : ℕ} {buf input : Bytes}
    {src work workBits outLoc : ℕ} (h : input <+: buf.drop src) (hne : input ≠ [])
    (hsrc : 0 < src2Pow) (hfuel : workBits + input.length * src2Pow ≤ fuel * dst2Pow)
    (hroom : outLoc + (EncFS.changeBase2Inline src2Pow dst2Pow outputPartialLastByte fuel input work
      workBits).length ≤ buf.length) :
    changeBase2Inline src2Pow dst2Pow outputPartialLastByte fuel buf input.length src work workBits
        outLoc =
      some (overwrite buf outLoc (EncFS.changeBase2Inline src2Pow dst2Pow outputPartialLastByte fuel
        input work workBits)) := by
  have hpos := List.length_pos_iff.mpr hne
  induction fuel generalizing buf input src work workBits outLoc with
  | zero =>
    have := Nat.mul_pos hpos hsrc
    omega
  | succ fuel ih =>
    obtain ⟨rest, work', workBits', src', he, he', hrest, hfull, -, hbits⟩ :=
      @fillWork_eq src2Pow dst2Pow _ _ _ h work workBits
    rw [EncFS.changeBase2Inline, he] at hroom ⊢
    rw [changeBase2Inline, he']
    simp only [Option.bind_eq_bind, Option.bind_some, List.length_eq_zero_iff] at hroom ⊢
    by_cases hend : rest = []
    · rw [if_pos hend] at hroom ⊢
      rw [if_pos hend]
      by_cases hmore : workBits' ≠ dst2Pow ∧ outputPartialLastByte = true
      · rw [if_pos hmore] at hroom ⊢
        rw [List.length_cons, List.length_singleton] at hroom
        rw [writeAt_eq (by omega), Option.bind_some, if_pos hmore,
          writeAt_eq (by rw [overwrite_length (by rw [List.length_singleton]; omega)]; omega)]
        exact congrArg some (overwrite_append (by rw [List.length_singleton]; omega))
      · rw [if_neg hmore] at hroom ⊢
        rw [List.length_singleton] at hroom
        rw [writeAt_eq (by omega), Option.bind_some, if_neg hmore]
    · rw [if_neg hend] at hroom ⊢
      rw [if_neg hend]
      rw [List.length_cons] at hroom
      have hfull := hfull.resolve_left hend
      have hfuel' : workBits' - dst2Pow + rest.length * src2Pow ≤ fuel * dst2Pow := by
        rw [Nat.succ_mul] at hfuel
        omega
      have hroom' : outLoc + 1 + (EncFS.changeBase2Inline src2Pow dst2Pow outputPartialLastByte fuel
          rest (work' >>> dst2Pow) (workBits' - dst2Pow)).length ≤ buf.length := by
        omega
      have hlt : outLoc < (overwrite buf (outLoc + 1) (EncFS.changeBase2Inline src2Pow dst2Pow
          outputPartialLastByte fuel rest (work' >>> dst2Pow) (workBits' - dst2Pow))).length := by
        rw [overwrite_length hroom']
        omega
      rw [ih hrest hend hfuel' hroom' (List.length_pos_iff.mpr hend), Option.bind_some,
        writeAt_eq hlt]
      exact congrArg some (overwrite_prepend (d := [UInt8.ofNat (work' % 2 ^ dst2Pow)]) hroom')

lemma changeBase2Inline_length_le (fuel : ℕ) (input : Bytes) (work workBits : ℕ) :
    (EncFS.changeBase2Inline src2Pow dst2Pow false fuel input work workBits).length ≤ fuel := by
  induction fuel generalizing input work workBits with
  | zero => exact Nat.le_refl 0
  | succ fuel ih =>
    rw [EncFS.changeBase2Inline]
    simp only [Bool.false_eq_true, and_false, if_false]
    split
    · exact Nat.succ_le_succ (Nat.zero_le _)
    · exact Nat.succ_le_succ (ih _ _ _)

lemma changeBase2Inline_length_ge {fuel : ℕ} {input : Bytes} {work workBits : ℕ}
    (hbits : workBits < 8) (hfuel : (workBits + input.length * 6) / 8 ≤ fuel) :
    (workBits + input.length * 6) / 8 ≤
      (EncFS.changeBase2Inline 6 8 false fuel input work workBits).length := by
  induction fuel generalizing input work workBits with
  | zero => exact hfuel
  | succ fuel ih =>
    obtain ⟨rest, work', workBits', src', he, -, -, hfull, hle, hsum⟩ :=
      @fillWork_eq 6 8 input input 0 (List.prefix_refl _) work workBits
    rw [EncFS.changeBase2Inline, he]
    simp only [Bool.false_eq_true, and_false, if_false]
    by_cases hend : rest = []
    · rw [if_pos hend, List.length_singleton]
      rw [hend, List.length_nil] at hsum
      omega
    · rw [if_neg hend, List.length_cons]
      have hfull := hfull.resolve_left hend
      have hnext : (workBits' - 8 + rest.length * 6) / 8 ≤ (EncFS.changeBase2Inline 6 8 false fuel
          rest (work' >>> 8) (workBits' - 8)).length := ih (by omega) (by omega)
      omega

end Conversion

section Ascii

lemma B64ToAsciiChar_eq {ch : UInt8} : B64ToAsciiChar ch = some (EncFS.B64ToAsciiChar ch) := by
  rw [B64ToAsciiChar, EncFS.B64ToAsciiChar]
  by_cases h : 11 < ch
  · rw [if_pos h, if_pos h]
    split
    · rfl
    · rfl
  · rw [if_neg h, if_neg h]
    have hlt : ch.toNat < B642AsciiTable.length := by
      have : ch.toNat ≤ 11 := UInt8.le_iff_toNat_le.mp (UInt8.not_lt.mp h)
      exact Nat.lt_succ_of_le this
    rw [readAt, List.getD_eq_getElem?_getD, List.getElem?_eq_getElem hlt]
    rfl

lemma AsciiToB64Char_eq {ch : UInt8} : AsciiToB64Char ch = some (EncFS.AsciiToB64Char ch) := by
  rw [AsciiToB64Char, EncFS.AsciiToB64Char]
  by_cases h : 65 ≤ ch
  · rw [if_pos h, if_pos h]
    split
    · rfl
    · rfl
  · rw [if_neg h, if_neg h]
    have hlt : ch.toNat < Ascii2B64Table.length := by
      have : ch.toNat < 65 := UInt8.lt_iff_toNat_lt.mp (UInt8.not_le.mp h)
      exact this
    rw [readAt, List.getD_eq_getElem?_getD, List.getElem?_eq_getElem hlt]
    rfl

lemma translate_eq {f : UInt8 → Option UInt8} {g : UInt8 → UInt8} (hf : ∀ ch, f ch = some (g ch))
    {buf d : Bytes} {offset : ℕ} (h : d <+: buf.drop offset) :
    translate f d.length offset buf = some (overwrite buf offset (d.map g)) := by
  induction d generalizing buf offset with
  | nil =>
    rw [List.map_nil, overwrite_nil]
    rfl
  | cons ch d ih =>
    obtain ⟨hread, htail, hlt⟩ := readAt_head h
    have hroom : offset + [g ch].length ≤ buf.length := hlt
    have htail' : d <+: (overwrite buf offset [g ch]).drop (offset + 1) :=
      (overwrite_drop hroom).symm ▸ htail
    rw [List.length_cons, translate, hread, Option.bind_eq_bind, Option.bind_some, hf,
      Option.bind_eq_bind, Option.bind_some, writeAt_eq hlt, Option.bind_some, ih htail']
    exact congrArg some (overwrite_append hroom)

lemma B64ToAscii_translate : B64ToAscii = translate B64ToAsciiChar := by
  funext length
  induction length with
  | zero => rfl
  | succ length ih =>
    funext offset buf
    simp only [B64ToAscii, translate, ih]

lemma B64ToAscii_eq {buf d : Bytes} {offset : ℕ} (h : d <+: buf.drop offset) :
    B64ToAscii d.length offset buf = some (overwrite buf offset (EncFS.B64ToAscii d)) := by
  rw [B64ToAscii_translate]
  exact translate_eq (fun _ => B64ToAsciiChar_eq) h

lemma AsciiToB64Inline_eq {buf d : Bytes} {offset : ℕ} (h : d <+: buf.drop offset) :
    AsciiToB64Inline d.length offset buf = some (overwrite buf offset (EncFS.AsciiToB64 d)) :=
  translate_eq (fun _ => AsciiToB64Char_eq) h

lemma AsciiToB64_eq {src out d : Bytes} {offset : ℕ} (h : d <+: src.drop offset)
    (hroom : offset + d.length ≤ out.length) :
    AsciiToB64 src d.length offset out = some (overwrite out offset (EncFS.AsciiToB64 d)) := by
  induction d generalizing out offset with
  | nil =>
    rw [EncFS.AsciiToB64, List.map_nil, overwrite_nil]
    rfl
  | cons ch d ih =>
    obtain ⟨hread, htail, -⟩ := readAt_head h
    rw [List.length_cons] at hroom
    have hone : offset + [EncFS.AsciiToB64Char ch].length ≤ out.length := by
      rw [List.length_singleton]
      omega
    rw [List.length_cons, AsciiToB64, hread, Option.bind_eq_bind, Option.bind_some,
      AsciiToB64Char_eq, Option.bind_eq_bind, Option.bind_some, writeAt_eq (by omega),
      Option.bind_some, ih htail (by rw [overwrite_length hone]; omega)]
    exact congrArg some (overwrite_append hone)

lemma bytesToAscii_eq {buf d : Bytes} (hne : d ≠ []) (h : d <+: buf)
    (hroom : B256ToB64Bytes d.length ≤ buf.length) :
    (do
      let buf ← changeBase2Inline 8 6 true (d.length * 2) buf d.length 0 0 0 0
      B64ToAscii (B256ToB64Bytes d.length) 0 buf) = some (overwrite buf 0 (bytesToAscii d)) := by
  have hlen := bytesToAscii_length hne
  rw [bytesToAscii, EncFS.B64ToAscii, List.length_map] at hlen
  have hroom' : 0 + (EncFS.changeBase2Inline 8 6 true (d.length * 2) d 0 0).length ≤ buf.length := by
    omega
  rw [changeBase2Inline_eq (by rwa [List.drop_zero]) hne (by decide) (by omega) hroom',
    Option.bind_eq_bind, Option.bind_some, ← hlen, B64ToAscii_eq (prefix_overwrite hroom')]
  refine congrArg some (overwrite_again hroom' ?_)
  rw [EncFS.B64ToAscii, List.length_map]

lemma asciiToBytes_eq {src out : Bytes} (hne : src ≠ []) (hroom : out.length = src.length) :
    ∃ junk, (do
      let out ← AsciiToB64 src src.length 0 out
      changeBase2Inline 6 8 false src.length out src.length 0 0 0 0) =
        some (asciiToBytes src ++ junk) := by
  have hlen : (EncFS.AsciiToB64 src).length = src.length := List.length_map _
  have hne' : EncFS.AsciiToB64 src ≠ [] := by simpa [EncFS.AsciiToB64] using hne
  have hall : 0 + (EncFS.AsciiToB64 src).length ≤ out.length := by omega
  have hout : AsciiToB64 src src.length 0 out = some (overwrite out 0 (EncFS.AsciiToB64 src)) :=
    AsciiToB64_eq (List.prefix_refl src) (by omega)
  have hvalues : (asciiToBytes src).length ≤ src.length := changeBase2Inline_length_le _ _ _ _
  have hfuel : 0 + (EncFS.AsciiToB64 src).length * 6 ≤ src.length * 8 := by omega
  have hroom' : 0 + (asciiToBytes src).length ≤ (overwrite out 0 (EncFS.AsciiToB64 src)).length := by
    rw [overwrite_length hall]
    omega
  have hconv := changeBase2Inline_eq (prefix_overwrite hall) hne' (by decide) hfuel hroom'
  rw [hlen] at hconv
  refine ⟨(overwrite out 0 (EncFS.AsciiToB64 src)).drop (asciiToBytes src).length, ?_⟩
  rw [hout, Option.bind_eq_bind, Option.bind_some, hconv, overwrite_zero]
  rfl

lemma asciiToBytes_length_ge (src : Bytes) :
    B64ToB256Bytes src.length ≤ (asciiToBytes src).length := by
  have hlen : (EncFS.AsciiToB64 src).length = src.length := List.length_map _
  have h : (0 + (EncFS.AsciiToB64 src).length * 6) / 8 ≤ (asciiToBytes src).length :=
    changeBase2Inline_length_ge (by decide) (by omega)
  rw [hlen, Nat.zero_add] at h
  exact h

end Ascii

end InPlace

end EncFS
