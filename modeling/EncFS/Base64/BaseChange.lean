import EncFS.Base64.InPlace
import EncFS.KeyString

set_option autoImplicit false

namespace EncFS

open Buffer

def symbolsOf (d : Bytes) : Bytes :=
  changeBase2 d 8 (B256ToB64Bytes d.length) 6

lemma symbolsOf_eq (d : Bytes) :
    symbolsOf d = (digitsUpTo 64 (B256ToB64Bytes d.length)
      (Nat.ofDigits 256 (d.map UInt8.toNat))).map UInt8.ofNat :=
  changeBase2_encode d

lemma symbolsOf_length (d : Bytes) : (symbolsOf d).length = B256ToB64Bytes d.length := by
  rw [symbolsOf_eq, List.length_map, digitsUpTo_length]

lemma symbolsOf_digit {d : Bytes} {s : UInt8} (hs : s ∈ symbolsOf d) : ∃ v < 64, s = UInt8.ofNat v := by
  rw [symbolsOf_eq] at hs
  obtain ⟨v, hv, rfl⟩ := List.mem_map.mp hs
  exact ⟨v, digitsUpTo_lt (by decide) _ _ v hv, rfl⟩

lemma symbolsOf_lt {d : Bytes} {s : UInt8} (hs : s ∈ symbolsOf d) : s < 64 := by
  obtain ⟨v, hv, rfl⟩ := symbolsOf_digit hs
  rw [UInt8.lt_iff_toNat_lt, UInt8.toNat_ofNat']
  change v % 256 < 64
  omega

lemma changeBase2Inline_exact {value bits fuel : ℕ} {src : Bytes} {work workBits : ℕ}
    (h : Pending 6 src work workBits value bits) (hne : src ≠ []) (hbits : workBits < 8)
    (hrest : bits % 8 < 6) (hfuel : bits / 8 ≤ fuel) :
    (changeBase2Inline 6 8 false fuel src work workBits).length = bits / 8 := by
  have hsum := h.bits_eq
  have hpos := List.length_pos_iff.mpr hne
  induction fuel generalizing src work workBits value bits with
  | zero => exact (Nat.le_zero.mp hfuel).symm
  | succ fuel ih =>
    obtain ⟨rest, work', workBits', he, hp, hfull, hle⟩ := fillWork_spec 8 h
    have hsum' := hp.bits_eq
    rw [changeBase2Inline, he]
    by_cases hend : rest = []
    · subst hend
      simp only [if_true, Bool.false_eq_true, and_false, if_false, List.length_singleton]
      rw [List.length_nil] at hsum'
      omega
    · have height : 8 ≤ workBits' := hfull.resolve_left hend
      obtain ⟨-, hdrop⟩ := hp.drop height
      have hpos' := List.length_pos_iff.mpr hend
      simp only [if_neg hend, List.length_cons]
      rw [ih hdrop hend (by omega) (by omega) (by omega) (by omega) hpos']
      omega

section Symbols

variable {d : Bytes} {fuel : ℕ} (hne : d ≠ []) (hfuel : d.length * 2 ≤ fuel)
include hne hfuel

lemma changeBase2Inline_symbols : changeBase2Inline 8 6 true fuel d 0 0 = symbolsOf d := by
  rw [symbolsOf_eq]
  exact changeBase2Inline_encode (bytes_pending d) hne (Nat.zero_le _) rfl (by omega)

lemma changeBase2Inline_bytes : changeBase2Inline 6 8 false fuel (symbolsOf d) 0 0 = d := by
  have hpos := List.length_pos_iff.mpr hne
  have hpending := digits_pending (ofDigits_lt_symbols d)
  have hcount : B256ToB64Bytes d.length * 6 / 8 = d.length := b64ToB256_b256ToB64 d.length
  have hsymbols : symbolsOf d ≠ [] := by
    rw [← List.length_pos_iff, symbolsOf_length, B256ToB64Bytes]
    omega
  have hbytes := changeBase2Inline_decode hpending (by decide) (by omega : _ ≤ fuel)
  rw [← symbolsOf_eq] at hpending hbytes
  have hlen := changeBase2Inline_exact hpending hsymbols (by decide)
    (by rw [B256ToB64Bytes]; omega) (by omega : _ ≤ fuel)
  rw [← hlen, List.take_length, hlen, hcount, digitsUpTo_bytes, List.map_map] at hbytes
  rw [hbytes]
  exact (List.map_congr_left fun s _ => UInt8.ofNat_toNat).trans (List.map_id d)

end Symbols

lemma asciiToB64_symbols (d : Bytes) : AsciiToB64 (B64ToAscii (symbolsOf d)) = symbolsOf d := by
  rw [AsciiToB64, B64ToAscii, List.map_map]
  refine (List.map_congr_left fun s hs => ?_).trans (List.map_id _)
  obtain ⟨v, hv, rfl⟩ := symbolsOf_digit hs
  exact asciiToB64_b64ToAscii v hv

lemma b64ToAscii_noPlus : ∀ v < 64, B64ToAsciiChar (UInt8.ofNat v) ≠ plus := by
  decide

lemma b64ToAscii_symbols {d : Bytes} {ch : UInt8} (hch : ch ∈ B64ToAscii (symbolsOf d)) :
    ch ≠ slash ∧ ch ≠ dot ∧ ch ≠ plus ∧ ch ≠ 0 := by
  obtain ⟨s, hs, rfl⟩ := List.mem_map.mp hch
  obtain ⟨v, hv, rfl⟩ := symbolsOf_digit hs
  obtain ⟨hnull, hdot, hslash⟩ := b64ToAscii_plain v hv
  exact ⟨hslash, hdot, b64ToAscii_noPlus v hv, hnull⟩

section Buffers

variable {d buf : Bytes} {fuel : ℕ} (hne : d ≠ []) (hfuel : d.length * 2 ≤ fuel)
  (hroom : B256ToB64Bytes d.length ≤ buf.length)
include hne hfuel hroom

lemma symbols_inPlace (hbuf : d <+: buf) :
    InPlace.changeBase2Inline 8 6 true fuel buf d.length 0 0 0 0 =
      some (overwrite buf 0 (symbolsOf d)) := by
  have hsymbols := changeBase2Inline_symbols hne hfuel
  rw [← hsymbols]
  refine InPlace.changeBase2Inline_eq hbuf hne (by decide) (by omega) ?_
  rw [hsymbols, symbolsOf_length]
  omega

lemma bytes_inPlace :
    InPlace.changeBase2Inline 6 8 false fuel (overwrite buf 0 (symbolsOf d))
        (B256ToB64Bytes d.length) 0 0 0 0 =
      some (overwrite (overwrite buf 0 (symbolsOf d)) 0 d) := by
  have hpos := List.length_pos_iff.mpr hne
  have hbytes := changeBase2Inline_bytes hne hfuel
  have hlen := symbolsOf_length d
  have hfits : 0 + (symbolsOf d).length ≤ buf.length := by omega
  have hcount : d.length ≤ B256ToB64Bytes d.length ∧ 0 < B256ToB64Bytes d.length ∧
      B256ToB64Bytes d.length * 6 ≤ fuel * 8 := by
    rw [B256ToB64Bytes]
    omega
  have hconv : InPlace.changeBase2Inline 6 8 false fuel (overwrite buf 0 (symbolsOf d))
      (symbolsOf d).length 0 0 0 0 =
        some (overwrite (overwrite buf 0 (symbolsOf d)) 0
          (changeBase2Inline 6 8 false fuel (symbolsOf d) 0 0)) := by
    refine InPlace.changeBase2Inline_eq (prefix_overwrite hfits)
      (List.ne_nil_of_length_pos (by omega)) (by decide) (by omega) ?_
    rw [hbytes, overwrite_length hfits]
    omega
  rwa [hlen, hbytes] at hconv

end Buffers

/-- The conversion in place writes the symbols that the other one writes, their characters need no
quoting in a name, and the way back writes the bytes and no others. -/
theorem baseChange_inPlace {d buf out : Bytes} {fuel : ℕ} (hne : d ≠ []) (hbuf : d <+: buf)
    (hroom : B256ToB64Bytes d.length ≤ buf.length) (hout : B256ToB64Bytes d.length ≤ out.length)
    (hfuel : d.length * 2 ≤ fuel) :
    let l := B256ToB64Bytes d.length
    let symbols := changeBase2 d 8 l 6
    InPlace.changeBase2Inline 8 6 true fuel buf d.length 0 0 0 0 =
        some (overwrite buf 0 symbols) ∧
    symbols.length = l ∧ (∀ s ∈ symbols, s < 64) ∧
    (∃ chars : Bytes, InPlace.B64ToAscii l 0 (overwrite buf 0 symbols) =
        some (overwrite buf 0 chars) ∧
      chars.length = l ∧ (∀ ch ∈ chars, ch ≠ slash ∧ ch ≠ dot ∧ ch ≠ plus ∧ ch ≠ 0) ∧
      (∃ values, InPlace.AsciiToB64 (overwrite buf 0 chars) l 0 out = some values ∧
        InPlace.changeBase2Inline 6 8 false fuel values l 0 0 0 0 = some (overwrite values 0 d)) ∧
      ∃ values, InPlace.AsciiToB64Inline l 0 (overwrite buf 0 chars) = some values ∧
        InPlace.changeBase2Inline 6 8 false fuel values l 0 0 0 0 = some (overwrite values 0 d)) ∧
    B64ToB256Bytes l = d.length := by
  intro l symbols
  have hlen : symbols.length = l := symbolsOf_length d
  have hchars : (B64ToAscii symbols).length = l := by rw [B64ToAscii, List.length_map, hlen]
  have hfits : 0 + symbols.length ≤ buf.length := by omega
  have hfits' : 0 + (B64ToAscii symbols).length ≤ buf.length := by omega
  have hascii := InPlace.B64ToAscii_eq (prefix_overwrite hfits)
  rw [hlen, overwrite_again hfits (by omega)] at hascii
  have hback : InPlace.AsciiToB64 (overwrite buf 0 (B64ToAscii symbols))
      (B64ToAscii symbols).length 0 out = some (overwrite out 0 (AsciiToB64 (B64ToAscii symbols))) :=
    InPlace.AsciiToB64_eq (prefix_overwrite hfits') (by omega)
  have hinline := InPlace.AsciiToB64Inline_eq (prefix_overwrite hfits')
  have hvalues : AsciiToB64 (B64ToAscii symbols) = symbols := asciiToB64_symbols d
  rw [hchars, hvalues] at hback hinline
  rw [overwrite_again hfits' (by omega)] at hinline
  refine ⟨symbols_inPlace hne hfuel hroom hbuf, hlen, fun s hs => symbolsOf_lt hs,
    ⟨B64ToAscii symbols, hascii, hchars, fun ch hch => b64ToAscii_symbols hch, ?_, ?_⟩,
    b64ToB256_b256ToB64 d.length⟩
  · exact ⟨_, hback, bytes_inPlace hne hfuel hout⟩
  · exact ⟨_, hinline, bytes_inPlace hne hfuel hroom⟩

theorem baseChange_inPlace_fourBytes :
    let buf : Bytes := [1, 200, 3, 255] ++ [0, 0, 9]
    InPlace.changeBase2Inline 8 6 true 8 buf 4 0 0 0 0 =
        some (overwrite buf 0 (changeBase2 [1, 200, 3, 255] 8 6 6)) ∧
      ∃ chars : Bytes, InPlace.B64ToAscii 6 0
          (overwrite buf 0 (changeBase2 [1, 200, 3, 255] 8 6 6)) = some (overwrite buf 0 chars) ∧
        ∃ values, InPlace.AsciiToB64 (overwrite buf 0 chars) 6 0 (List.replicate 6 0) =
            some values ∧
          InPlace.changeBase2Inline 6 8 false 8 values 6 0 0 0 0 =
            some (overwrite values 0 [1, 200, 3, 255]) := by
  obtain ⟨hsymbols, -, -, ⟨chars, hchars, -, -, hback, -⟩, -⟩ :=
    @baseChange_inPlace [1, 200, 3, 255] ([1, 200, 3, 255] ++ [0, 0, 9]) (List.replicate 6 0) 8
      (by decide) (List.prefix_append _ _) (by decide) (by decide) (by decide)
  exact ⟨hsymbols, chars, hchars, hback⟩

end EncFS
