import EncFS.DirNode.LinkTargets
import EncFS.NameIO.BufferCoders

set_option autoImplicit false

namespace EncFS

lemma resize_of_length {d : Bytes} {n : ℕ} (h : d.length = n) : FlatArray.resize 0 d n = d :=
  h ▸ FlatArray.resize_self 0 d

namespace Cipher.NamesLawful

variable {C : Cipher} {bs : ℕ} (hC : C.NamesLawful bs)
include hC

lemma inPlace_streamEncode : C.inPlace.streamEncode = C.streamEncode := by
  funext iv d
  exact resize_of_length (hC.streamEncode_length iv d)

lemma streamDecode_length (iv : UInt64) (d : Bytes) : (C.streamDecode iv d).length = d.length := by
  have h := hC.streamEncode_length iv (C.streamDecode iv d)
  rw [hC.streamEncode_streamDecode] at h
  exact h.symm

lemma inPlace_streamDecode : C.inPlace.streamDecode = C.streamDecode := by
  funext iv d
  exact resize_of_length (hC.streamDecode_length iv d)

lemma inPlace_blockEncode (iv : UInt64) {d : Bytes} (h : bs ∣ d.length) :
    C.inPlace.blockEncode iv d = C.blockEncode iv d :=
  resize_of_length (hC.blockEncode_length iv h)

lemma inPlace_blockDecode (iv : UInt64) {d : Bytes} (h : bs ∣ d.length) :
    C.inPlace.blockDecode iv d = C.blockDecode iv d :=
  resize_of_length (hC.blockEncode_blockDecode iv h).2

end Cipher.NamesLawful

section Stream

variable (S : StreamNameIO) {bs : ℕ} (hC : S.cipher.NamesLawful bs)
include hC

open StreamNameIO in
lemma stream_inPlace : S.inPlace.encodeName = S.encodeName ∧ S.inPlace.decodeName = S.decodeName := by
  constructor
  · funext name iv
    have henc : S.inPlace.cipher.streamEncode = S.cipher.streamEncode := hC.inPlace_streamEncode
    rw [encodeName, henc]
    rfl
  · funext name iv
    have hdec : S.inPlace.cipher.streamDecode = S.cipher.streamDecode := hC.inPlace_streamDecode
    rw [decodeName, hdec]
    rfl

end Stream

section Block

variable (B : BlockNameIO) (hC : B.cipher.NamesLawful B.bs)
include hC

open BlockNameIO in
lemma block_inPlace : B.inPlace.encodeName = B.encodeName ∧ B.inPlace.decodeName = B.decodeName := by
  constructor
  · funext name iv
    have hdvd : B.bs ∣ (B.padded name).length := by
      rw [padded_length]
      exact Nat.dvd_of_mod_eq_zero (padding_spec B name.length).2.2.1
    have henc (iv : UInt64) : B.inPlace.cipher.blockEncode iv (B.inPlace.padded name) =
        B.cipher.blockEncode iv (B.padded name) := hC.inPlace_blockEncode iv hdvd
    have hencode (B : BlockNameIO) : B.encodeName name iv = .ok (bytesToAscii (macBytesOf
        (B.cipher.mac16 (B.padded name) iv).1 ++ B.cipher.blockEncode
          ((B.cipher.mac16 (B.padded name) iv).1 ^^^ chainedPart (3 ≤ B.interface) iv)
          (B.padded name)), (B.cipher.mac16 (B.padded name) iv).2) := rfl
    rw [hencode, hencode, henc]
    rfl
  · funext s iv
    by_cases htiny : B64ToB256Bytes s.length < B.bs + 2
    · exact (if_pos htiny).trans (if_pos htiny).symm
    by_cases hblocks : (B64ToB256Bytes s.length - 2) % B.bs ≠ 0
    · exact ((if_neg htiny).trans (if_pos hblocks)).trans
        ((if_neg htiny).trans (if_pos hblocks)).symm
    have hbytes := InPlace.asciiToBytes_length_ge s
    have hdvd : B.bs ∣ (((asciiToBytes s).drop 2).take (B64ToB256Bytes s.length - 2)).length := by
      rw [List.length_take, List.length_drop, Nat.min_eq_left (by omega)]
      exact Nat.dvd_of_mod_eq_zero (not_not.mp hblocks)
    have hdec (iv : UInt64) : B.inPlace.cipher.blockDecode iv
        (((asciiToBytes s).drop 2).take (B64ToB256Bytes s.length - 2)) =
          B.cipher.blockDecode iv (((asciiToBytes s).drop 2).take (B64ToB256Bytes s.length - 2)) :=
      hC.inPlace_blockDecode iv hdvd
    rw [decodeName]
    dsimp only
    rw [hdec]
    rfl

end Block

namespace NameCoder

variable {K : NameCoder} {chainedNameIV : Bool}

lemma Inverse.inPlace (hK : K.Inverse) (chainedNameIV : Bool) :
    (K.inPlace.naming chainedNameIV).encodeName = (K.naming chainedNameIV).encodeName ∧
      (K.inPlace.naming chainedNameIV).decodeName = (K.naming chainedNameIV).decodeName := by
  cases K with
  | stream S =>
    obtain ⟨bs, hC⟩ := hK
    exact stream_inPlace S hC
  | block B => exact block_inPlace B hK

lemma Inverse.keepsLength (hK : K.Inverse) : K.KeepsLength := by
  cases K with
  | stream S =>
    obtain ⟨bs, hC⟩ := hK
    exact hC.streamEncode_length
  | block B =>
    have hC : B.cipher.NamesLawful B.bs := hK
    exact fun iv d hd => hC.blockEncode_length iv hd

/-- A name comes back with the IV that its encoding left, and every access is inside a buffer. -/
theorem name_round_trip (hK : K.Inverse) (chainedNameIV : Bool) {name : Bytes} (hname : name ≠ [])
    (iv : Option UInt64) {memory : ℕ}
    (hmemory : B256ToB64Bytes (K.encodedStreamLen name.length) ≤ memory) (log : List ℕ) :
    ∃ encoded iv', encoded.length = B256ToB64Bytes (K.encodedStreamLen name.length) ∧
      (encoded.length : ℤ) ≤ (K.naming chainedNameIV).maxEncodedNameLen name.length ∧
      (name.length : ℤ) ≤ (K.naming chainedNameIV).maxDecodedNameLen encoded.length ∧
      K.encodeNameIn name iv
          (List.replicate (bufferSize ((K.naming chainedNameIV).maxEncodedNameLen name.length)) 0) log =
        .ok (encoded.length, iv',
          filled (bufferSize ((K.naming chainedNameIV).maxEncodedNameLen name.length)) encoded) log ∧
      K.decodeNameIn memory encoded iv (List.replicate
          (bufferSize ((K.naming chainedNameIV).maxDecodedNameLen encoded.length)) 0) log =
        .ok (name.length, iv',
          filled (bufferSize ((K.naming chainedNameIV).maxDecodedNameLen encoded.length)) name)
          (log ++ [encoded.length]) := by
  obtain ⟨encoded, iv', h⟩ := hK.codes chainedNameIV (.inl hname) iv
  have hlen := hK.keepsLength.encodeName_length h.encode
  obtain ⟨hencode, hdecode⟩ := hK.inPlace chainedNameIV
  have hfits := h.encoded_fits
  have hback := h.name_fits
  refine ⟨encoded, iv', hlen, hfits, hback, ?_, ?_⟩
  · have hsize : B256ToB64Bytes (K.encodedStreamLen name.length) ≤
        bufferSize ((K.naming chainedNameIV).maxEncodedNameLen name.length) := by
      rw [maxEncodedNameLen_eq, bufferSize, toUnsigned, if_pos (by omega)]
      omega
    have hin := encode_performs K chainedNameIV name iv hsize log
    rw [hencode, h.encode, List.append_nil] at hin
    exact hin
  · have hsize : B64ToB256Bytes encoded.length - 2 <
        bufferSize ((K.naming chainedNameIV).maxDecodedNameLen encoded.length) := by
      have hmax : (K.naming chainedNameIV).maxDecodedNameLen encoded.length =
          (B64ToB256Bytes encoded.length : ℤ) - 2 := by
        cases K <;> rfl
      rw [bufferSize, toUnsigned, if_pos (by omega)]
      omega
    have hin := decode_performs K chainedNameIV encoded (hlen ▸ hmemory) iv hsize log
    rw [hdecode, h.decode] at hin
    exact hin

def maskNames : NameIO :=
  (stream NameIO.maskStreamNames).naming true

theorem name_round_trip_maskNames :
    ∃ encoded iv', encoded.length = B256ToB64Bytes 3 ∧
      (encoded.length : ℤ) ≤ maskNames.maxEncodedNameLen 1 ∧
      ((1 : ℕ) : ℤ) ≤ maskNames.maxDecodedNameLen encoded.length ∧
      (stream NameIO.maskStreamNames).encodeNameIn [97] (some 0)
          (List.replicate (bufferSize (maskNames.maxEncodedNameLen 1)) 0) [] =
        .ok (encoded.length, iv', filled (bufferSize (maskNames.maxEncodedNameLen 1)) encoded) [] ∧
      (stream NameIO.maskStreamNames).decodeNameIn 64 encoded (some 0)
          (List.replicate (bufferSize (maskNames.maxDecodedNameLen encoded.length)) 0) [] =
        .ok (1, iv', filled (bufferSize (maskNames.maxDecodedNameLen encoded.length)) [97])
          [encoded.length] :=
  name_round_trip streamVolume_inverse true (List.cons_ne_nil 97 []) (some 0) (by decide) []

end NameCoder

end EncFS
