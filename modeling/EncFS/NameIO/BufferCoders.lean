import EncFS.NameIO.Buffers

set_option autoImplicit false

namespace EncFS

open Buffer

def filled (size : ℕ) (name : Bytes) : Bytes :=
  name ++ List.replicate (size - name.length) 0

/-- In a buffer of this size a coding has the same result; `sizes` are those of its own buffers. -/
def Performs (codeIn : BufferCoding) (code : NameCoding) (name : Bytes) (iv : Option UInt64)
    (size : ℕ) (sizes : List ℕ) : Prop :=
  ∀ log, match code name iv with
    | .ok (coded, iv') => codeIn name iv (List.replicate size 0) log =
        .ok (coded.length, iv', filled size coded) (log ++ sizes)
    | .error e => ∃ made, made <+: sizes ∧
        codeIn name iv (List.replicate size 0) log = .error (.rlog e) (log ++ made)

namespace Performs

variable {codeIn : BufferCoding} {code : NameCoding} {name coded : Bytes} {iv iv' : Option UInt64}
  {size : ℕ} {sizes : List ℕ}

lemma of_ok (h : code name iv = .ok (coded, iv'))
    (hin : ∀ log, codeIn name iv (List.replicate size 0) log =
      .ok (coded.length, iv', filled size coded) (log ++ sizes)) :
    Performs codeIn code name iv size sizes := by
  intro log
  rw [h]
  exact hin log

lemma of_error {e : RlogError} {made : List ℕ} (h : code name iv = .error e) (hmade : made <+: sizes)
    (hin : ∀ log, codeIn name iv (List.replicate size 0) log = .error (.rlog e) (log ++ made)) :
    Performs codeIn code name iv size sizes := by
  intro log
  rw [h]
  exact ⟨made, hmade, hin log⟩

end Performs

@[simp] lemma inBuffer_some {α β : Type} (a : α) (f : α → BufferAction β) :
    inBuffer (some a) >>= f = f a := rfl

lemma bufferInit_ok {memory n : ℕ} (h : n ≤ 32 ∨ n ≤ memory) {α : Type} (f : Bytes → BufferAction α)
    (log : List ℕ) : (bufferInit memory n >>= f) log = f (List.replicate n 0) (log ++ [n]) := by
  have hinit : bufferInit memory n log = .ok (List.replicate n 0) (log ++ [n]) := by
    rw [bufferInit, if_pos h]
    rfl
  simp only [bind, EStateM.bind, hinit]

lemma writeAt_filled {size : ℕ} {d : Bytes} (h : d.length < size) :
    writeAt (filled size d) d.length 0 = some (filled size d) := by
  have hlen : (filled size d).length = size := by
    rw [filled, List.length_append, List.length_replicate]
    omega
  rw [writeAt, if_pos (by omega)]
  refine congrArg some (List.ext_getElem? fun j => ?_)
  rw [List.getElem?_set]
  split
  case isTrue hj =>
    subst hj
    rw [if_pos (by omega), filled, List.getElem?_append_right (Nat.le_refl _), Nat.sub_self,
      List.getElem?_replicate, if_pos (by omega)]
  case isFalse => rfl

lemma overwrite_zeros {size : ℕ} {d : Bytes} :
    overwrite (List.replicate size 0) 0 d = filled size d := by
  rw [overwrite_zero, filled, List.drop_replicate]

section InPlace

variable (C : Cipher) (iv : UInt64) (d : Bytes)

@[simp] lemma inPlace_streamEncode_length : (C.inPlace.streamEncode iv d).length = d.length :=
  FlatArray.resize_length _ _ _

@[simp] lemma inPlace_streamDecode_length : (C.inPlace.streamDecode iv d).length = d.length :=
  FlatArray.resize_length _ _ _

@[simp] lemma inPlace_blockEncode_length : (C.inPlace.blockEncode iv d).length = d.length :=
  FlatArray.resize_length _ _ _

@[simp] lemma inPlace_blockDecode_length : (C.inPlace.blockDecode iv d).length = d.length :=
  FlatArray.resize_length _ _ _

end InPlace

lemma toBase64_eq {size : ℕ} {d : Bytes} (hne : d ≠ []) (hsize : B256ToB64Bytes d.length ≤ size) :
    toBase64 (overwrite (List.replicate size 0) 0 d) d.length (B256ToB64Bytes d.length) =
      some (filled size (bytesToAscii d)) := by
  have hle : d.length ≤ B256ToB64Bytes d.length := by
    rw [B256ToB64Bytes]
    omega
  have hroom : 0 + d.length ≤ (List.replicate size (0 : UInt8)).length := by
    rw [List.length_replicate]
    omega
  have hstart := prefix_overwrite hroom
  rw [List.drop_zero] at hstart
  have hascii := bytesToAscii_length hne
  rw [toBase64, InPlace.bytesToAscii_eq hne hstart (by
    rw [overwrite_length hroom, List.length_replicate]; exact hsize)]
  rw [overwrite_again hroom (by omega), overwrite_zeros]

lemma fromBase64_eq {s : Bytes} (hne : s ≠ []) :
    ∃ junk, fromBase64 s (List.replicate s.length 0) = some (asciiToBytes s ++ junk) :=
  InPlace.asciiToBytes_eq hne (List.length_replicate)

lemma macBytesOf_length (mac : UInt64) : (macBytesOf mac).length = 2 := rfl

section Stream

variable (S : StreamNameIO)

section Encode

variable {name : Bytes} {iv iv' : Option UInt64} {mac tmpIV : UInt64} {size : ℕ}
  (hempty : ¬(S.cipher.checksSize = true ∧ name = []))
  (htmp : chainedPart (2 ≤ S.interface) iv = tmpIV) (hmac : S.cipher.mac16 name iv = (mac, iv'))
  (hsize : B256ToB64Bytes (name.length + 2) ≤ size)
include hempty htmp hmac hsize

open StreamNameIO in
lemma stream_encode_of_buffers {macBegin encodeBegin : ℕ} (src : Bytes) {b b' : Bytes}
    (hbegin : (if 1 ≤ S.interface then (0, 2) else (name.length, 0)) = (macBegin, encodeBegin))
    (hcode : S.inPlace.encodeName name iv = .ok (bytesToAscii src, iv'))
    (hmacs : writeRange (List.replicate size 0) macBegin (macBytesOf mac) = some b)
    (hname : writeRange b encodeBegin name = some b')
    (hencode : updateRange b' encodeBegin name.length (S.cipher.inPlace.streamEncode
      (mac ^^^ tmpIV)) = some (overwrite (List.replicate size 0) 0 src))
    (hlen : src.length = name.length + 2) :
    Performs S.encodeNameIn S.inPlace.encodeName name iv size [] := by
  have hne : src ≠ [] := by
    rintro rfl
    cases hlen
  have hascii := toBase64_eq hne (hlen.symm ▸ hsize)
  rw [hlen] at hascii
  refine .of_ok hcode fun log => ?_
  rw [encodeNameIn, if_neg hempty, htmp, hmac]
  dsimp only
  rw [hbegin]
  dsimp only
  rw [hmacs, inBuffer_some, hname, inBuffer_some, hencode, inBuffer_some, hascii, inBuffer_some,
    bytesToAscii_length hne, hlen, List.append_nil]
  rfl

open StreamNameIO in
lemma stream_encode_macFirst (hface : 1 ≤ S.interface) :
    Performs S.encodeNameIn S.inPlace.encodeName name iv size [] := by
  have hface' : 1 ≤ S.inPlace.interface := hface
  have hempty' : ¬(S.inPlace.cipher.checksSize = true ∧ name = []) := hempty
  have htmp' : chainedPart (2 ≤ S.inPlace.interface) iv = tmpIV := htmp
  have hmac' : S.inPlace.cipher.mac16 name iv = (mac, iv') := hmac
  have hlen := inPlace_streamEncode_length S.cipher (mac ^^^ tmpIV) name
  have hroom : 0 + (macBytesOf mac).length + name.length ≤
      (List.replicate size (0 : UInt8)).length := by
    rw [B256ToB64Bytes] at hsize
    rw [List.length_replicate, macBytesOf_length]
    omega
  refine stream_encode_of_buffers S hempty htmp hmac hsize
    (macBytesOf mac ++ S.cipher.inPlace.streamEncode (mac ^^^ tmpIV) name) (if_pos hface) ?_
    (writeRange_eq (by omega)) (writeRange_append hroom) (updateRange_append hroom hlen) ?_
  · rw [encodeName, if_neg hempty', htmp', hmac']
    dsimp only
    rw [if_pos hface']
    rfl
  · rw [List.length_append, hlen, macBytesOf_length, Nat.add_comm]

open StreamNameIO in
lemma stream_encode_macLast (hface : ¬ 1 ≤ S.interface) :
    Performs S.encodeNameIn S.inPlace.encodeName name iv size [] := by
  have hface' : ¬ 1 ≤ S.inPlace.interface := hface
  have hempty' : ¬(S.inPlace.cipher.checksSize = true ∧ name = []) := hempty
  have htmp' : chainedPart (2 ≤ S.inPlace.interface) iv = tmpIV := htmp
  have hmac' : S.inPlace.cipher.mac16 name iv = (mac, iv') := hmac
  have hlen := inPlace_streamEncode_length S.cipher (mac ^^^ tmpIV) name
  have hroom : 0 + name.length + (macBytesOf mac).length ≤
      (List.replicate size (0 : UInt8)).length := by
    rw [B256ToB64Bytes] at hsize
    rw [List.length_replicate, macBytesOf_length]
    omega
  have hname := writeRange_prepend hroom
  rw [Nat.zero_add] at hname
  refine stream_encode_of_buffers S hempty htmp hmac hsize
    (S.cipher.inPlace.streamEncode (mac ^^^ tmpIV) name ++ macBytesOf mac) (if_neg hface) ?_
    (writeRange_eq (by omega)) hname (updateRange_prepend hroom hlen) ?_
  · rw [encodeName, if_neg hempty', htmp', hmac']
    dsimp only
    rw [if_neg hface']
    rfl
  · rw [List.length_append, hlen, macBytesOf_length]

end Encode

open StreamNameIO in
lemma stream_encode_performs (name : Bytes) (iv : Option UInt64) {size : ℕ}
    (hsize : B256ToB64Bytes (name.length + 2) ≤ size) :
    Performs S.encodeNameIn S.inPlace.encodeName name iv size [] := by
  by_cases hempty : S.cipher.checksSize = true ∧ name = []
  · refine .of_error (e := .assertFailed) (if_pos hempty) List.nil_prefix fun log => ?_
    rw [List.append_nil]
    exact congrFun (if_pos hempty) log
  by_cases hface : 1 ≤ S.interface
  · exact stream_encode_macFirst S hempty rfl rfl hsize hface
  · exact stream_encode_macLast S hempty rfl rfl hsize hface

open StreamNameIO in
lemma decodeBytesIn_eq (mac tmpIV : UInt64) {encoded : Bytes} (iv : Option UInt64) {size : ℕ}
    (hsize : encoded.length ≤ size) (log : List ℕ) :
    S.decodeBytesIn mac tmpIV encoded iv (List.replicate size 0) log =
      let plaintextName := S.cipher.inPlace.streamDecode (mac ^^^ tmpIV) encoded
      if (S.cipher.mac16 plaintextName iv).1 = mac then
        .ok (plaintextName.length, (S.cipher.mac16 plaintextName iv).2, filled size plaintextName) log
      else
        .error (.rlog .checksumMismatch) log := by
  have hroom : 0 + encoded.length ≤ (List.replicate size (0 : UInt8)).length := by
    rw [List.length_replicate]
    omega
  have hlen := inPlace_streamDecode_length S.cipher (mac ^^^ tmpIV) encoded
  have hread := readRange_overwrite (d := S.cipher.inPlace.streamDecode (mac ^^^ tmpIV) encoded)
    (hlen.symm ▸ hroom)
  rw [hlen] at hread
  rw [decodeBytesIn, writeRange_eq hroom, inBuffer_some,
    updateRange_overwrite hroom hlen, inBuffer_some, hread, inBuffer_some, overwrite_zeros]
  dsimp only
  by_cases hmac : (S.cipher.mac16 (S.cipher.inPlace.streamDecode (mac ^^^ tmpIV) encoded) iv).1 = mac
  · rw [if_pos hmac, if_pos hmac, hlen]
    rfl
  · rw [if_neg hmac, if_neg hmac]
    rfl

lemma performs_decodeBytes {memory : ℕ} {s encoded : Bytes} (mac tmpIV : UInt64)
    {iv : Option UInt64} {size : ℕ} (hsize : encoded.length ≤ size)
    (hcode : S.inPlace.decodeName s iv =
      if (S.cipher.mac16 (S.cipher.inPlace.streamDecode (mac ^^^ tmpIV) encoded) iv).1 = mac then
        .ok (S.cipher.inPlace.streamDecode (mac ^^^ tmpIV) encoded,
          (S.cipher.mac16 (S.cipher.inPlace.streamDecode (mac ^^^ tmpIV) encoded) iv).2)
      else .error .checksumMismatch)
    (hin : ∀ log, S.decodeNameIn memory s iv (List.replicate size 0) log =
      S.decodeBytesIn mac tmpIV encoded iv (List.replicate size 0) (log ++ [s.length])) :
    Performs (S.decodeNameIn memory) S.inPlace.decodeName s iv size [s.length] := by
  by_cases hmac : (S.cipher.mac16 (S.cipher.inPlace.streamDecode (mac ^^^ tmpIV) encoded) iv).1 = mac
  · rw [if_pos hmac] at hcode
    refine .of_ok hcode fun log => ?_
    rw [hin, decodeBytesIn_eq S mac tmpIV iv hsize]
    exact if_pos hmac
  · rw [if_neg hmac] at hcode
    refine .of_error hcode (List.prefix_refl _) fun log => ?_
    rw [hin, decodeBytesIn_eq S mac tmpIV iv hsize]
    exact if_neg hmac

open StreamNameIO in
lemma stream_decode_performs {memory : ℕ} (s : Bytes) (hmemory : s.length ≤ memory)
    (iv : Option UInt64) {size : ℕ} (hsize : B64ToB256Bytes s.length - 2 ≤ size) :
    Performs (S.decodeNameIn memory) S.inPlace.decodeName s iv size [s.length] := by
  by_cases hshort : s.length ≤ 2
  · refine .of_error (e := .assertFailed) (if_pos hshort) List.nil_prefix fun log => ?_
    rw [List.append_nil]
    exact congrFun (if_pos hshort) log
  by_cases htiny : B64ToB256Bytes s.length ≤ 2
  · refine .of_error (e := .nameTooSmall) ((if_neg hshort).trans (if_pos htiny)) List.nil_prefix
      fun log => ?_
    rw [List.append_nil]
    exact congrFun ((if_neg hshort).trans (if_pos htiny)) log
  have hne : s ≠ [] := by
    rintro rfl
    exact hshort (Nat.zero_le _)
  obtain ⟨junk, hjunk⟩ := fromBase64_eq hne
  have hbytes := InPlace.asciiToBytes_length_ge s
  by_cases hface : 1 ≤ S.interface
  · have hface' : 1 ≤ S.inPlace.interface := hface
    have hhi := readAt_append (b := junk) (z := 0) (by omega : 0 < (asciiToBytes s).length)
    have hlo := readAt_append (b := junk) (z := 0) (by omega : 1 < (asciiToBytes s).length)
    have hread := readRange_append (b := junk)
      (by omega : 2 + (B64ToB256Bytes s.length - 2) ≤ (asciiToBytes s).length)
    have hencoded := (readRange_length hread).2
    refine performs_decodeBytes S
      (macOfBytes ((asciiToBytes s).getD 0 0) ((asciiToBytes s).getD 1 0))
      (chainedPart (2 ≤ S.interface) iv) (hencoded.trans_le hsize) ?_ fun log => ?_
    · rw [decodeName, if_neg hshort]
      dsimp only
      rw [if_neg htiny, if_pos hface']
      rfl
    · rw [decodeNameIn, if_neg hshort, if_neg htiny]
      dsimp only
      rw [bufferInit_ok (.inr hmemory), hjunk, inBuffer_some, if_pos hface]
      dsimp only
      rw [hhi, inBuffer_some, hlo, inBuffer_some, hread, inBuffer_some]
  · have hface' : ¬ 1 ≤ S.inPlace.interface := hface
    have hhi := readAt_append (b := junk) (z := 0)
      (by omega : B64ToB256Bytes s.length - 2 < (asciiToBytes s).length)
    have hlo := readAt_append (b := junk) (z := 0)
      (by omega : B64ToB256Bytes s.length - 2 + 1 < (asciiToBytes s).length)
    have hread := readRange_append (b := junk)
      (by omega : 0 + (B64ToB256Bytes s.length - 2) ≤ (asciiToBytes s).length)
    have hencoded := (readRange_length hread).2
    refine performs_decodeBytes S
      (macOfBytes ((asciiToBytes s).getD (B64ToB256Bytes s.length - 2) 0)
        ((asciiToBytes s).getD (B64ToB256Bytes s.length - 2 + 1) 0)) 0 (hencoded.trans_le hsize) ?_
      fun log => ?_
    · rw [decodeName, if_neg hshort]
      dsimp only
      rw [if_neg htiny, if_neg hface']
      rfl
    · rw [decodeNameIn, if_neg hshort, if_neg htiny]
      dsimp only
      rw [bufferInit_ok (.inr hmemory), hjunk, inBuffer_some, if_neg hface]
      dsimp only
      rw [hhi, inBuffer_some, hlo, inBuffer_some, hread, inBuffer_some]

end Stream

section Block

variable (B : BlockNameIO)

open BlockNameIO in
lemma block_encode_performs (name : Bytes) (iv : Option UInt64) {size : ℕ}
    (hsize : B256ToB64Bytes (name.length + 2 + B.padding name.length) ≤ size) :
    Performs B.encodeNameIn B.inPlace.encodeName name iv size [] := by
  generalize hpadded : B.padded name = padded
  obtain ⟨mac, iv', hmac⟩ : ∃ mac iv', B.cipher.mac16 padded iv = (mac, iv') := ⟨_, _, rfl⟩
  generalize htmp : chainedPart (3 ≤ B.interface) iv = tmpIV
  have hlen := inPlace_blockEncode_length B.cipher (mac ^^^ tmpIV) padded
  have hpad : padded.length = name.length + B.padding name.length := hpadded ▸ padded_length B name
  have hbytes : (macBytesOf mac).length = 2 := rfl
  have hne : macBytesOf mac ≠ [] := List.cons_ne_nil _ _
  have hsrc : (macBytesOf mac ++ B.cipher.inPlace.blockEncode (mac ^^^ tmpIV) padded).length =
      name.length + 2 + B.padding name.length := by
    rw [List.length_append, hlen, hpad, hbytes]
    omega
  have hle : name.length + 2 + B.padding name.length ≤ size := by
    rw [B256ToB64Bytes] at hsize
    omega
  have hroom : 0 + (macBytesOf mac).length + padded.length ≤
      (List.replicate size (0 : UInt8)).length := by
    rw [List.length_replicate]
    omega
  have hcode : B.inPlace.encodeName name iv = .ok (bytesToAscii
      (macBytesOf mac ++ B.cipher.inPlace.blockEncode (mac ^^^ tmpIV) padded), iv') := by
    have hmac' : B.inPlace.cipher.mac16 (B.padded name) iv = (mac, iv') := hpadded.symm ▸ hmac
    have hpadded' : name ++ List.replicate (B.inPlace.padding name.length)
        (UInt8.ofNat (B.inPlace.padding name.length)) = B.padded name := rfl
    rw [encodeName, hpadded', hmac', ← hpadded, ← htmp]
    rfl
  have hname : writeRange (overwrite (List.replicate size 0) 2 name) (name.length + 2)
      (List.replicate (B.padding name.length) (UInt8.ofNat (B.padding name.length))) =
        some (overwrite (List.replicate size 0) 2 padded) := by
    rw [← hpadded, Nat.add_comm]
    refine writeRange_append ?_
    rw [List.length_replicate, List.length_replicate]
    omega
  have hread := readRange_overwrite (by omega : 2 + padded.length ≤
    (List.replicate size (0 : UInt8)).length)
  have hmacs : writeRange (overwrite (List.replicate size 0) 2 padded) 0 (macBytesOf mac) =
      some (overwrite (List.replicate size 0) 0 (macBytesOf mac ++ padded)) :=
    writeRange_prepend hroom
  have hencode : updateRange (overwrite (List.replicate size 0) 0 (macBytesOf mac ++ padded)) 2
      padded.length (B.cipher.inPlace.blockEncode (mac ^^^ tmpIV)) =
        some (overwrite (List.replicate size 0) 0
          (macBytesOf mac ++ B.cipher.inPlace.blockEncode (mac ^^^ tmpIV) padded)) :=
    updateRange_append hroom hlen
  have hascii := toBase64_eq (List.append_ne_nil_of_left_ne_nil hne _) (hsrc.symm ▸ hsize)
  rw [hsrc] at hascii
  rw [hpad] at hread hencode
  refine .of_ok hcode fun log => ?_
  rw [encodeNameIn]
  dsimp only
  rw [writeRange_eq (by omega), inBuffer_some, hname, inBuffer_some, htmp, hread, inBuffer_some, hmac]
  dsimp only
  rw [hmacs, inBuffer_some, hencode, inBuffer_some, hascii, inBuffer_some,
    bytesToAscii_length (List.append_ne_nil_of_left_ne_nil hne _), hsrc, List.append_nil]
  rfl

def BlockNameIO.unpadded (mac : UInt64) (decoded : Bytes) (iv : Option UInt64) :
    Except RlogError (Bytes × Option UInt64) :=
  let padding := (decoded.getD (decoded.length - 1) 0).toNat
  if B.bs < padding ∨ decoded.length < padding then
    .error .invalidPadding
  else if (B.cipher.mac16 decoded iv).1 = mac then
    .ok (decoded.take (decoded.length - padding), (B.cipher.mac16 decoded iv).2)
  else
    .error .checksumMismatch

open BlockNameIO in
lemma unpadIn_eq (mac : UInt64) {buf decoded : Bytes} (iv : Option UInt64) {size : ℕ}
    (hroom : 2 + decoded.length ≤ buf.length) (hpos : 0 < decoded.length)
    (hsize : decoded.length < size) (log : List ℕ) :
    B.unpadIn mac (overwrite buf 2 decoded) decoded.length iv (List.replicate size 0) log =
      match B.unpadded mac decoded iv with
      | .ok (name, iv') => .ok (name.length, iv', filled size name) log
      | .error e => .error (.rlog e) log := by
  have hlast : readAt (overwrite buf 2 decoded) (2 + decoded.length - 1) =
      some (decoded.getD (decoded.length - 1) 0) := by
    rw [Nat.add_sub_assoc (by omega)]
    exact readAt_overwrite hroom (by omega)
  rw [unpadIn, hlast, inBuffer_some, unpadded]
  dsimp only
  generalize (decoded.getD (decoded.length - 1) 0).toNat = padding
  by_cases hbad : B.bs < padding ∨ decoded.length < padding
  · rw [if_pos hbad, if_pos hbad]
    rfl
  rw [if_neg hbad, if_neg hbad]
  have htake : (decoded.take (decoded.length - padding)).length = decoded.length - padding := by
    rw [List.length_take]
    omega
  have hplain : readRange (overwrite buf 2 decoded) 2 (decoded.length - padding) =
      some (decoded.take (decoded.length - padding)) := readRange_overwrite_take hroom (by omega)
  have hwrite : writeRange (List.replicate size 0) 0 (decoded.take (decoded.length - padding)) =
      some (filled size (decoded.take (decoded.length - padding))) := by
    rw [writeRange_eq (by rw [List.length_replicate]; omega), overwrite_zeros]
  have hnull := writeAt_filled (by omega : (decoded.take (decoded.length - padding)).length < size)
  rw [htake] at hnull
  rw [hplain, inBuffer_some, hwrite, inBuffer_some, hnull, inBuffer_some, readRange_overwrite hroom,
    inBuffer_some]
  by_cases hcheck : (B.cipher.mac16 decoded iv).1 = mac
  · rw [if_pos hcheck, if_pos hcheck]
    dsimp only
    rw [htake]
    rfl
  · rw [if_neg hcheck, if_neg hcheck]
    rfl

open BlockNameIO in
lemma performs_unpad {memory : ℕ} {s : Bytes} (buf decoded : Bytes) (mac : UInt64)
    {iv : Option UInt64} {size : ℕ} (hroom : 2 + decoded.length ≤ buf.length) (hpos : 0 < decoded.length)
    (hsize : decoded.length < size) (hcode : B.inPlace.decodeName s iv = B.unpadded mac decoded iv)
    (hin : ∀ log, B.decodeNameIn memory s iv (List.replicate size 0) log =
      B.unpadIn mac (overwrite buf 2 decoded) decoded.length iv (List.replicate size 0)
        (log ++ [s.length])) :
    Performs (B.decodeNameIn memory) B.inPlace.decodeName s iv size [s.length] := by
  have heq (log : List ℕ) := (hin log).trans (unpadIn_eq B mac iv hroom hpos hsize _)
  cases hname : B.unpadded mac decoded iv with
  | ok named =>
    simp only [hname] at heq
    exact .of_ok (hcode.trans hname) heq
  | error e =>
    simp only [hname] at heq
    exact .of_error (hcode.trans hname) (List.prefix_refl _) heq

open BlockNameIO in
lemma block_decode_performs {memory : ℕ} (s : Bytes) (hmemory : s.length ≤ memory)
    (iv : Option UInt64) {size : ℕ} (hsize : B64ToB256Bytes s.length - 2 < size) :
    Performs (B.decodeNameIn memory) B.inPlace.decodeName s iv size [s.length] := by
  by_cases htiny : B64ToB256Bytes s.length < B.bs + 2
  · refine .of_error (e := .nameTooSmall) (if_pos htiny) List.nil_prefix fun log => ?_
    rw [List.append_nil]
    exact congrFun (if_pos htiny) log
  have htiny' : ¬ B64ToB256Bytes s.length < B.inPlace.bs + 2 := htiny
  have hbs := B.bs_pos
  have hne : s ≠ [] := by
    rintro rfl
    have hnil : B64ToB256Bytes ([] : Bytes).length = 0 := rfl
    omega
  obtain ⟨junk, hjunk⟩ := fromBase64_eq hne
  have hbytes := InPlace.asciiToBytes_length_ge s
  have hhi := readAt_append (b := junk) (z := 0) (by omega : 0 < (asciiToBytes s).length)
  have hlo := readAt_append (b := junk) (z := 0) (by omega : 1 < (asciiToBytes s).length)
  have hread := readRange_append (b := junk)
    (by omega : 2 + (B64ToB256Bytes s.length - 2) ≤ (asciiToBytes s).length)
  obtain ⟨hend, hencoded⟩ := readRange_length hread
  by_cases hblocks : (B64ToB256Bytes s.length - 2) % B.bs ≠ 0
  · have hblocks' : (B64ToB256Bytes s.length - 2) % B.inPlace.bs ≠ 0 := hblocks
    refine .of_error (e := .invalidBlockSize) ((if_neg htiny).trans (if_pos hblocks'))
      (List.prefix_refl _) fun log => ?_
    rw [decodeNameIn, if_neg htiny]
    dsimp only
    rw [bufferInit_ok (.inr hmemory), hjunk, inBuffer_some, hhi, inBuffer_some, hlo, inBuffer_some,
      if_pos hblocks]
    rfl
  have hblocks' : ¬ (B64ToB256Bytes s.length - 2) % B.inPlace.bs ≠ 0 := hblocks
  generalize hmac : macOfBytes ((asciiToBytes s).getD 0 0) ((asciiToBytes s).getD 1 0) = mac
  generalize htmp : chainedPart (3 ≤ B.interface) iv = tmpIV
  generalize henc : ((asciiToBytes s).drop 2).take (B64ToB256Bytes s.length - 2) = encoded
    at hread hencoded
  have hdec := inPlace_blockDecode_length B.cipher (mac ^^^ tmpIV) encoded
  have hupdate := updateRange_eq hread hdec
  generalize hdecoded : B.cipher.inPlace.blockDecode (mac ^^^ tmpIV) encoded = decoded at hdec hupdate
  rw [hencoded] at hdec
  refine performs_unpad B (asciiToBytes s ++ junk) decoded mac (by omega) (by omega) (by omega) ?_
    fun log => ?_
  · rw [unpadded, hdec]
    subst hdecoded henc htmp hmac
    exact (if_neg htiny').trans (if_neg hblocks')
  · rw [decodeNameIn, if_neg htiny]
    dsimp only
    rw [bufferInit_ok (.inr hmemory), hjunk, inBuffer_some, hhi, inBuffer_some, hlo, inBuffer_some,
      if_neg hblocks, hmac, htmp, hupdate, inBuffer_some, hdec]

end Block

namespace NameCoder

variable {K : NameCoder} {chainedNameIV : Bool}

lemma encode_performs (K : NameCoder) (chainedNameIV : Bool) (name : Bytes) (iv : Option UInt64)
    {size : ℕ} (hsize : B256ToB64Bytes (K.encodedStreamLen name.length) ≤ size) :
    Performs K.encodeNameIn (K.inPlace.naming chainedNameIV).encodeName name iv size [] := by
  cases K with
  | stream S => exact stream_encode_performs S name iv hsize
  | block B => exact block_encode_performs B name iv hsize

lemma decode_performs (K : NameCoder) (chainedNameIV : Bool) {memory : ℕ} (s : Bytes)
    (hmemory : s.length ≤ memory) (iv : Option UInt64) {size : ℕ}
    (hsize : B64ToB256Bytes s.length - 2 < size) :
    Performs (K.decodeNameIn memory) (K.inPlace.naming chainedNameIV).decodeName s iv size
      [s.length] := by
  cases K with
  | stream S => exact stream_decode_performs S s hmemory iv (Nat.le_of_lt hsize)
  | block B => exact block_decode_performs B s hmemory iv hsize

def KeepsLength : NameCoder → Prop
  | stream S => ∀ iv d, (S.cipher.streamEncode iv d).length = d.length
  | block B => ∀ iv (d : Bytes), B.bs ∣ d.length → (B.cipher.blockEncode iv d).length = d.length

lemma keepsLength_inPlace (K : NameCoder) : K.inPlace.KeepsLength := by
  cases K with
  | stream S => exact fun iv d => inPlace_streamEncode_length S.cipher iv d
  | block B => exact fun iv d _ => inPlace_blockEncode_length B.cipher iv d

open StreamNameIO in
lemma KeepsLength.encodeName_length (hK : K.KeepsLength) {name encoded : Bytes} {iv iv' : Option UInt64}
    (h : (K.naming chainedNameIV).encodeName name iv = .ok (encoded, iv')) :
    encoded.length = B256ToB64Bytes (K.encodedStreamLen name.length) := by
  have hascii {src : Bytes} (hlen : src.length = K.encodedStreamLen name.length)
      (hne : src ≠ []) (he : encoded = bytesToAscii src) :
      encoded.length = B256ToB64Bytes (K.encodedStreamLen name.length) := by
    rw [he, bytesToAscii_length hne, hlen]
  cases K with
  | stream S =>
    change S.encodeName name iv = _ at h
    rw [encodeName] at h
    split at h
    · cases h
    · refine hascii ?_ ?_ (Prod.mk.inj (Except.ok.inj h)).1.symm
      · split
        · rw [List.length_append, hK]
          exact Nat.add_comm 2 _
        · rw [List.length_append, hK]
          rfl
      · split
        · simp [macBytesOf]
        · simp [macBytesOf]
  | block B =>
    have hdvd : B.bs ∣ (B.padded name).length := by
      rw [padded_length]
      exact Nat.dvd_of_mod_eq_zero (padding_spec B name.length).2.2.1
    have hblocks := hK ((B.cipher.mac16 (B.padded name) iv).1 ^^^
      chainedPart (3 ≤ B.interface) iv) _ hdvd
    rw [padded_length] at hblocks
    refine hascii ?_ (by simp [macBytesOf]) (Prod.mk.inj (Except.ok.inj h)).1.symm
    refine (List.length_append.trans (congrArg (2 + ·) hblocks)).trans ?_
    change 2 + (name.length + B.padding name.length) = name.length + 2 + B.padding name.length
    omega

lemma maxEncodedNameLen_eq (K : NameCoder) (length : ℕ) :
    (K.naming chainedNameIV).maxEncodedNameLen length =
      B256ToB64Bytes (K.encodedStreamLen length) := by
  cases K with
  | stream S =>
    change ((B256ToB64Bytes (2 + length) : ℕ) : ℤ) = B256ToB64Bytes (length + 2)
    rw [Nat.add_comm]
  | block B =>
    obtain ⟨-, -, -, hblocks⟩ := padding_spec B length
    change ((B256ToB64Bytes ((length + B.bs) / B.bs * B.bs + 2) : ℕ) : ℤ) =
      B256ToB64Bytes (length + 2 + B.padding length)
    rw [← hblocks, Nat.add_right_comm]

end NameCoder

end EncFS
