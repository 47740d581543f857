import EncFS.Base64
import EncFS.Cipher
import Mathlib.Data.List.TakeWhile

/-! The coding of path names, one component after the other, and the two coders of names. -/

set_option autoImplicit false

namespace EncFS

def slash : UInt8 := 47
def dot : UInt8 := 46
def plus : UInt8 := 43

abbrev NameCoding := Bytes → Option UInt64 → Except RlogError (Bytes × Option UInt64)

structure NameIO where
  chainedNameIV : Bool
  reverseEncryption : Bool
  maxEncodedNameLen : ℕ → ℤ
  maxDecodedNameLen : ℕ → ℤ
  encodeName : NameCoding
  decodeName : NameCoding

def firstComponent (path : Bytes) : Bytes :=
  path.takeWhile (· != slash)

def afterComponent (path : Bytes) : Bytes :=
  path.dropWhile (· != slash)

def isDots (name : Bytes) : Bool :=
  name.head? == some dot && name.getLast? == some dot && name.length ≤ 2

def cString (buf : Bytes) : Bytes :=
  buf.takeWhile (· != 0)

lemma cString_terminated {str r : Bytes} (h : (0 : UInt8) ∉ str) :
    cString (str ++ 0 :: r) = str := by
  have hstr : ∀ c ∈ str, (c != 0) = true := fun c hc => bne_iff_ne.mpr fun hz => h (hz ▸ hc)
  rw [cString, List.takeWhile_append_of_pos hstr, List.takeWhile_cons_of_neg (by decide),
    List.append_nil]

lemma afterComponent_length_lt {c : UInt8} {path : Bytes} (h : c ≠ slash) :
    (afterComponent (c :: path)).length < (c :: path).length := by
  rw [afterComponent, List.dropWhile_cons_of_pos (by simpa using h)]
  exact Nat.lt_succ_of_le (List.length_dropWhile_le _ _)

namespace NameIO

def recodeName (length : ℕ → ℤ) (code : NameCoding) : NameCoding := fun name iv =>
  if length name.length ≤ 0 then
    .error .nameTooSmall
  else do
    let (codeBuf, iv) ← code name iv
    if (codeBuf.length : ℤ) ≤ length name.length then
      pure (cString codeBuf, iv)
    else
      .error .assertFailed

def recodePath (length : ℕ → ℤ) (code : NameCoding) (path : Bytes) (iv : Option UInt64)
    (output : Bytes) : Except RlogError (Bytes × Option UInt64) :=
  match path with
  | [] => pure (output, iv)
  | c :: path =>
    if c = slash then
      -- the output does not start with a slash
      recodePath length code path iv (if output = [] then [] else output ++ [slash])
    else
      let name := firstComponent (c :: path)
      if isDots name then
        recodePath length code (afterComponent (c :: path)) iv (output ++ name)
      else do
        let (coded, iv) ← recodeName length code name iv
        recodePath length code (afterComponent (c :: path)) iv (output ++ coded)
  termination_by path.length
  decreasing_by
    · exact Nat.lt_succ_self _
    · exact afterComponent_length_lt ‹_›
    · exact afterComponent_length_lt ‹_›

variable (N : NameIO)

def chained (iv : UInt64) : Option UInt64 :=
  if N.chainedNameIV then some iv else none

def forwardPath (path : Bytes) (iv : UInt64) : Except RlogError (Bytes × UInt64) := do
  let (output, iv') ← recodePath N.maxEncodedNameLen N.encodeName path (N.chained iv) []
  pure (output, iv'.getD iv)

def backwardPath (path : Bytes) (iv : UInt64) : Except RlogError (Bytes × UInt64) := do
  let (output, iv') ← recodePath N.maxDecodedNameLen N.decodeName path (N.chained iv) []
  pure (output, iv'.getD iv)

def encodePathIV (path : Bytes) (iv : UInt64) : Except RlogError (Bytes × UInt64) :=
  if N.reverseEncryption then N.backwardPath path iv else N.forwardPath path iv

def decodePathIV (path : Bytes) (iv : UInt64) : Except RlogError (Bytes × UInt64) :=
  if N.reverseEncryption then N.forwardPath path iv else N.backwardPath path iv

def encodePath (path : Bytes) : Except RlogError Bytes := do
  let (output, _) ← N.encodePathIV path 0
  pure output

def decodePath (path : Bytes) : Except RlogError Bytes := do
  let (output, _) ← N.decodePathIV path 0
  pure output

def recodeWhole (length : ℕ → ℤ) (code : NameCoding) (name : Bytes) : Except RlogError Bytes := do
  let (codeBuf, _) ← code name none
  if (codeBuf.length : ℤ) ≤ length name.length then
    pure (cString codeBuf)
  else
    .error .assertFailed

def encodeNameString (path : Bytes) : Except RlogError Bytes :=
  if N.reverseEncryption then recodeWhole N.maxDecodedNameLen N.decodeName path
  else recodeWhole N.maxEncodedNameLen N.encodeName path

def decodeNameString (path : Bytes) : Except RlogError Bytes :=
  if N.reverseEncryption then recodeWhole N.maxEncodedNameLen N.encodeName path
  else recodeWhole N.maxDecodedNameLen N.decodeName path

end NameIO

def Cipher.mac16 (C : Cipher) (src : Bytes) (iv : Option UInt64) : UInt64 × Option UInt64 :=
  let mac64 := C.mac64 src iv
  let mac32 := (mac64 >>> 32 &&& 0xffffffff) ^^^ (mac64 &&& 0xffffffff)
  let mac16 := (mac32 >>> 16 &&& 0xffff) ^^^ (mac32 &&& 0xffff)
  (mac16, iv.map fun _ => mac64)

def macBytesOf (mac : UInt64) : Bytes :=
  [(mac >>> 8 &&& 0xff).toUInt8, (mac &&& 0xff).toUInt8]

def macOfBytes (hi lo : UInt8) : UInt64 :=
  hi.toUInt64 <<< 8 ||| lo.toUInt64

def chainedPart (uses : Bool) (iv : Option UInt64) : UInt64 :=
  if uses then iv.getD 0 else 0

structure StreamNameIO where
  interface : ℕ
  cipher : Cipher

namespace StreamNameIO

variable (S : StreamNameIO)

def maxEncodedNameLen (plaintextStreamLen : ℕ) : ℤ :=
  B256ToB64Bytes (2 + plaintextStreamLen)

def maxDecodedNameLen (encodedStreamLen : ℕ) : ℤ :=
  (B64ToB256Bytes encodedStreamLen : ℤ) - 2

def encodeName : NameCoding := fun plaintextName iv =>
  if S.cipher.checksSize ∧ plaintextName = [] then
    -- raised by the checksum
    .error .assertFailed
  else
    let tmpIV := chainedPart (2 ≤ S.interface) iv
    let (mac, iv) := S.cipher.mac16 plaintextName iv
    let encoded := S.cipher.streamEncode (mac ^^^ tmpIV) plaintextName
    -- current versions store the checksum at the beginning, encfs 0.x stored it at the end
    let encodedName := if 1 ≤ S.interface then macBytesOf mac ++ encoded
      else encoded ++ macBytesOf mac
    .ok (bytesToAscii encodedName, iv)

def decodeName : NameCoding := fun encodedName iv =>
  if encodedName.length ≤ 2 then
    .error .assertFailed
  else
    let decLen256 := B64ToB256Bytes encodedName.length
    if decLen256 ≤ 2 then
      .error .nameTooSmall
    else
      let decodedStreamLen := decLen256 - 2
      let tmpBuf := asciiToBytes encodedName
      let (mac, tmpIV, encoded) :=
        if 1 ≤ S.interface then
          (macOfBytes (tmpBuf.getD 0 0) (tmpBuf.getD 1 0), chainedPart (2 ≤ S.interface) iv,
            (tmpBuf.drop 2).take decodedStreamLen)
        else
          (macOfBytes (tmpBuf.getD decodedStreamLen 0) (tmpBuf.getD (decodedStreamLen + 1) 0), 0,
            tmpBuf.take decodedStreamLen)
      let plaintextName := S.cipher.streamDecode (mac ^^^ tmpIV) encoded
      let (mac2, iv) := S.cipher.mac16 plaintextName iv
      if mac2 = mac then .ok (plaintextName, iv) else .error .checksumMismatch

def nameIO (chainedNameIV reverseEncryption : Bool) : NameIO where
  chainedNameIV := chainedNameIV
  reverseEncryption := reverseEncryption
  maxEncodedNameLen := maxEncodedNameLen
  maxDecodedNameLen := maxDecodedNameLen
  encodeName := S.encodeName
  decodeName := S.decodeName

end StreamNameIO

structure BlockNameIO where
  interface : ℕ
  bs : ℕ
  cipher : Cipher
  bs_pos : 0 < bs
  bs_lt : bs < 128

namespace BlockNameIO

variable (B : BlockNameIO)

def maxEncodedNameLen (plaintextNameLen : ℕ) : ℤ :=
  B256ToB64Bytes ((plaintextNameLen + B.bs) / B.bs * B.bs + 2)

def maxDecodedNameLen (encodedNameLen : ℕ) : ℤ :=
  (B64ToB256Bytes encodedNameLen : ℤ) - 2

def padding (length : ℕ) : ℕ :=
  let padding := B.bs - length % B.bs
  if padding = 0 then B.bs else padding

def encodeName : NameCoding := fun plaintextName iv =>
  let padding := B.padding plaintextName.length
  let padded := plaintextName ++ List.replicate padding (UInt8.ofNat padding)
  -- the IV before it is modified by the MAC call
  let tmpIV := chainedPart (3 ≤ B.interface) iv
  let (mac, iv) := B.cipher.mac16 padded iv
  .ok (bytesToAscii (macBytesOf mac ++ B.cipher.blockEncode (mac ^^^ tmpIV) padded), iv)

def decodeName : NameCoding := fun encodedName iv =>
  let decLen256 := B64ToB256Bytes encodedName.length
  let decodedStreamLen := decLen256 - 2
  if decLen256 < B.bs + 2 then
    .error .nameTooSmall
  else if decodedStreamLen % B.bs ≠ 0 then
    -- raised by the cipher, which decodes whole blocks only
    .error .invalidBlockSize
  else
    let tmpBuf := asciiToBytes encodedName
    let mac := macOfBytes (tmpBuf.getD 0 0) (tmpBuf.getD 1 0)
    let tmpIV := chainedPart (3 ≤ B.interface) iv
    let decoded := B.cipher.blockDecode (mac ^^^ tmpIV) ((tmpBuf.drop 2).take decodedStreamLen)
    let padding := (decoded.getD (decodedStreamLen - 1) 0).toNat
    if B.bs < padding ∨ decodedStreamLen < padding then
      .error .invalidPadding
    else
      let (mac2, iv) := B.cipher.mac16 decoded iv
      if mac2 = mac then .ok (decoded.take (decodedStreamLen - padding), iv)
      else .error .checksumMismatch

def nameIO (chainedNameIV reverseEncryption : Bool) : NameIO where
  chainedNameIV := chainedNameIV
  reverseEncryption := reverseEncryption
  maxEncodedNameLen := B.maxEncodedNameLen
  maxDecodedNameLen := maxDecodedNameLen
  encodeName := B.encodeName
  decodeName := B.decodeName

end BlockNameIO

end EncFS
