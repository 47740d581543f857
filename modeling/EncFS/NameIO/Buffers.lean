import EncFS.Base64.InPlace
import EncFS.NameIO.Canonical
import EncFS.Outcome

/-! The coders of names as they work in buffers: every access is checked, and the sizes of the
buffers are noted. -/

set_option autoImplicit false

namespace EncFS

open Buffer

inductive NameFault
  | rlog (e : RlogError)
  | outOfBounds
  | badAlloc
  deriving DecidableEq, Repr

abbrev BufferAction := EStateM NameFault (List ℕ)

def inBuffer {α : Type} : Option α → BufferAction α
  | some a => pure a
  | none => throw .outOfBounds

def rlog {α : Type} (e : RlogError) : BufferAction α :=
  throw (.rlog e)

def toUnsigned (n : ℤ) : ℕ :=
  if 0 ≤ n then n.toNat else (n + 2 ^ 32).toNat

def bufferSize (approxLen : ℤ) : ℕ :=
  toUnsigned (approxLen + 1)

/-- `BUFFER_INIT`: small buffers are on the stack, for others there may not be enough memory. -/
def bufferInit (memory size : ℕ) : BufferAction Bytes := do
  modify fun sizes => sizes ++ [size]
  if size ≤ 32 ∨ size ≤ memory then
    pure (List.replicate size 0)
  else
    throw .badAlloc

def Cipher.inPlace (C : Cipher) : Cipher where
  blockEncode iv d := FlatArray.resize 0 (C.blockEncode iv d) d.length
  blockDecode iv d := FlatArray.resize 0 (C.blockDecode iv d) d.length
  streamEncode iv d := FlatArray.resize 0 (C.streamEncode iv d) d.length
  streamDecode iv d := FlatArray.resize 0 (C.streamDecode iv d) d.length
  mac64 := C.mac64
  checksSize := C.checksSize

abbrev BufferCoding := Bytes → Option UInt64 → Bytes → BufferAction (ℕ × Option UInt64 × Bytes)

def toBase64 (encodedName : Bytes) (encodedStreamLen encLen64 : ℕ) : Option Bytes := do
  let encodedName ← InPlace.changeBase2Inline 8 6 true (encodedStreamLen * 2) encodedName
    encodedStreamLen 0 0 0 0
  InPlace.B64ToAscii encLen64 0 encodedName

def fromBase64 (encodedName tmpBuf : Bytes) : Option Bytes := do
  let tmpBuf ← InPlace.AsciiToB64 encodedName encodedName.length 0 tmpBuf
  InPlace.changeBase2Inline 6 8 false encodedName.length tmpBuf encodedName.length 0 0 0 0

namespace StreamNameIO

variable (S : StreamNameIO)

def inPlace : StreamNameIO where
  interface := S.interface
  cipher := S.cipher.inPlace

def encodeNameIn : BufferCoding := fun plaintextName iv encodedName =>
  let length := plaintextName.length
  if S.cipher.checksSize ∧ plaintextName = [] then
    rlog .assertFailed
  else do
    let tmpIV := chainedPart (2 ≤ S.interface) iv
    let (mac, iv) := S.cipher.mac16 plaintextName iv
    let (macBegin, encodeBegin) := if 1 ≤ S.interface then (0, 2) else (length, 0)
    let encodedName ← inBuffer (writeRange encodedName macBegin (macBytesOf mac))
    let encodedName ← inBuffer (writeRange encodedName encodeBegin plaintextName)
    let encodedName ← inBuffer (updateRange encodedName encodeBegin length
      (S.cipher.inPlace.streamEncode (mac ^^^ tmpIV)))
    let encLen64 := B256ToB64Bytes (length + 2)
    let encodedName ← inBuffer (toBase64 encodedName (length + 2) encLen64)
    pure (encLen64, iv, encodedName)

def decodeBytesIn (mac tmpIV : UInt64) (encoded : Bytes) (iv : Option UInt64)
    (plaintextName : Bytes) : BufferAction (ℕ × Option UInt64 × Bytes) := do
  let decodedStreamLen := encoded.length
  let plaintextName ← inBuffer (writeRange plaintextName 0 encoded)
  let plaintextName ← inBuffer (updateRange plaintextName 0 decodedStreamLen
    (S.cipher.inPlace.streamDecode (mac ^^^ tmpIV)))
  let plaintext ← inBuffer (readRange plaintextName 0 decodedStreamLen)
  let (mac2, iv) := S.cipher.mac16 plaintext iv
  if mac2 = mac then pure (decodedStreamLen, iv, plaintextName) else rlog .checksumMismatch

def decodeNameIn (memory : ℕ) : BufferCoding := fun encodedName iv plaintextName =>
  if encodedName.length ≤ 2 then
    rlog .assertFailed
  else
    let decLen256 := B64ToB256Bytes encodedName.length
    if decLen256 ≤ 2 then
      rlog .nameTooSmall
    else do
      let decodedStreamLen := decLen256 - 2
      let tmpBuf ← bufferInit memory encodedName.length
      let tmpBuf ← inBuffer (fromBase64 encodedName tmpBuf)
      let (macBegin, tmpIV, decodeBegin) :=
        if 1 ≤ S.interface then (0, chainedPart (2 ≤ S.interface) iv, 2)
        else (decodedStreamLen, 0, 0)
      let hi ← inBuffer (readAt tmpBuf macBegin)
      let lo ← inBuffer (readAt tmpBuf (macBegin + 1))
      let encoded ← inBuffer (readRange tmpBuf decodeBegin decodedStreamLen)
      S.decodeBytesIn (macOfBytes hi lo) tmpIV encoded iv plaintextName

end StreamNameIO

namespace BlockNameIO

variable (B : BlockNameIO)

def inPlace : BlockNameIO where
  interface := B.interface
  bs := B.bs
  cipher := B.cipher.inPlace
  bs_pos := B.bs_pos
  bs_lt := B.bs_lt

def encodeNameIn : BufferCoding := fun plaintextName iv encodedName => do
  let length := plaintextName.length
  let encodedName ← inBuffer (writeRange encodedName 2 plaintextName)
  let padding := B.padding length
  let encodedName ← inBuffer (writeRange encodedName (length + 2)
    (List.replicate padding (UInt8.ofNat padding)))
  let tmpIV := chainedPart (3 ≤ B.interface) iv
  let padded ← inBuffer (readRange encodedName 2 (length + padding))
  let (mac, iv) := B.cipher.mac16 padded iv
  let encodedName ← inBuffer (writeRange encodedName 0 (macBytesOf mac))
  let encodedName ← inBuffer (updateRange encodedName 2 (length + padding)
    (B.cipher.inPlace.blockEncode (mac ^^^ tmpIV)))
  let encLen64 := B256ToB64Bytes (length + 2 + padding)
  let encodedName ← inBuffer (toBase64 encodedName (length + 2 + padding) encLen64)
  pure (encLen64, iv, encodedName)

def unpadIn (mac : UInt64) (tmpBuf : Bytes) (decodedStreamLen : ℕ) (iv : Option UInt64)
    (plaintextName : Bytes) : BufferAction (ℕ × Option UInt64 × Bytes) := do
  let last ← inBuffer (readAt tmpBuf (2 + decodedStreamLen - 1))
  let padding := last.toNat
  if B.bs < padding ∨ decodedStreamLen < padding then
    rlog .invalidPadding
  else do
    let finalSize := decodedStreamLen - padding
    let plaintext ← inBuffer (readRange tmpBuf 2 finalSize)
    let plaintextName ← inBuffer (writeRange plaintextName 0 plaintext)
    let plaintextName ← inBuffer (writeAt plaintextName finalSize 0)
    let decoded ← inBuffer (readRange tmpBuf 2 decodedStreamLen)
    let (mac2, iv) := B.cipher.mac16 decoded iv
    if mac2 = mac then pure (finalSize, iv, plaintextName) else rlog .checksumMismatch

def decodeNameIn (memory : ℕ) : BufferCoding := fun encodedName iv plaintextName =>
  let decLen256 := B64ToB256Bytes encodedName.length
  let decodedStreamLen := decLen256 - 2
  if decLen256 < B.bs + 2 then
    rlog .nameTooSmall
  else do
    let tmpBuf ← bufferInit memory encodedName.length
    let tmpBuf ← inBuffer (fromBase64 encodedName tmpBuf)
    let hi ← inBuffer (readAt tmpBuf 0)
    let lo ← inBuffer (readAt tmpBuf 1)
    let mac := macOfBytes hi lo
    let tmpIV := chainedPart (3 ≤ B.interface) iv
    if decodedStreamLen % B.bs ≠ 0 then
      rlog .invalidBlockSize
    else do
      let tmpBuf ← inBuffer (updateRange tmpBuf 2 decodedStreamLen
        (B.cipher.inPlace.blockDecode (mac ^^^ tmpIV)))
      B.unpadIn mac tmpBuf decodedStreamLen iv plaintextName

end BlockNameIO

namespace NameCoder

def inPlace : NameCoder → NameCoder
  | stream S => stream S.inPlace
  | block B => block B.inPlace

def encodeNameIn : NameCoder → BufferCoding
  | stream S => S.encodeNameIn
  | block B => B.encodeNameIn

def decodeNameIn (memory : ℕ) : NameCoder → BufferCoding
  | stream S => S.decodeNameIn memory
  | block B => B.decodeNameIn memory

def encodedStreamLen (length : ℕ) : NameCoder → ℕ
  | stream _ => length + 2
  | block B => length + 2 + B.padding length

end NameCoder

def codeInBuffer (memory : ℕ) (length : ℕ → ℤ) (code : BufferCoding) (name : Bytes)
    (iv : Option UInt64) : BufferAction (Bytes × Option UInt64) := do
  let approxLen := length name.length
  let codeBuf ← bufferInit memory (bufferSize approxLen)
  let (codedLen, iv, codeBuf) ← code name iv codeBuf
  if (codedLen : ℤ) ≤ approxLen then do
    let ch ← inBuffer (readAt codeBuf codedLen)
    if ch = 0 then pure (cString codeBuf, iv) else rlog .assertFailed
  else
    rlog .assertFailed

def recodePathIn (memory : ℕ) (length : ℕ → ℤ) (code : BufferCoding) (path : Bytes)
    (iv : Option UInt64) (output : Bytes) : BufferAction (Bytes × Option UInt64) :=
  match path with
  | [] => pure (output, iv)
  | c :: path =>
    if c = slash then
      recodePathIn memory length code path iv (if output = [] then [] else output ++ [slash])
    else
      let name := firstComponent (c :: path)
      if isDots name then
        recodePathIn memory length code (afterComponent (c :: path)) iv (output ++ name)
      else if length name.length ≤ 0 then
        rlog .nameTooSmall
      else do
        let (coded, iv) ← codeInBuffer memory length code name iv
        recodePathIn memory length code (afterComponent (c :: path)) iv (output ++ coded)
  termination_by path.length
  decreasing_by
    · exact Nat.lt_succ_self _
    · exact afterComponent_length_lt ‹_›
    · exact afterComponent_length_lt ‹_›

/-- The names of a volume in a process, with the memory that it has for a buffer. -/
structure BufferNaming where
  coder : NameCoder
  chainedNameIV : Bool
  reverseEncryption : Bool
  memory : ℕ

namespace BufferNaming

variable (V : BufferNaming)

def naming : NameIO :=
  { V.coder.inPlace.naming V.chainedNameIV with reverseEncryption := V.reverseEncryption }

def decodePathIn (path : Bytes) : BufferAction Bytes := do
  let (output, _) ←
    if V.reverseEncryption then
      recodePathIn V.memory V.naming.maxEncodedNameLen V.coder.encodeNameIn path (V.naming.chained 0) []
    else
      recodePathIn V.memory V.naming.maxDecodedNameLen (V.coder.decodeNameIn V.memory) path
        (V.naming.chained 0) []
  pure output

def decodeNameStringIn (path : Bytes) : BufferAction Bytes := do
  let (output, _) ←
    if V.reverseEncryption then
      codeInBuffer V.memory V.naming.maxEncodedNameLen V.coder.encodeNameIn path none
    else
      codeInBuffer V.memory V.naming.maxDecodedNameLen (V.coder.decodeNameIn V.memory) path none
  pure output

def decodeTargetIn (rootDir cipherPath_ : Bytes) : BufferAction Bytes :=
  if rootDir <+: cipherPath_ then
    V.decodePathIn (cipherPath_.drop rootDir.length)
  else
    match cipherPath_ with
    | [] => V.decodePathIn []
    | c :: path =>
      if c = plus then do
        let name ← V.decodeNameStringIn path
        pure (slash :: name)
      else
        V.decodePathIn (c :: path)

def plainPathIn (rootDir cipherPath_ : Bytes) : BufferAction Bytes := fun sizes =>
  match V.decodeTargetIn rootDir cipherPath_ sizes with
  | .error (.rlog _) sizes => .ok [] sizes
  | result => result

end BufferNaming

end EncFS
