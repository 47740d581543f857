import EncFS.BlockFileIO
import EncFS.Cipher

/-! Files encrypted in blocks, with an optional header that holds the IV of the file. -/

set_option autoImplicit false

namespace EncFS

open FlatArray

structure CipherFileIO (τ : Type) where
  base : FileIO τ
  cipher : Cipher
  random : RandomSource
  blockSize : ℕ
  blockSize_gt : 1 < blockSize
  allowHoles : Bool
  haveHeader : Bool
  reverseEncryption : Bool

structure CipherFile (τ : Type) where
  base : τ
  externalIV : UInt64
  fileIV : UInt64
  lastFlags : ℕ
  draws : ℕ
  deriving DecidableEq, Repr

namespace CipherFile

variable {τ α : Type}

def lift (x : Action τ α) : Action (CipherFile τ) α := fun f =>
  match x f.base with
  | .ok a s => .ok a { f with base := s }
  | .error e s => .error e { f with base := s }

lemma lift_ok {x : Action τ α} {f : CipherFile τ} {a : α} {s' : τ} (h : x f.base = .ok a s') :
    lift x f = .ok a { f with base := s' } := by
  simp only [lift, h]

lemma lift_error {x : Action τ α} {f : CipherFile τ} {e : RlogError} {s' : τ}
    (h : x f.base = .error e s') : lift x f = .error e { f with base := s' } := by
  simp only [lift, h]

lemma lift_yields {x : Action τ α} {f : CipherFile τ} {Q : α → CipherFile τ → Prop}
    {E : RlogError → CipherFile τ → Prop}
    (h : Yields x f.base (fun a s => Q a { f with base := s }) fun e s => E e { f with base := s }) :
    Yields (lift x) f Q E := by
  cases hx : x f.base with
  | ok a s => exact .of_ok (lift_ok hx) (h.ok hx)
  | error e s => exact .of_error (lift_error hx) (h.error hx)

end CipherFile

namespace CipherFileIO

open CipherFile

variable {τ : Type} (F : CipherFileIO τ)

def headerSize : ℕ :=
  if F.haveHeader then HEADER_SIZE else 0

def getSize : Action (CipherFile τ) ℤ := do
  let size ← lift F.base.getSize
  if F.haveHeader ∧ 0 < size then
    if HEADER_SIZE ≤ size then pure (size - HEADER_SIZE) else throw .assertFailed
  else
    pure size

def readHeader : Action (CipherFile τ) PUnit := do
  let buf ← lift (F.base.read 0 HEADER_SIZE)
  let f ← get
  let fileIV := ivOfBytes (F.cipher.streamDecode f.externalIV (resize 0 (buf.getD []) HEADER_SIZE))
  set { f with fileIV := fileIV }
  if fileIV = 0 then throw .assertFailed else pure ⟨⟩

def createHeader : Action (CipherFile τ) PUnit := do
  let f ← get
  let draw := F.random.firstUsable f.draws
  match F.random.randomize draw HEADER_SIZE with
  | none =>
    set { f with draws := draw + 1 }
    throw .noRandomIV
  | some buf =>
    set { f with fileIV := ivOfBytes buf, draws := draw + 1 }
    match ← lift F.base.isWritable with
    | true =>
      let _ ← lift (F.base.write 0 (F.cipher.streamEncode f.externalIV buf))
      pure ⟨⟩
    | false => pure ⟨⟩

def initHeader : Action (CipherFile τ) PUnit := do
  let rawSize ← lift F.base.getSize
  if HEADER_SIZE ≤ rawSize then F.readHeader else F.createHeader

def needHeader : Action (CipherFile τ) PUnit := do
  let f ← get
  if F.haveHeader ∧ f.fileIV = 0 then F.initHeader else pure ⟨⟩

def blockRead (iv : UInt64) (buf : Bytes) : Bytes :=
  if F.reverseEncryption then
    F.cipher.blockEncode iv buf
  else if F.allowHoles ∧ buf = List.replicate buf.length 0 then
    -- special case - leave all 0's alone
    buf
  else
    F.cipher.blockDecode iv buf

def streamRead (iv : UInt64) (buf : Bytes) : Bytes :=
  if F.reverseEncryption then F.cipher.streamEncode iv buf else F.cipher.streamDecode iv buf

def blockWrite (iv : UInt64) (buf : Bytes) : Bytes :=
  if F.reverseEncryption then F.cipher.blockDecode iv buf else F.cipher.blockEncode iv buf

def streamWrite (iv : UInt64) (buf : Bytes) : Bytes :=
  if F.reverseEncryption then F.cipher.streamDecode iv buf else F.cipher.streamEncode iv buf

def blockIV (fileIV : UInt64) (blockNum : ℕ) : UInt64 :=
  blockNum.toUInt64 ^^^ fileIV

def decodeBlock (fileIV : UInt64) (blockNum : ℕ) (buf : Bytes) : Bytes :=
  if buf.length ≠ F.blockSize then F.streamRead (blockIV fileIV blockNum) buf
  else F.blockRead (blockIV fileIV blockNum) buf

def encodeBlock (fileIV : UInt64) (blockNum : ℕ) (buf : Bytes) : Bytes :=
  if buf.length ≠ F.blockSize then F.streamWrite (blockIV fileIV blockNum) buf
  else F.blockWrite (blockIV fileIV blockNum) buf

def readOneBlock (offset dataLen : ℕ) : Action (CipherFile τ) (Option Bytes) := do
  match ← lift (F.base.read (offset + F.headerSize) dataLen) with
  | none => pure none
  | some buf =>
    if buf = [] then
      pure (some [])
    else
      F.needHeader
      let f ← get
      pure (some (F.decodeBlock f.fileIV (offset / F.blockSize) buf))

def writeOneBlock (offset : ℕ) (data : Bytes) : Action (CipherFile τ) Bool := do
  F.needHeader
  let f ← get
  if F.cipher.checksSize ∧ data = [] then
    throw .assertFailed
  else
    lift (F.base.write (offset + F.headerSize) (F.encodeBlock f.fileIV (offset / F.blockSize) data))

def blockFile : BlockFileIO (CipherFile τ) where
  blockSize := F.blockSize
  blockSize_gt := F.blockSize_gt
  allowHoles := F.allowHoles
  getSize := F.getSize
  readOneBlock := F.readOneBlock
  writeOneBlock := F.writeOneBlock

def open' (flags : ℕ) : Action (CipherFile τ) ℤ := do
  let res ← lift (F.base.openFile flags)
  if 0 ≤ res then
    modify fun f => { f with lastFlags := flags }
    pure res
  else
    pure res

def ensureWritable : Action (CipherFile τ) Bool := do
  match ← lift F.base.isWritable with
  | true => pure true
  | false => do
    let f ← get
    let res ← lift (F.base.openFile (f.lastFlags ||| O_RDWR))
    pure (0 ≤ res)

def writeHeader : Action (CipherFile τ) Bool := do
  match ← F.ensureWritable with
  | false => pure false
  | true => do
    let f ← get
    set { f with fileIV := 0 }
    let _ ← lift (F.base.write 0 (F.cipher.streamEncode f.externalIV (bytesOfIV f.fileIV)))
    pure true

inductive HeaderState
  | ready
  | directory
  | failed
  deriving DecidableEq, Repr

def headerForUpdate : Action (CipherFile τ) HeaderState := do
  let f ← get
  if f.fileIV = 0 then do
    let res ← lift (F.base.openFile (f.lastFlags ||| O_RDWR))
    if res < 0 then
      -- there are no file headers for directories
      pure (if res = -EISDIR then .directory else .failed)
    else do
      F.initHeader
      pure .ready
  else
    pure .ready

def updateHeader (iv : UInt64) : Action (CipherFile τ) Bool := do
  match ← F.headerForUpdate with
  | .failed => pure false
  | .directory => do
    modify fun f => { f with externalIV := iv }
    lift (F.base.setIV iv)
  | .ready => do
    let old ← get
    set { old with externalIV := iv }
    match ← F.writeHeader with
    | false => do
      modify fun f => { f with externalIV := old.externalIV }
      pure false
    | true => lift (F.base.setIV iv)

def setIV (iv : UInt64) : Action (CipherFile τ) Bool := do
  let f ← get
  if f.externalIV = 0 then do
    -- we are just being told about which IV to use
    set { f with externalIV := iv }
    lift (F.base.setIV iv)
  else if F.haveHeader then
    F.updateHeader iv
  else
    lift (F.base.setIV iv)

def openForHeader : Action (CipherFile τ) PUnit := do
  let f ← get
  if f.fileIV = 0 then
    match ← lift F.base.isWritable with
    | true => F.initHeader
    | false =>
      let _ ← lift (F.base.openFile (f.lastFlags ||| O_RDWR))
      F.initHeader
  else
    pure ⟨⟩

def truncate (size : ℕ) : Action (Cached (CipherFile τ)) ℤ :=
  if F.haveHeader then do
    Cached.lift F.openForHeader
    let res ← F.blockFile.truncate size none
    if res = 0 then
      let _ ← Cached.lift (lift (F.base.truncate (size + HEADER_SIZE)))
      pure res
    else
      pure res
  else
    F.blockFile.truncate size (some fun size => lift (F.base.truncate size))

def fileIO : FileIO (Cached (CipherFile τ)) where
  toAccessors := F.blockFile.accessors
  openFile flags := Cached.lift (F.open' flags)
  setIV iv := Cached.lift (F.setIV iv)
  truncate := F.truncate
  isWritable := Cached.lift (lift F.base.isWritable)

def perform : Operation → Action (Cached (CipherFile τ)) PUnit
  | .request q => do
    let _ ← F.blockFile.accessors.serve q
    pure ⟨⟩
  | .truncate size => do
    let _ ← F.truncate size
    pure ⟨⟩

def performAll : List Operation → Action (Cached (CipherFile τ)) PUnit
  | [] => pure ⟨⟩
  | op :: ops => do
    F.perform op
    performAll ops

end CipherFileIO

end EncFS
