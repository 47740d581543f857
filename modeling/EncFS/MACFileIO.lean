import EncFS.BlockFileIO
import EncFS.Cipher

/-! Files whose blocks carry a header with a checksum and random bytes. -/

set_option autoImplicit false

namespace EncFS

open FlatArray

structure MACFileIO (τ : Type) where
  base : FileIO τ
  cipher : Cipher
  random : RandomSource
  fsBlockSize : ℕ
  macBytes : ℕ
  randBytes : ℕ
  warnOnly : Bool
  allowHoles : Bool
  macBytes_le : macBytes ≤ 8
  dataBlockSize_gt : 1 < fsBlockSize - macBytes - randBytes

structure MACFile (τ : Type) where
  base : τ
  draws : ℕ
  deriving DecidableEq, Repr

namespace MACFile

variable {τ α : Type}

def lift (x : Action τ α) : Action (MACFile τ) α := fun f =>
  match x f.base with
  | .ok a s => .ok a { f with base := s }
  | .error e s => .error e { f with base := s }

lemma lift_ok {x : Action τ α} {f : MACFile τ} {a : α} {s' : τ} (h : x f.base = .ok a s') :
    lift x f = .ok a { f with base := s' } := by
  simp only [lift, h]

lemma lift_error {x : Action τ α} {f : MACFile τ} {e : RlogError} {s' : τ}
    (h : x f.base = .error e s') : lift x f = .error e { f with base := s' } := by
  simp only [lift, h]

lemma lift_yields {x : Action τ α} {f : MACFile τ} {Q : α → MACFile τ → Prop}
    {E : RlogError → MACFile τ → Prop}
    (h : Yields x f.base (fun a s => Q a { f with base := s }) fun e s => E e { f with base := s }) :
    Yields (lift x) f Q E := by
  cases hx : x f.base with
  | ok a s => exact .of_ok (lift_ok hx) (h.ok hx)
  | error e s => exact .of_error (lift_error hx) (h.error hx)

end MACFile

def roundUpDivide (numerator denominator : ℕ) : ℕ :=
  (numerator + denominator - 1) / denominator

def locWithHeader (offset blockSize headerSize : ℕ) : ℕ :=
  offset + roundUpDivide offset (blockSize - headerSize) * headerSize

def locWithoutHeader (offset blockSize headerSize : ℕ) : ℤ :=
  (offset : ℤ) - (roundUpDivide offset blockSize * headerSize : ℕ)

def macTag (mac : UInt64) (macBytes : ℕ) : Bytes :=
  (List.range macBytes).map fun i => (mac >>> (8 * i).toUInt64).toUInt8

namespace MACFileIO

open MACFile

variable {τ : Type} (M : MACFileIO τ)

def dataBlockSize : ℕ :=
  M.fsBlockSize - M.macBytes - M.randBytes

def headerSize : ℕ :=
  M.macBytes + M.randBytes

def bs : ℕ :=
  M.dataBlockSize + M.headerSize

def getSize : Action (MACFile τ) ℤ := do
  let size ← lift M.base.getSize
  if 0 < size then pure (locWithoutHeader size.toNat M.bs M.headerSize) else pure size

structure Stat where
  regular : Bool
  st_size : ℤ
  deriving DecidableEq, Repr

def getAttr (res : ℤ) (stbuf : Stat) : ℤ × Stat :=
  if res = 0 ∧ stbuf.regular then
    -- have to adjust size field
    (res, { stbuf with st_size := locWithoutHeader stbuf.st_size.toNat M.bs M.headerSize })
  else
    (res, stbuf)

def skipBlock (raw : Bytes) : Bool :=
  if M.allowHoles then raw.all (· == 0) else M.macBytes == 0

def macMatches (raw : Bytes) : Bool :=
  raw.take M.macBytes == macTag (M.cipher.mac64 (raw.drop M.macBytes) none) M.macBytes

def checkBlock (raw : Bytes) : Action (MACFile τ) (Option Bytes) :=
  if M.headerSize < raw.length then
    if M.skipBlock raw = false ∧ M.macMatches raw = false ∧ M.warnOnly = false then
      throw .macMismatch
    else
      pure (some (raw.drop M.headerSize))
  else
    pure (some [])

def readOneBlock (offset dataLen : ℕ) : Action (MACFile τ) (Option Bytes) := do
  match ← lift (M.base.read (locWithHeader offset M.bs M.headerSize)
      (M.headerSize + dataLen)) with
  | none => pure none
  | some raw => M.checkBlock raw

def randomHeader : Action (MACFile τ) (Option Bytes) := do
  if 0 < M.randBytes then
    let f ← get
    set { f with draws := f.draws + 1 }
    pure (M.random.randomize f.draws M.randBytes)
  else
    pure (some [])

def withHeader (rand data : Bytes) : Bytes :=
  macTag (M.cipher.mac64 (rand ++ data) none) M.macBytes ++ rand ++ data

def ChecksNothing (rand data : Bytes) : Prop :=
  0 < M.macBytes ∧ M.cipher.checksSize = true ∧ rand ++ data = []

instance (rand data : Bytes) : Decidable (M.ChecksNothing rand data) :=
  inferInstanceAs (Decidable (_ ∧ _ ∧ _))

lemma not_checksNothing (rand : Bytes) {data : Bytes} (h : data ≠ []) :
    ¬M.ChecksNothing rand data :=
  fun hnothing => List.append_ne_nil_of_right_ne_nil rand h hnothing.2.2

def writeOneBlock (offset : ℕ) (data : Bytes) : Action (MACFile τ) Bool := do
  match ← M.randomHeader with
  | none => pure false
  | some rand =>
    if M.ChecksNothing rand data then
      throw .assertFailed
    else
      lift (M.base.write (locWithHeader offset M.bs M.headerSize) (M.withHeader rand data))

def blockFile : BlockFileIO (MACFile τ) where
  blockSize := M.dataBlockSize
  blockSize_gt := M.dataBlockSize_gt
  allowHoles := M.allowHoles
  getSize := M.getSize
  readOneBlock := M.readOneBlock
  writeOneBlock := M.writeOneBlock

def truncate (size : ℕ) : Action (Cached (MACFile τ)) ℤ := do
  let res ← M.blockFile.truncate size none
  if res = 0 then
    let _ ← Cached.lift (lift (M.base.truncate (locWithHeader size M.bs M.headerSize)))
    pure res
  else
    pure res

end MACFileIO

end EncFS
