import EncFS.BlockFileIO
import EncFS.Blockwise
import EncFS.Outcome

set_option autoImplicit false

namespace EncFS

open FlatArray

inductive Fault
  | fails
  | raises
  deriving DecidableEq, Repr

/-- What goes wrong below during one call, which reads and writes each block at most once. A write
that goes wrong has stored some bytes of the block. -/
structure Faults where
  read : ℕ → Option Fault
  write : ℕ → Option (Fault × ℕ)
  truncate : Option Fault

structure FaultyFile where
  raw : Bytes
  faults : Faults

structure BlockCodec (bs : ℕ) where
  encode : ℕ → Bytes → Bytes
  decode : ℕ → Bytes → Bytes
  encode_length : LengthPreserving bs encode
  decode_length : LengthPreserving bs decode
  decode_encode {k : ℕ} {d : Bytes} : d.length ≤ bs → decode k (encode k d) = d

structure FaultyStore where
  blockSize : ℕ
  blockSize_gt : 1 < blockSize
  allowHoles : Bool
  codec : BlockCodec blockSize
  passesBase : Bool

namespace Faults

def none : Faults := ⟨fun _ => .none, fun _ => .none, .none⟩

/-- If the write of block `k` raises an error, it has stored the whole block of `bs` bytes before. -/
def RaisesLate (faults : Faults) (bs k : ℕ) : Prop :=
  ∀ n, faults.write k = some (.raises, n) → bs ≤ n

def RaiseLate (faults : Faults) (bs start stop : ℕ) : Prop :=
  ∀ k, start / bs ≤ k → k * bs < stop → faults.RaisesLate bs k

def Raises (faults : Faults) (k : ℕ) : Prop :=
  ∃ n, faults.write k = some (.raises, n)

end Faults

def Fault.outcome {σ α : Type} (value : α) : Fault → Action σ α
  | .fails => pure value
  | .raises => throw .assertFailed

def land (raw : Bytes) (offset : ℕ) (d : Bytes) : Bytes :=
  if d = [] then raw else splice 0 raw offset d

def EIO : ℤ := 5

namespace FaultyStore

variable (S : FaultyStore)

def readOneBlock (offset dataLen : ℕ) : Action FaultyFile (Option Bytes) := do
  let f ← get
  match f.faults.read (offset / S.blockSize) with
  | none => pure (some (S.codec.decode (offset / S.blockSize) (slice f.raw offset dataLen)))
  | some fault => fault.outcome none

def writeOneBlock (offset : ℕ) (data : Bytes) : Action FaultyFile Bool := do
  let f ← get
  let encoded := S.codec.encode (offset / S.blockSize) data
  match f.faults.write (offset / S.blockSize) with
  | none => do
    set { f with raw := land f.raw offset encoded }
    pure true
  | some (fault, n) => do
    set { f with raw := land f.raw offset (encoded.take n) }
    fault.outcome false

def truncateBase (size : ℕ) : Action FaultyFile ℤ := do
  let f ← get
  match f.faults.truncate with
  | none => do
    set { f with raw := resize 0 f.raw size }
    pure 0
  | some fault => fault.outcome (- EIO)

def blockFile : BlockFileIO FaultyFile where
  blockSize := S.blockSize
  blockSize_gt := S.blockSize_gt
  allowHoles := S.allowHoles
  getSize := do
    let f ← get
    pure f.raw.length
  readOneBlock := S.readOneBlock
  writeOneBlock := S.writeOneBlock

def truncate (size : ℕ) : Action (Cached FaultyFile) ℤ :=
  if S.passesBase then
    S.blockFile.truncate size (some truncateBase)
  else do
    let res ← S.blockFile.truncate size none
    if res = 0 then Cached.lift (truncateBase size) else pure res

def perform : Operation → Action (Cached FaultyFile) PUnit
  | .request q => do
    let _ ← S.blockFile.accessors.serve q
    pure ⟨⟩
  | .truncate size => do
    let _ ← S.truncate size
    pure ⟨⟩

def withFaults (faults : Faults) (o : Cached FaultyFile) : Cached FaultyFile :=
  { o with file := { o.file with faults := faults } }

def step (o : Cached FaultyFile) (op : Operation) (faults : Faults) : Cached FaultyFile :=
  finalState (S.perform op) (withFaults faults o)

def MergeReads (size e : ℕ) (faults : Faults) : Prop :=
  faults.read (e / S.blockSize) = some .fails → e % S.blockSize = 0 ∨ size ≤ e

/-- A shrinking truncate: on a block boundary nothing is cached past it, and inside a block the file
is cut off or else the block is not written either. -/
def Cuts (cache : Cache) (size : ℕ) (faults : Faults) : Prop :=
  if size % S.blockSize = 0 then
    faults.truncate = none → cache.data ≠ [] → cache.offset < size
  else
    (∃ n, faults.write (size / S.blockSize) = some (.fails, n)) ∨
      (S.passesBase = true ∧ faults.truncate = some .raises) ∨
      (faults.truncate = none ∧
        if S.passesBase then faults.RaisesLate S.blockSize (size / S.blockSize)
        else ¬faults.Raises (size / S.blockSize))

def Grows (oldSize size : ℕ) (faults : Faults) : Prop :=
  (S.passesBase = true ∧ faults.truncate = some .raises) ∨
    faults.RaiseLate S.blockSize oldSize size

/-- The calls that leave a coherent cache coherent. -/
def Careful (o : Cached FaultyFile) (op : Operation) (faults : Faults) : Prop :=
  match op with
  | .request (.read _ _) => True
  | .request (.write offset data) =>
    faults.RaiseLate S.blockSize (min o.file.raw.length offset) (offset + data.length) ∧
      S.MergeReads o.file.raw.length (offset + data.length) faults
  | .truncate size =>
    (o.file.raw.length < size → S.Grows o.file.raw.length size faults) ∧
      (size < o.file.raw.length → S.Cuts o.cache size faults)

inductive Reached (allowed : Cached FaultyFile → Operation → Faults → Prop) :
    Cached FaultyFile → Prop
  | fresh (file : FaultyFile) : Reached allowed ⟨Cache.empty, file⟩
  | step {o : Cached FaultyFile} (h : Reached allowed o) (op : Operation) (faults : Faults)
      (allow : allowed o op faults) : Reached allowed (S.step o op faults)

/-- What is in the cache is what `readOneBlock` returns when nothing goes wrong. -/
def CacheTrue (o : Cached FaultyFile) : Prop :=
  o.cache.data ≠ [] → S.blockFile.readOneBlock o.cache.offset S.blockSize
    { o.file with faults := .none } = .ok (some o.cache.data) { o.file with faults := .none }

def content (raw : Bytes) : Bytes :=
  mapBlocks S.blockSize S.codec.decode raw

end FaultyStore

end EncFS
