import EncFS.BlockFileIO.Faults
import EncFS.CipherFileIO

set_option autoImplicit false

namespace EncFS

open FlatArray

/-- What comes of the base calls of one operation, by the number of the call and the offset. A write
that goes wrong has stored some of its bytes. -/
structure BaseFaults where
  openFile : ℕ → ℤ
  read : (call offset : ℕ) → Option Fault
  write : (call offset : ℕ) → Option (Fault × ℕ)
  truncate : ℕ → Option Fault

structure BaseFile where
  raw : Bytes
  canWrite : Bool
  calls : ℕ
  faults : BaseFaults

namespace BaseFaults

def none : BaseFaults := ⟨fun _ => 3, fun _ _ => .none, fun _ _ => .none, fun _ => .none⟩

end BaseFaults

namespace BaseFile

def requestWrite (flags : ℕ) : Bool :=
  flags &&& O_RDWR ≠ 0 ∨ flags &&& O_WRONLY ≠ 0

def openFile (flags : ℕ) : Action BaseFile ℤ := do
  let b ← get
  let res := b.faults.openFile b.calls
  if 0 ≤ res then do
    set { b with calls := b.calls + 1, canWrite := b.canWrite || requestWrite flags }
    pure res
  else do
    set { b with calls := b.calls + 1 }
    pure res

def read (offset dataLen : ℕ) : Action BaseFile (Option Bytes) := do
  let b ← get
  set { b with calls := b.calls + 1 }
  match b.faults.read b.calls offset with
  | none => pure (some (slice b.raw offset dataLen))
  | some fault => fault.outcome none

def write (offset : ℕ) (data : Bytes) : Action BaseFile Bool := do
  let b ← get
  if b.canWrite then
    match b.faults.write b.calls offset with
    | none => do
      set { b with calls := b.calls + 1, raw := land b.raw offset data }
      pure true
    | some (fault, n) => do
      set { b with calls := b.calls + 1, raw := land b.raw offset (data.take n) }
      fault.outcome false
  else
    throw .assertFailed

def truncate (size : ℕ) : Action BaseFile ℤ := do
  let b ← get
  match b.faults.truncate b.calls with
  | none => do
    set { b with calls := b.calls + 1, raw := resize 0 b.raw size }
    pure 0
  | some fault => do
    set { b with calls := b.calls + 1 }
    fault.outcome (- EIO)

def fileIO : FileIO BaseFile where
  getSize := do
    let b ← get
    pure b.raw.length
  read := read
  write := write
  openFile := openFile
  setIV _ := pure true
  truncate := truncate
  isWritable := do
    let b ← get
    pure b.canWrite

end BaseFile

lemma land_take {raw d : Bytes} {offset n : ℕ} (hn : n ≤ offset) (hlen : n ≤ raw.length) :
    n ≤ (land raw offset d).length ∧ (land raw offset d).take n = raw.take n := by
  by_cases hd : d = []
  · simp [land, hd, hlen]
  · rw [land, if_neg hd]
    refine ⟨by rw [splice_length]; omega, ?_⟩
    apply List.ext_getElem?
    intro i
    simp only [List.getElem?_take, splice_getElem?]
    by_cases hi : i < n
    · rw [if_pos hi, if_pos hi, if_pos (by omega), List.getD_eq_getElem?_getD,
        List.getElem?_eq_getElem (by omega), Option.getD_some]
    · rw [if_neg hi, if_neg hi]

lemma land_start {raw d : Bytes} (hd : d ≠ []) (h : raw.length ≤ d.length) : land raw 0 d = d := by
  rw [land, if_neg hd, splice, List.drop_eq_nil_of_le (by omega)]
  simp [resize]

end EncFS
