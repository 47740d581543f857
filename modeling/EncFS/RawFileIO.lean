import EncFS.FileIO
import EncFS.Outcome

/-! The lowest file layer, over the system calls of a file, and its cached size. -/

set_option autoImplicit false

namespace EncFS

open FlatArray

structure SystemCalls where
  lstat : Bool
  my_open : ℤ
  pread : Option ℕ
  pwrite : ℕ → Option ℕ
  truncate : ℕ

def SystemCalls.whole (n : ℕ) : SystemCalls := ⟨true, 3, some n, fun _ => some n, 0⟩

structure RawFile where
  raw : Bytes
  knownSize : Bool
  fileSize : ℕ
  fd : ℤ
  canWrite : Bool
  deriving DecidableEq, Repr

def RawFile.fresh (raw : Bytes) : RawFile := ⟨raw, false, 0, -1, false⟩

def stored (raw : Bytes) (offset count : ℕ) (buf : Bytes) : Bytes :=
  if count = 0 then raw else splice 0 raw offset (buf.take count)

namespace RawFileIO

variable (calls : SystemCalls)

def openFile (flags : ℕ) : Action RawFile ℤ := do
  let f ← get
  let requestWrite : Bool := flags &&& O_RDWR ≠ 0 ∨ flags &&& O_WRONLY ≠ 0
  if 0 ≤ f.fd ∧ (f.canWrite ∨ ¬ requestWrite) then
    -- using existing file descriptor
    pure f.fd
  else if 0 ≤ calls.my_open then do
    set { f with fd := calls.my_open, canWrite := requestWrite }
    pure calls.my_open
  else
    pure calls.my_open

def getSize : Action RawFile ℤ := do
  let f ← get
  if f.knownSize then
    pure f.fileSize
  else if calls.lstat then do
    set { f with fileSize := f.raw.length, knownSize := true }
    pure f.raw.length
  else
    pure (-1)

def read (offset dataLen : ℕ) : Action RawFile (Option Bytes) := do
  let f ← get
  if f.fd < 0 then throw .assertFailed
  else pure (calls.pread.map fun count => slice f.raw offset (min count dataLen))

def writeLoop : (retrys offset : ℕ) → (buf : Bytes) → Action RawFile (Option Bytes)
  | 0, _, buf => pure (some buf)
  | retrys + 1, offset, buf =>
    if buf = [] then
      pure (some [])
    else do
      let f ← get
      match calls.pwrite (retrys + 1) with
      | none => do
        set { f with knownSize := false }
        pure none
      | some count => do
        let writeSize := min count buf.length
        set { f with raw := stored f.raw offset writeSize buf }
        writeLoop retrys (offset + writeSize) (buf.drop writeSize)

def write (offset : ℕ) (data : Bytes) : Action RawFile Bool := do
  let f ← get
  if f.fd < 0 ∨ f.canWrite = false then
    throw .assertFailed
  else
    match ← writeLoop calls 10 offset data with
    | none => pure false
    | some rest => do
      let f ← get
      if rest ≠ [] then do
        -- max retries reached
        set { f with knownSize := false }
        pure false
      else if f.knownSize then do
        set { f with fileSize := max f.fileSize (offset + data.length) }
        pure true
      else
        pure true

def truncate (size : ℕ) : Action RawFile ℤ := do
  let f ← get
  if calls.truncate = 0 then do
    set { f with raw := resize 0 f.raw size, fileSize := size, knownSize := true }
    pure 0
  else do
    set { f with knownSize := false }
    pure (-(calls.truncate : ℤ))

def isWritable : Action RawFile Bool := do
  let f ← get
  pure f.canWrite

end RawFileIO

inductive RawCall
  | openFile (flags : ℕ)
  | getSize
  | read (offset dataLen : ℕ)
  | write (offset : ℕ) (data : Bytes)
  | truncate (size : ℕ)
  deriving DecidableEq, Repr

def RawCall.Valid : RawCall → Prop
  | .write _ data => data ≠ []
  | _ => True

namespace RawFile

def SizeTrue (f : RawFile) : Prop :=
  f.knownSize = true → f.fileSize = f.raw.length

open RawFileIO in
def perform (calls : SystemCalls) : RawCall → Action RawFile PUnit
  | .openFile flags => do
    let _ ← openFile calls flags
    pure ⟨⟩
  | .getSize => do
    let _ ← getSize calls
    pure ⟨⟩
  | .read offset dataLen => do
    let _ ← read calls offset dataLen
    pure ⟨⟩
  | .write offset data => do
    let _ ← write calls offset data
    pure ⟨⟩
  | .truncate size => do
    let _ ← truncate calls size
    pure ⟨⟩

def step (f : RawFile) (c : SystemCalls × RawCall) : RawFile :=
  finalState (perform c.1 c.2) f

def run (f : RawFile) (cs : List (SystemCalls × RawCall)) : RawFile :=
  cs.foldl step f

lemma fresh_sizeTrue (raw : Bytes) : (fresh raw).SizeTrue := fun h => by cases h

lemma sizeTrue_of_unknown {f : RawFile} (h : f.knownSize = false) : f.SizeTrue := fun h' => by
  rw [h] at h'
  cases h'

end RawFile

namespace RawFileIO

variable {calls : SystemCalls} {f : RawFile}

lemma stored_length {raw buf : Bytes} {offset count : ℕ} (hcount : count ≤ buf.length) :
    (stored raw offset count buf).length =
      if count = 0 then raw.length else max raw.length (offset + count) := by
  by_cases h : count = 0
  · simp [stored, h]
  · simp [stored, h, Nat.min_eq_left hcount]

/-- What the loop of `write` leaves: the size is given up after an error, and apart from that only
the bytes of the file have changed. A loop that wrote all has extended the file up to the end of
what it wrote. -/
def LoopOutcome (f : RawFile) (offset : ℕ) (buf : Bytes) : Option Bytes → RawFile → Prop
  | none, f' => f'.knownSize = false
  | some rest, f' => f' = { f with raw := f'.raw } ∧
    (rest = [] → f'.raw.length = if buf = [] then f.raw.length
      else max f.raw.length (offset + buf.length))

lemma writeLoop_outcome (retrys : ℕ) (f : RawFile) (offset : ℕ) (buf : Bytes) :
    ∃ res f', writeLoop calls retrys offset buf f = .ok res f' ∧ LoopOutcome f offset buf res f' := by
  induction retrys generalizing f offset buf with
  | zero =>
    refine ⟨some buf, f, rfl, rfl, ?_⟩
    rintro rfl
    simp
  | succ retrys ih =>
    by_cases hbuf : buf = []
    · refine ⟨some [], f, ?_, rfl, ?_⟩
      · simp [writeLoop, hbuf]
      · simp [hbuf]
    have hlen : 0 < buf.length := List.length_pos_iff.mpr hbuf
    cases hcall : calls.pwrite (retrys + 1) with
    | none =>
      refine ⟨none, { f with knownSize := false }, ?_, rfl⟩
      simp only [writeLoop, hbuf, if_false, Action.get_bind, hcall]
      rfl
    | some count =>
      obtain ⟨res, f', hrun, hout⟩ := ih
        { f with raw := stored f.raw offset (min count buf.length) buf }
        (offset + min count buf.length) (buf.drop (min count buf.length))
      refine ⟨res, f', ?_, ?_⟩
      · simpa [writeLoop, hbuf, hcall] using hrun
      · cases res with
        | none => exact hout
        | some rest =>
          obtain ⟨hsame, hall⟩ := hout
          refine ⟨by rw [hsame], fun hrest => ?_⟩
          have hdrop : buf.drop (min count buf.length) = [] ↔ buf.length ≤ min count buf.length :=
            List.drop_eq_nil_iff
          rw [hall hrest, stored_length (Nat.min_le_right _ _), List.length_drop]
          simp only [hdrop, hbuf, if_false]
          split <;> split <;> omega

lemma write_sizeTrue {offset : ℕ} {data : Bytes} (hf : f.SizeTrue) (hdata : data ≠ []) :
    Yields (write calls offset data) f (fun _ => RawFile.SizeTrue) fun _ => RawFile.SizeTrue := by
  refine .get ?_
  by_cases hopen : f.fd < 0 ∨ f.canWrite = false
  · rw [if_pos hopen]
    exact .of_error rfl hf
  rw [if_neg hopen]
  obtain ⟨res, f', hrun, hout⟩ : ∃ res f', writeLoop calls 10 offset data f = .ok res f' ∧
      LoopOutcome f offset data res f' := writeLoop_outcome 10 f offset data
  refine .bind (.of_ok hrun ?_)
  cases res with
  | none => exact .pure (RawFile.sizeTrue_of_unknown hout)
  | some rest =>
    obtain ⟨hsame, hall⟩ := hout
    refine .get ?_
    by_cases hrest : rest = []
    · rw [if_neg (not_not_intro hrest)]
      by_cases hknown : f'.knownSize = true
      · rw [if_pos hknown]
        refine .set (.pure fun _ => ?_)
        have hsize : f'.fileSize = f.raw.length := by
          rw [hsame] at hknown ⊢
          exact hf hknown
        simp only [hall hrest, hdata, if_false, hsize]
      · rw [if_neg hknown]
        exact .pure (RawFile.sizeTrue_of_unknown (Bool.eq_false_iff.mpr hknown))
    · rw [if_pos hrest]
      exact .set (.pure (RawFile.sizeTrue_of_unknown rfl))

lemma getSize_sizeTrue (hf : f.SizeTrue) :
    Yields (getSize calls) f (fun _ => RawFile.SizeTrue) fun _ => RawFile.SizeTrue := by
  refine .get ?_
  split
  · exact .pure hf
  · split
    · exact .set (.pure fun _ => rfl)
    · exact .pure hf

lemma truncate_sizeTrue (size : ℕ) :
    Yields (truncate calls size) f (fun _ => RawFile.SizeTrue) fun _ => RawFile.SizeTrue := by
  refine .get ?_
  split
  · exact .set (.pure fun _ => by simp)
  · exact .set (.pure (RawFile.sizeTrue_of_unknown rfl))

lemma openFile_sizeTrue (flags : ℕ) (hf : f.SizeTrue) :
    Yields (openFile calls flags) f (fun _ => RawFile.SizeTrue) fun _ => RawFile.SizeTrue := by
  refine .get ?_
  dsimp only
  split
  · exact .pure hf
  · split
    · exact .set (.pure hf)
    · exact .pure hf

lemma read_sizeTrue (offset dataLen : ℕ) (hf : f.SizeTrue) :
    Yields (read calls offset dataLen) f (fun _ => RawFile.SizeTrue) fun _ => RawFile.SizeTrue := by
  refine .get ?_
  split
  · exact .of_error rfl hf
  · exact .pure hf

end RawFileIO

namespace RawFile

open RawFileIO in
lemma step_sizeTrue {f : RawFile} (hf : f.SizeTrue) {c : SystemCalls × RawCall} (hc : c.2.Valid) :
    (f.step c).SizeTrue := by
  obtain ⟨calls, call⟩ := c
  refine Yields.final ?_
  have hdone {α : Type} {x : Action RawFile α}
      (h : Yields x f (fun _ => SizeTrue) fun _ => SizeTrue) :
      Yields (do let _ ← x; pure PUnit.unit) f (fun _ => SizeTrue) fun _ => SizeTrue :=
    .bind (h.mono (fun _ _ h => .pure h) fun _ _ h => h)
  cases call with
  | openFile flags => exact hdone (openFile_sizeTrue flags hf)
  | getSize => exact hdone (getSize_sizeTrue hf)
  | read offset dataLen => exact hdone (read_sizeTrue offset dataLen hf)
  | write offset data => exact hdone (write_sizeTrue hf hc)
  | truncate size => exact hdone (truncate_sizeTrue size)

lemma run_sizeTrue {f : RawFile} (hf : f.SizeTrue) {cs : List (SystemCalls × RawCall)}
    (hcs : ∀ c ∈ cs, c.2.Valid) : (f.run cs).SizeTrue := by
  induction cs generalizing f with
  | nil => exact hf
  | cons c cs ih =>
    exact ih (step_sizeTrue hf (hcs c (by simp))) fun c' hc' => hcs c' (by simp [hc'])

/-- The size that a file object has cached is that of the file, whatever its system calls did. -/
theorem cached_size (raw : Bytes) {cs : List (SystemCalls × RawCall)}
    (hcs : ∀ c ∈ cs, c.2.Valid) : ((fresh raw).run cs).SizeTrue :=
  run_sizeTrue (fresh_sizeTrue raw) hcs

def failsLater : SystemCalls :=
  { SystemCalls.whole 3 with pwrite := fun retrys => if retrys = 10 then some 2 else none }

theorem cached_size_failsLater :
    ((fresh [1, 2, 3]).run [(.whole 0, .openFile O_RDWR), (.whole 0, .getSize),
      (failsLater, .write 3 [4, 5, 6]), (.whole 0, .getSize)]).SizeTrue :=
  cached_size [1, 2, 3] (by simp [RawCall.Valid])

end RawFile

namespace RawFileIO

def fileIO : FileIO RawFile where
  getSize := do
    let size ← getSize (.whole 0)
    pure size.toNat
  read offset dataLen := read (.whole dataLen) offset dataLen
  write offset data := write (.whole data.length) offset data
  openFile flags := openFile (.whole 0) flags
  setIV _ := pure true
  truncate size := truncate (.whole 0) size
  isWritable := isWritable

structure Opened (f : RawFile) (c : Bytes) : Prop where
  raw : f.raw = c
  fd : 0 ≤ f.fd
  canWrite : f.canWrite = true
  sizeTrue : f.SizeTrue

section

variable {f : RawFile} {c : Bytes}

lemma getSize_whole (h : Opened f c) :
    ∃ f', getSize (.whole 0) f = .ok (c.length : ℤ) f' ∧ Opened f' c := by
  obtain ⟨rfl, hfd, hcan, hsize⟩ := h
  by_cases hknown : f.knownSize = true
  · refine ⟨f, ?_, rfl, hfd, hcan, hsize⟩
    simp only [getSize, Action.get_bind, hknown, if_true, hsize hknown]
    rfl
  · refine ⟨{ f with fileSize := f.raw.length, knownSize := true }, ?_, rfl, hfd, hcan,
      fun _ => rfl⟩
    simp only [getSize, Action.get_bind, hknown, SystemCalls.whole, if_true]
    rfl

lemma write_whole {data : Bytes} (offset : ℕ) (h : Opened f c) (hdata : data ≠ []) :
    ∃ f', write (.whole data.length) offset data f = .ok true f' ∧
      Opened f' (splice 0 c offset data) := by
  obtain ⟨hraw, hfd, hcan, hsize⟩ := h
  have hopen : ¬ (f.fd < 0 ∨ f.canWrite = false) := by
    rw [hcan]
    simp [hfd]
  have hloop : writeLoop (.whole data.length) 10 offset data f =
      .ok (some []) { f with raw := splice 0 f.raw offset data } := by
    have hstored : stored f.raw offset data.length data = splice 0 f.raw offset data := by
      simp [stored, hdata]
    simp only [writeLoop, hdata, if_false, Action.get_bind, SystemCalls.whole, Nat.min_self,
      hstored, List.drop_length, if_true]
    rfl
  simp only [write, Action.get_bind, if_neg hopen]
  rw [Action.bind_ok hloop]
  by_cases hknown : f.knownSize = true
  · refine ⟨{ f with raw := splice 0 f.raw offset data,
                     fileSize := max f.fileSize (offset + data.length) }, ?_, by rw [hraw], hfd,
      hcan, fun _ => ?_⟩
    · simp only [ne_eq, not_true, if_false, Action.get_bind, hknown, if_true]
      rfl
    · simp [hsize hknown]
  · refine ⟨{ f with raw := splice 0 f.raw offset data }, ?_, by rw [hraw], hfd, hcan,
      fun h => (hknown h).elim⟩
    simp only [ne_eq, not_true, if_false, Action.get_bind, hknown]
    rfl

lemma truncate_whole (size : ℕ) (h : Opened f c) :
    ∃ f', truncate (.whole 0) size f = .ok 0 f' ∧ Opened f' (resize 0 c size) := by
  obtain ⟨hraw, hfd, hcan, hsize⟩ := h
  refine ⟨{ f with raw := resize 0 f.raw size, fileSize := size, knownSize := true }, rfl,
    by rw [hraw], hfd, hcan, fun _ => ?_⟩
  simp

end

theorem fileIO_flatStore : fileIO.FlatStore Opened where
  getSize h := by
    obtain ⟨f', hrun, h'⟩ := getSize_whole h
    refine ⟨f', ?_, h'⟩
    exact Action.bind_ok hrun
  read {f c} offset dataLen h := by
    refine ⟨f, ?_, h⟩
    simp [read, fileIO, SystemCalls.whole, Int.not_lt.mpr h.fd, h.raw]
  write offset _ h hdata := write_whole offset h hdata
  openFile {f c} flags h := by
    refine ⟨f.fd, f, ?_, h.fd, h⟩
    simp [openFile, fileIO, h.fd, h.canWrite]
  truncate size h := truncate_whole size h
  isWritable {f c} h := by
    refine ⟨f, ?_, h⟩
    rw [← h.canWrite]
    rfl

end RawFileIO

end EncFS
