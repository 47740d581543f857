import EncFS.Fuse4Win.RangeLocks

set_option autoImplicit false

namespace EncFS.Fuse4Win

def MAX_READ_SIZE : ℕ := 65536
def ULONG_MAX : ℕ := 2 ^ 32 - 1

structure Transfer where
  size : ℕ
  off : ℤ

structure TransferResult where
  res : ℤ
  bytes : ℕ
  buffer : Bytes
  calls : List Transfer

def TransferResult.refused (res : ℤ) : TransferResult := ⟨res, 0, [], []⟩

abbrev ReadAnswers := List Transfer → Except ℤ Bytes

abbrev WriteAnswers := Transfer → Bytes → ℤ

def readLoop (read : ReadAnswers) : (fuel num_bytes_to_read : ℕ) → (off : ℤ) → (buffer : Bytes) →
    (calls : List Transfer) → TransferResult
  | 0, _, _, buffer, calls => ⟨0, buffer.length, buffer, calls⟩
  | fuel + 1, num_bytes_to_read, off, buffer, calls =>
    if buffer.length < num_bytes_to_read then
      let to_read := min (num_bytes_to_read - buffer.length) MAX_READ_SIZE
      let calls := ⟨to_read, off⟩ :: calls
      match read calls with
      | .error e => ⟨e, 0, buffer, calls⟩
      | .ok [] => ⟨0, buffer.length, buffer, calls⟩
      | .ok d => readLoop read fuel num_bytes_to_read (off + d.length) (buffer ++ d) calls
    else
      ⟨0, buffer.length, buffer, calls⟩

lemma readLoop_calls (read : ReadAnswers) (fuel num_bytes_to_read : ℕ) (off : ℤ) (buffer : Bytes)
    (calls : List Transfer) :
    calls <:+ (readLoop read fuel num_bytes_to_read off buffer calls).calls := by
  induction fuel generalizing off buffer calls with
  | zero => exact List.suffix_rfl
  | succ fuel ih =>
    rw [readLoop]
    split
    · dsimp only
      split
      · exact List.suffix_cons _ _
      · exact List.suffix_cons _ _
      · exact (List.suffix_cons _ _).trans (ih _ _ _)
    · exact List.suffix_rfl

lemma readLoop_asks (read : ReadAnswers) (n : ℕ) (off : ℤ) :
    (readLoop read (n + 1) (n + 1) off [] []).calls ≠ [] := by
  intro hnone
  have hcall : [⟨min (n + 1) MAX_READ_SIZE, off⟩] <:+
      (readLoop read (n + 1) (n + 1) off [] []).calls := by
    rw [readLoop, if_pos (by simp)]
    dsimp only
    split
    · exact List.suffix_rfl
    · exact List.suffix_rfl
    · exact readLoop_calls _ _ _ _ _ _
  rw [hnone] at hcall
  exact List.cons_ne_nil _ _ (List.suffix_nil.mp hcall)

namespace ImplFileLock

variable (L : ImplFileLock)

def checkLock (file : ℕ) (start len : ℤ) : Option ℤ :=
  (L.lockFile file start len false).map Prod.fst

def readFile (read : Option ReadAnswers) (hndl : Option (ℕ × ImplFileHandle))
    (num_bytes_to_read : ℕ) (offset : ℤ) : Option TransferResult :=
  match read, hndl with
  | some read, some (file, handle) =>
    if handle.is_dir_ then
      pure (.refused (-EACCES))
    else do
      let res ← L.checkLock file offset num_bytes_to_read
      if res ≠ 0 then
        pure (.refused (-EACCES))
      else
        pure (readLoop read num_bytes_to_read num_bytes_to_read offset [] [])
  | _, _ => pure (.refused (-EINVAL))

def writeFile (write : Option WriteAnswers) (max_write : ℕ)
    (hndl : Option (ℕ × ImplFileHandle)) (buffer : Bytes) (offset : ℤ) : Option TransferResult :=
  match write, hndl with
  | some write, some (file, handle) =>
    if handle.is_dir_ then
      pure (.refused (-EACCES))
    else do
      let num_bytes_to_write := min buffer.length max_write
      let res ← L.checkLock file offset num_bytes_to_write
      if res ≠ 0 then
        pure (.refused (-EACCES))
      else
        let call := ⟨num_bytes_to_write, offset⟩
        let res := write call (buffer.take num_bytes_to_write)
        if res < 0 then pure ⟨res, 0, [], [call]⟩ else pure ⟨0, res.toNat, [], [call]⟩
  | _, _ => pure (.refused (-EINVAL))

/-- Another handle has locked a byte of the range. -/
def LockedByOther (file : ℕ) (offset len : ℤ) : Prop :=
  ∃ r ∈ L.held, r.1 ≠ file ∧ (bytesOf r.2 ∩ bytesOf (offset, len)).Nonempty

/-- A file handle is refused before the file system is asked, which only locks can do. -/
def RefusedForLocks (result : Option TransferResult) : Prop :=
  ∃ r, result = some r ∧ r.res = -EACCES ∧ r.calls = []

end ImplFileLock

namespace RangeCall

def Possible (L : ImplFileLock) : RangeCall → Prop
  | openFile file _ _ => file ∉ L.files
  | closeFile file => file ∈ L.files
  | lockFile file start len | unlockFile file start len =>
    file ∈ L.files ∧ start ∈ Set.Icc LONGLONG_MIN LONGLONG_MAX ∧
      len ∈ Set.Icc LONGLONG_MIN LONGLONG_MAX

end RangeCall

inductive ReachedLocks : ImplFileLock → Prop
  | fresh (name_ : Bytes) : ReachedLocks ⟨name_, []⟩
  | step {L L' : ImplFileLock} {c : RangeCall} {res : ℤ} : ReachedLocks L → c.Possible L →
      c.perform L = some (res, L') → ReachedLocks L'

namespace ImplFileLock

variable {L L' : ImplFileLock}

lemma valid_or_invalid {start len : ℤ} (hstart : start ∈ Set.Icc LONGLONG_MIN LONGLONG_MAX)
    (hlen : len ∈ Set.Icc LONGLONG_MIN LONGLONG_MAX) :
    ValidRange (start, len) ∨ (start < 0 ∨ len ≤ 0) := by
  by_cases hinvalid : start < 0 ∨ len ≤ 0
  · exact .inr hinvalid
  · obtain ⟨hnonneg, hpos⟩ := not_or.mp hinvalid
    exact .inl ⟨Int.not_lt.mp hnonneg, hstart.2, by dsimp only; omega, hlen.2⟩

lemma reached_ranges (h : ReachedLocks L) : ReachedRanges L := by
  induction h with
  | fresh name_ => exact .fresh name_
  | @step L L' c res hL hcall hperform ih =>
    cases c with
    | openFile file is_dir_ shared_mode_ =>
      exact ih.step (c := .openFile file is_dir_ shared_mode_) hcall hperform
    | closeFile file => exact ih.step (c := .closeFile file) hcall hperform
    | lockFile file start len =>
      obtain ⟨hfile, hstart, hlen⟩ := hcall
      rcases valid_or_invalid hstart hlen with hvalid | hinvalid
      · exact ih.step (c := .lockFile file start len) ⟨hfile, hvalid⟩ hperform
      · rw [RangeCall.perform, lockFile, if_pos hinvalid] at hperform
        cases hperform
        exact ih
    | unlockFile file start len =>
      obtain ⟨hfile, hstart, hlen⟩ := hcall
      rcases valid_or_invalid hstart hlen with hvalid | hinvalid
      · exact ih.step (c := .unlockFile file start len) ⟨hfile, hvalid⟩ hperform
      · rw [RangeCall.perform, unlockFile, if_pos hinvalid] at hperform
        split at hperform
        · cases hperform
          exact ih
        · cases hperform
          exact ih

variable {file : ℕ} {offset : ℤ} {len : ℕ}

lemma not_lockedByOther_empty : ¬L.LockedByOther file offset 0 := by
  rintro ⟨r, -, -, b, -, hle, hlt⟩
  dsimp only at hle hlt
  omega

lemma lockedByOther_iff {len : ℤ} : L.LockedByOther file offset len ↔
    ∃ i ∈ L.first, (false = true ∨ i.1 ≠ file) ∧
      ∃ r ∈ i.2.locks.entries, ¬Disjoint (bytesOf r) (bytesOf (offset, len)) := by
  simp only [Bool.false_eq_true, false_or, Set.not_disjoint_iff_nonempty_inter]
  constructor
  · rintro ⟨⟨f, r⟩, hr, hother, hmeets⟩
    obtain ⟨handle, hmem, hr⟩ := mem_held.mp hr
    exact ⟨(f, handle), hmem, hother, r, hr, hmeets⟩
  · rintro ⟨⟨f, handle⟩, hmem, hother, r, hr, hmeets⟩
    exact ⟨(f, r), mem_held.mpr ⟨handle, hmem, hr⟩, hother, hmeets⟩

lemma LockedByOther.mono {len len' : ℤ} (h : L.LockedByOther file offset len) (hle : len ≤ len') :
    L.LockedByOther file offset len' := by
  obtain ⟨r, hr, hother, hmeets⟩ := h
  refine ⟨r, hr, hother, hmeets.mono (Set.inter_subset_inter_right _ ?_)⟩
  apply Set.Ico_subset_Ico_right
  dsimp only
  omega

lemma checkLock_empty : L.checkLock file offset 0 = some (-EINVAL) := by
  rw [checkLock, lockFile, if_pos (.inr (Int.le_refl 0))]
  rfl

section Requests

variable (h : L.RangesDisjoint) (hoffset : offset ∈ Set.Icc 0 LONGLONG_MAX)
  (hlen : len ≤ ULONG_MAX)
include h hoffset hlen

variable (file) in
lemma checkLock_spec : ∃ res, L.checkLock file offset len = some res ∧
    (res ≠ 0 ↔ len = 0 ∨ L.LockedByOther file offset len) := by
  by_cases hzero : len = 0
  · subst hzero
    exact ⟨-EINVAL, checkLock_empty, iff_of_true (by decide) (.inl rfl)⟩
  have hvalid : ValidRange (offset, (len : ℤ)) := by
    refine ⟨hoffset.1, hoffset.2, ?_, ?_⟩
    · dsimp only
      omega
    · rw [ULONG_MAX] at hlen
      rw [LONGLONG_MAX]
      dsimp only
      omega
  have hinvalid : ¬(offset < 0 ∨ (len : ℤ) ≤ 0) := by
    have := hoffset.1
    omega
  obtain ⟨locked, hloop, hiff⟩ := anyHoldsPart_spec hvalid false file fun i hi => h.locks hi
  rw [← lockedByOther_iff] at hiff
  rw [checkLock, lockFile, if_neg hinvalid, hloop, or_iff_right hzero, ← hiff]
  cases locked with
  | true => exact ⟨-EACCES, rfl, by decide⟩
  | false => exact ⟨0, rfl, by decide⟩

lemma readFile_refused {handle : ImplFileHandle} (hfile : handle.is_dir_ = false)
    (read : ReadAnswers) :
    RefusedForLocks (L.readFile (some read) (some (file, handle)) len offset) ↔
      len = 0 ∨ L.LockedByOther file offset len := by
  obtain ⟨res, hcheck, hres⟩ := checkLock_spec file h hoffset hlen
  rw [← hres, readFile]
  simp only [hfile, hcheck]
  by_cases hzero : res = 0
  · subst hzero
    refine iff_of_false ?_ (not_not.mpr rfl)
    rintro ⟨r, hr, -, hcalls⟩
    obtain rfl := Option.some.inj hr
    cases len with
    | zero => exact hres.mpr (.inl rfl) rfl
    | succ n => exact readLoop_asks read n offset hcalls
  · refine iff_of_true ⟨.refused (-EACCES), ?_, rfl, rfl⟩ hzero
    simp [hzero]

omit hlen in
lemma writeFile_refused {handle : ImplFileHandle} (hfile : handle.is_dir_ = false)
    (write : WriteAnswers) (max_write : ℕ) {buffer : Bytes} (hlen : buffer.length ≤ ULONG_MAX) :
    RefusedForLocks (L.writeFile (some write) max_write (some (file, handle)) buffer offset) ↔
      min buffer.length max_write = 0 ∨
        L.LockedByOther file offset (min buffer.length max_write : ℕ) := by
  obtain ⟨res, hcheck, hres⟩ :=
    checkLock_spec file h hoffset (Nat.le_trans (Nat.min_le_left _ max_write) hlen)
  rw [← hres, writeFile]
  simp only [hfile, hcheck]
  by_cases hzero : res = 0
  · subst hzero
    refine iff_of_false ?_ (not_not.mpr rfl)
    rintro ⟨r, hr, -, hcalls⟩
    revert hr
    dsimp only [Option.bind_eq_bind, Option.bind_some]
    rw [if_neg (by decide), if_neg (not_not.mpr rfl)]
    split
    · rintro ⟨⟩
      cases hcalls
    · rintro ⟨⟩
      cases hcalls
  · refine iff_of_true ⟨.refused (-EACCES), ?_, rfl, rfl⟩ hzero
    simp [hzero]

end Requests

/-- A request is refused just for locks of other handles unless there is nothing to read or write,
or a write is cut off before the only such lock. -/
theorem lock_refusals (h : ReachedLocks L) {handle : ImplFileHandle}
    (hfile : handle.is_dir_ = false) (file : ℕ) (hoffset : offset ∈ Set.Icc 0 LONGLONG_MAX) :
    (∀ (read : ReadAnswers) (len : ℕ), len ≤ ULONG_MAX →
      ((RefusedForLocks (L.readFile (some read) (some (file, handle)) len offset) ↔
        L.LockedByOther file offset len) ↔ len ≠ 0)) ∧
    ∀ (write : WriteAnswers) (max_write : ℕ) (buffer : Bytes), buffer.length ≤ ULONG_MAX →
      ((RefusedForLocks
          (L.writeFile (some write) max_write (some (file, handle)) buffer offset) ↔
        L.LockedByOther file offset buffer.length) ↔
      if min buffer.length max_write = 0 then L.LockedByOther file offset buffer.length
      else L.LockedByOther file offset buffer.length →
        L.LockedByOther file offset (min buffer.length max_write : ℕ)) := by
  have hdisjoint := reached_rangesDisjoint (reached_ranges h)
  constructor
  · intro read len hlen
    rw [readFile_refused hdisjoint hoffset hlen hfile read]
    constructor
    · rintro hiff rfl
      exact not_lockedByOther_empty (hiff.mp (.inl rfl))
    · intro hlen
      exact or_iff_right hlen
  · intro write max_write buffer hlen
    rw [writeFile_refused hdisjoint hoffset hfile write max_write hlen]
    by_cases hnone : min buffer.length max_write = 0
    · rw [if_pos hnone]
      exact ⟨fun hiff => hiff.mp (.inl hnone), fun hlocked => iff_of_true (.inl hnone) hlocked⟩
    · rw [if_neg hnone, or_iff_right hnone]
      refine ⟨fun hiff => hiff.mpr, fun hsame => ⟨fun hlocked => ?_, hsame⟩⟩
      exact hlocked.mono (by omega)

def lockedTwice : ImplFileLock where
  name_ := [47, 97]
  first := [(2, ⟨false, 3, OrderedMap.empty.insert 10 10⟩), (1, ⟨false, 3, .empty⟩)]

lemma reached_lockedTwice : ReachedLocks lockedTwice := by
  have hopen : ReachedLocks ⟨[47, 97], [(1, ⟨false, 3, .empty⟩)]⟩ :=
    .step (c := .openFile 1 false 3) (.fresh [47, 97]) List.not_mem_nil rfl
  have hsecond : ReachedLocks ⟨[47, 97], [(2, ⟨false, 3, .empty⟩), (1, ⟨false, 3, .empty⟩)]⟩ :=
    .step (c := .openFile 2 false 3) hopen (by change 2 ∉ [1]; decide) rfl
  exact .step (c := .lockFile 2 10 10) hsecond
    ⟨by decide, ⟨by decide, by decide⟩, ⟨by decide, by decide⟩⟩ rfl

theorem lock_refusals_lockedTwice :
    ((RefusedForLocks (lockedTwice.readFile (some fun _ => .ok [])
        (some (1, ⟨false, 3, .empty⟩)) 5 12) ↔ lockedTwice.LockedByOther 1 12 5) ↔ 5 ≠ 0) ∧
      ((RefusedForLocks (lockedTwice.writeFile (some fun _ d => d.length) ULONG_MAX
          (some (1, ⟨false, 3, .empty⟩)) [1, 2, 3, 4, 5] 12) ↔ lockedTwice.LockedByOther 1 12 5) ↔
        if min 5 ULONG_MAX = 0 then lockedTwice.LockedByOther 1 12 5
        else lockedTwice.LockedByOther 1 12 5 →
          lockedTwice.LockedByOther 1 12 (min 5 ULONG_MAX : ℕ)) := by
  have hfile : (ImplFileHandle.mk false 3 .empty).is_dir_ = false := rfl
  have hoffset : (12 : ℤ) ∈ Set.Icc 0 LONGLONG_MAX := ⟨by decide, by decide⟩
  obtain ⟨hread, hwrite⟩ := lock_refusals reached_lockedTwice hfile 1 hoffset
  exact ⟨hread (fun _ => .ok []) 5 (by decide),
    hwrite (fun _ d => d.length) ULONG_MAX [1, 2, 3, 4, 5] (by decide)⟩

theorem not_lock_refusals :
    ¬∀ (L : ImplFileLock) (file : ℕ) (handle : ImplFileHandle) (offset : ℤ) (len : ℕ)
      (read : ReadAnswers), ReachedLocks L → (file, handle) ∈ L.first → handle.is_dir_ = false →
      offset ∈ Set.Icc 0 LONGLONG_MAX → len ≤ ULONG_MAX →
      (RefusedForLocks (L.readFile (some read) (some (file, handle)) len offset) ↔
        L.LockedByOther file offset len) := by
  intro h
  have hiff := h lockedTwice 1 ⟨false, 3, .empty⟩ 0 0 (fun _ => .ok []) reached_lockedTwice
    (by simp [lockedTwice]) rfl ⟨by decide, by decide⟩ (by decide)
  exact not_lockedByOther_empty (hiff.mp ⟨.refused (-EACCES), rfl, rfl, rfl⟩)

end ImplFileLock

end EncFS.Fuse4Win
