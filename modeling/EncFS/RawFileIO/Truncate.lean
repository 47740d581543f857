import EncFS.Fuse4Win.ErrorTable
import EncFS.RawFileIO
import Mathlib.Algebra.Group.Nat.Defs

/-! `ftruncate` and `truncate` over the system calls of Windows. The low half of the new position
says whether `SetFilePointer` has succeeded. -/

set_option autoImplicit false

namespace EncFS

open FlatArray Fuse4Win

structure TruncateReplies where
  createFile : Option Win32Error
  createFileAgain : Option Win32Error
  setFilePointer : Option Win32Error
  setEndOfFile : Option Win32Error
  lastError : UInt32

structure FileHandle where
  raw : Bytes
  position : ℕ
  errno : ℤ

def INVALID_SET_FILE_POINTER : UInt32 := 0xFFFFFFFF

def setFilePointer (reply : Option Win32Error) (low high : UInt32) (h : FileHandle) :
    UInt32 × FileHandle :=
  match reply with
  | none => (low, { h with position := high.toNat * 2 ^ 32 + low.toNat })
  | some _ => (INVALID_SET_FILE_POINTER, h)

def setEndOfFile (reply : Option Win32Error) (h : FileHandle) : Bool × FileHandle :=
  match reply with
  | none => (true, { h with raw := resize 0 h.raw h.position })
  | some _ => (false, h)

def getLastError (reply : Option Win32Error) (lastError : UInt32) : UInt32 :=
  match reply with
  | none => lastError
  | some error => error

namespace Unix

variable (replies : TruncateReplies)

def truncateHandle (length : ℕ) (h : FileHandle) : ℤ × FileHandle :=
  let high := UInt32.ofNat (length / 2 ^ 32)
  match setFilePointer replies.setFilePointer (.ofNat length) high h with
  | (moved, h) =>
    if moved = 0 then
      let error := getLastError replies.setFilePointer replies.lastError
      (-1, { h with errno := lastErrno error })
    else
      match setEndOfFile replies.setEndOfFile h with
      | (false, h) =>
        let error := getLastError replies.setEndOfFile replies.lastError
        (-1, { h with errno := lastErrno error })
      | (true, h) => (0, h)

def ftruncate (length : ℕ) (h : FileHandle) : ℤ × FileHandle :=
  truncateHandle replies length h

def truncate (length : ℕ) (h : FileHandle) : ℤ × FileHandle :=
  match replies.createFile, replies.createFileAgain with
  | some _, some error => (-1, { h with errno := lastErrno error })
  | _, _ =>
    match truncateHandle replies length { h with position := 0 } with
    | (res, h') => (res, { h' with position := h.position })

end Unix

/-- What the two functions promise: `h'` is left of `h` by a call that returns `res`. -/
structure SetsLength (succeed : Prop) (n : ℕ) (h : FileHandle) (res : ℤ) (h' : FileHandle) : Prop where
  zero : succeed → res = 0
  length : res = 0 → h'.raw.length = n
  failed : res ≠ 0 → res = -1 ∧ h'.errno ≠ 0 ∧ h'.raw.length = h.raw.length

namespace TruncateReplies

variable (replies : TruncateReplies)

def Opens : Prop := replies.createFile = none ∨ replies.createFileAgain = none

/-- `SetEndOfFile` does not cut the file at a position that `SetFilePointer` did not move to. -/
def InPlace (n position : ℕ) : Prop :=
  replies.setFilePointer ≠ none → replies.setEndOfFile = none → position = n

/-- A length with no low half is taken for a failure of `SetFilePointer`. -/
def LowHalf (n : ℕ) : Prop :=
  replies.setFilePointer = none → n % 2 ^ 32 = 0 →
    replies.setEndOfFile ≠ none ∧ replies.lastError ≠ 0

end TruncateReplies

section Handle

variable {replies : TruncateReplies} {n : ℕ} {h : FileHandle}

lemma low_eq_zero : UInt32.ofNat n = 0 ↔ n % 2 ^ 32 = 0 := by
  rw [← UInt32.toNat_inj, UInt32.toNat_ofNat', UInt32.toNat_zero]

lemma failed_ne_zero : (-1 : ℤ) ≠ 0 := by decide

open Unix TruncateReplies

lemma truncateHandle_low (hmove : replies.setFilePointer = none) (hlow : n % 2 ^ 32 = 0) :
    (truncateHandle replies n h).1 = -1 ∧ (truncateHandle replies n h).2.raw = h.raw ∧
      (truncateHandle replies n h).2.errno = lastErrno replies.lastError := by
  simp [truncateHandle, setFilePointer, hmove, low_eq_zero.mpr hlow, getLastError]

lemma truncateHandle_end (hmove : replies.setFilePointer = none → n % 2 ^ 32 ≠ 0)
    (error : Win32Error) (hend : replies.setEndOfFile = some error) :
    (truncateHandle replies n h).1 = -1 ∧ (truncateHandle replies n h).2.raw = h.raw ∧
      (truncateHandle replies n h).2.errno = lastErrno error := by
  cases hpointer : replies.setFilePointer with
  | none =>
    have hlow : UInt32.ofNat n ≠ 0 := fun hlow => hmove hpointer (low_eq_zero.mp hlow)
    simp [truncateHandle, setFilePointer, hpointer, hlow, setEndOfFile, hend, getLastError]
  | some _ =>
    have hinvalid : INVALID_SET_FILE_POINTER ≠ 0 := by decide
    simp [truncateHandle, setFilePointer, hpointer, hinvalid, setEndOfFile, hend, getLastError]

lemma truncateHandle_done (hn : n < 2 ^ 64) (hmove : replies.setFilePointer = none)
    (hlow : n % 2 ^ 32 ≠ 0) (hend : replies.setEndOfFile = none) :
    (truncateHandle replies n h).1 = 0 ∧ (truncateHandle replies n h).2.raw = resize 0 h.raw n := by
  have hlow : UInt32.ofNat n ≠ 0 := fun hzero => hlow (low_eq_zero.mp hzero)
  have hposition : n / 4294967296 % 4294967296 * 4294967296 + n % 4294967296 = n := by omega
  simp [truncateHandle, setFilePointer, hmove, hlow, setEndOfFile, hend, hposition]

lemma truncateHandle_unmoved (error : Win32Error) (hmove : replies.setFilePointer = some error)
    (hend : replies.setEndOfFile = none) :
    (truncateHandle replies n h).1 = 0 ∧
      (truncateHandle replies n h).2.raw = resize 0 h.raw h.position := by
  have hinvalid : INVALID_SET_FILE_POINTER ≠ 0 := by decide
  simp [truncateHandle, setFilePointer, hmove, hinvalid, setEndOfFile, hend]

inductive Truncated (n : ℕ) (h : FileHandle) (res : ℤ) (h' : FileHandle) : Prop
  | done : res = 0 → h'.raw = resize 0 h.raw n → Truncated n h res h'
  | failed : res = -1 → h'.raw = h.raw → 0 < h'.errno → Truncated n h res h'

lemma Truncated.setsLength {succeed : Prop} {res : ℤ} {h' : FileHandle} (ht : Truncated n h res h')
    (hzero : succeed → res = 0) : SetsLength succeed n h res h' := by
  cases ht with
  | done hres hraw =>
    exact ⟨hzero, fun _ => by rw [hraw, resize_length], fun hne => absurd hres hne⟩
  | failed hres hraw herrno =>
    refine ⟨hzero, fun h => ?_, fun _ => ⟨hres, herrno.ne', by rw [hraw]⟩⟩
    rw [hres] at h
    exact absurd h failed_ne_zero

lemma truncateHandle_truncated (hn : n < 2 ^ 64) (hhalf : replies.LowHalf n)
    (hplace : replies.InPlace n h.position) :
    Truncated n h (truncateHandle replies n h).1 (truncateHandle replies n h).2 := by
  cases hend : replies.setEndOfFile with
  | none =>
    cases hmove : replies.setFilePointer with
    | none =>
      have hlow : n % 2 ^ 32 ≠ 0 := fun hlow => (hhalf hmove hlow).1 hend
      obtain ⟨hres, hraw⟩ := truncateHandle_done (h := h) hn hmove hlow hend
      exact .done hres hraw
    | some error =>
      obtain ⟨hres, hraw⟩ := truncateHandle_unmoved (n := n) (h := h) error hmove hend
      have hposition := hplace (by rw [hmove]; exact Option.some_ne_none _) hend
      exact .done hres (by rw [hraw, hposition])
  | some error =>
    by_cases hlow : replies.setFilePointer = none ∧ n % 2 ^ 32 = 0
    · obtain ⟨hres, hraw, herrno⟩ := truncateHandle_low (h := h) hlow.1 hlow.2
      exact .failed hres hraw (by rw [herrno]; exact lastErrno_pos (hhalf hlow.1 hlow.2).2)
    · obtain ⟨hres, hraw, herrno⟩ := truncateHandle_end (n := n) (h := h)
        (fun hmove hzero => hlow ⟨hmove, hzero⟩) error hend
      exact .failed hres hraw (by rw [herrno]; exact lastErrno_pos error.2)

lemma truncateHandle_setsLength (hn : n < 2 ^ 64) :
    SetsLength (replies.setFilePointer = none ∧ replies.setEndOfFile = none) n h
        (truncateHandle replies n h).1 (truncateHandle replies n h).2 ↔
      replies.LowHalf n ∧ replies.InPlace n h.position := by
  constructor
  · intro hsets
    refine ⟨fun hmove hlow => ?_, fun hmove hend => ?_⟩
    · obtain ⟨hres, -, herrno⟩ := truncateHandle_low (h := h) hmove hlow
      have hne : (truncateHandle replies n h).1 ≠ 0 := by
        rw [hres]
        exact failed_ne_zero
      refine ⟨fun hend => hne (hsets.zero ⟨hmove, hend⟩), fun hzero => ?_⟩
      exact (hsets.failed hne).2.1 (herrno.trans (lastErrno_eq_zero.mpr hzero))
    · obtain ⟨error, hmove⟩ := Option.ne_none_iff_exists'.mp hmove
      obtain ⟨hres, hraw⟩ := truncateHandle_unmoved (n := n) (h := h) error hmove hend
      have hlength := hsets.length hres
      rwa [hraw, resize_length] at hlength
  · rintro ⟨hhalf, hplace⟩
    refine (truncateHandle_truncated hn hhalf hplace).setsLength ?_
    rintro ⟨hmove, hend⟩
    exact (truncateHandle_done hn hmove (fun hlow => (hhalf hmove hlow).1 hend) hend).1

lemma truncate_opens (hopens : replies.Opens) :
    (truncate replies n h).1 = (truncateHandle replies n { h with position := 0 }).1 ∧
      (truncate replies n h).2.raw = (truncateHandle replies n { h with position := 0 }).2.raw ∧
      (truncate replies n h).2.errno = (truncateHandle replies n { h with position := 0 }).2.errno := by
  rw [truncate]
  split
  · next hfirst hagain =>
    rcases hopens with hopens | hopens
    · rw [hopens] at hfirst
      cases hfirst
    · rw [hopens] at hagain
      cases hagain
  · exact ⟨rfl, rfl, rfl⟩

lemma truncate_closed (hopens : ¬replies.Opens) :
    ∃ error : Win32Error, (truncate replies n h).1 = -1 ∧ (truncate replies n h).2.raw = h.raw ∧
      (truncate replies n h).2.errno = lastErrno error := by
  obtain ⟨hfirst, hagain⟩ := not_or.mp hopens
  obtain ⟨first, hfirst⟩ := Option.ne_none_iff_exists'.mp hfirst
  obtain ⟨again, hagain⟩ := Option.ne_none_iff_exists'.mp hagain
  refine ⟨again, ?_⟩
  simp only [truncate, hfirst, hagain, and_self]

lemma truncate_truncated (hn : n < 2 ^ 64)
    (hok : replies.Opens → replies.LowHalf n ∧ replies.InPlace n 0) :
    Truncated n h (truncate replies n h).1 (truncate replies n h).2 := by
  by_cases hopens : replies.Opens
  · obtain ⟨hres, hraw, herrno⟩ := truncate_opens (n := n) (h := h) hopens
    cases truncateHandle_truncated (h := { h with position := 0 }) hn (hok hopens).1 (hok hopens).2 with
    | done hzero hdone => exact .done (hres.trans hzero) (hraw.trans hdone)
    | failed hone hkept hpos => exact .failed (hres.trans hone) (hraw.trans hkept) (herrno ▸ hpos)
  · obtain ⟨error, hres, hraw, herrno⟩ := truncate_closed (n := n) (h := h) hopens
    exact .failed hres hraw (by rw [herrno]; exact lastErrno_pos error.2)

lemma truncate_setsLength (hn : n < 2 ^ 64) :
    SetsLength (replies.Opens ∧ replies.setFilePointer = none ∧ replies.setEndOfFile = none) n h
        (truncate replies n h).1 (truncate replies n h).2 ↔
      (replies.Opens → replies.LowHalf n ∧ replies.InPlace n 0) := by
  constructor
  · intro hsets hopens
    obtain ⟨hres, hraw, herrno⟩ := truncate_opens (n := n) (h := h) hopens
    apply (truncateHandle_setsLength (h := { h with position := 0 }) hn).mp
    rw [← hres]
    obtain ⟨hzero, hlength, hfailed⟩ := hsets
    rw [hraw] at hlength hfailed
    rw [herrno] at hfailed
    exact ⟨fun hok => hzero ⟨hopens, hok⟩, hlength, hfailed⟩
  · intro hok
    refine (truncate_truncated hn hok).setsLength ?_
    rintro ⟨hopens, hmove, hend⟩
    rw [(truncate_opens hopens).1]
    exact (truncateHandle_done hn hmove (fun hlow => ((hok hopens).1 hmove hlow).1 hend) hend).1

lemma truncateHandle_res : (truncateHandle replies n h).1 = 0 ∨ (truncateHandle replies n h).1 = -1 := by
  rw [truncateHandle]
  dsimp only
  split
  · exact .inr rfl
  · split
    · exact .inr rfl
    · exact .inl rfl

lemma truncate_res : (truncate replies n h).1 = 0 ∨ (truncate replies n h).1 = -1 := by
  by_cases hopens : replies.Opens
  · rw [(truncate_opens hopens).1]
    exact truncateHandle_res
  · obtain ⟨error, hres, -⟩ := truncate_closed (n := n) (h := h) hopens
    exact .inr hres

lemma truncateHandle_length (hn : n < 2 ^ 64) :
    ((truncateHandle replies n h).1 = 0 → (truncateHandle replies n h).2.raw.length = n) ↔
      replies.InPlace n h.position := by
  by_cases hhalf : replies.LowHalf n
  · constructor
    · intro hlength
      by_contra hplace
      obtain ⟨hmove, hend, hne⟩ : replies.setFilePointer ≠ none ∧ replies.setEndOfFile = none ∧
          h.position ≠ n := by simpa [InPlace] using hplace
      obtain ⟨error, hmove⟩ := Option.ne_none_iff_exists'.mp hmove
      obtain ⟨hres, hraw⟩ := truncateHandle_unmoved (n := n) (h := h) error hmove hend
      specialize hlength hres
      rw [hraw, resize_length] at hlength
      exact hne hlength
    · exact fun hplace => ((truncateHandle_setsLength hn).mpr ⟨hhalf, hplace⟩).length
  · obtain ⟨hmove, hlow, -⟩ := Classical.not_imp.mp hhalf |>.imp_right Classical.not_imp.mp
    refine iff_of_true (fun hres => ?_) fun h => absurd hmove h
    rw [(truncateHandle_low hmove hlow).1] at hres
    exact absurd hres failed_ne_zero

lemma truncate_length (hn : n < 2 ^ 64) :
    ((truncate replies n h).1 = 0 → (truncate replies n h).2.raw.length = n) ↔
      (replies.Opens → replies.InPlace n 0) := by
  by_cases hopens : replies.Opens
  · obtain ⟨hres, hraw, -⟩ := truncate_opens (n := n) (h := h) hopens
    rw [forall_prop_of_true hopens, hres, hraw]
    exact truncateHandle_length hn
  · obtain ⟨error, hres, -⟩ := truncate_closed (n := n) (h := h) hopens
    rw [hres]
    exact iff_of_true (fun hzero => absurd hzero failed_ne_zero) fun h => absurd h hopens

end Handle

def RawFileIO.truncated (size : ℕ) (f : RawFile) : ℤ × FileHandle → ℤ × RawFile
  | (res, h) =>
    if res < 0 then
      (-h.errno, { f with raw := h.raw, knownSize := false })
    else
      (0, { f with raw := h.raw, fileSize := size, knownSize := true })

def RawFileIO.truncateFile (replies : TruncateReplies) (size : ℕ) (f : RawFile) (position : ℕ)
    (errno : ℤ) : ℤ × RawFile :=
  if 0 ≤ f.fd ∧ f.canWrite = true then
    truncated size f (Unix.ftruncate replies size ⟨f.raw, position, errno⟩)
  else
    truncated size f (Unix.truncate replies size ⟨f.raw, position, errno⟩)

def TruncateReplies.FileInPlace (replies : TruncateReplies) (n : ℕ) (f : RawFile) (position : ℕ) :
    Prop :=
  if 0 ≤ f.fd ∧ f.canWrite = true then replies.InPlace n position
  else replies.Opens → replies.InPlace n 0

lemma RawFileIO.truncated_length {n : ℕ} {f : RawFile} {r : ℤ × FileHandle} (hres : r.1 = 0 ∨ r.1 = -1) :
    ((truncated n f r).1 = 0 → (truncated n f r).2.knownSize = true →
      (truncated n f r).2.raw.length = n) ↔ (r.1 = 0 → r.2.raw.length = n) := by
  obtain ⟨res, h⟩ := r
  dsimp only at hres
  rcases hres with rfl | rfl
  · simp [truncated]
  · simp [truncated]

lemma RawFileIO.truncateFile_length {replies : TruncateReplies} {n : ℕ} (hn : n < 2 ^ 64)
    (f : RawFile) (position : ℕ) (errno : ℤ) :
    ((truncateFile replies n f position errno).1 = 0 →
      (truncateFile replies n f position errno).2.knownSize = true →
        (truncateFile replies n f position errno).2.raw.length = n) ↔
      replies.FileInPlace n f position := by
  rw [truncateFile, TruncateReplies.FileInPlace]
  split
  · rw [Unix.ftruncate, truncated_length truncateHandle_res]
    exact truncateHandle_length hn
  · rw [truncated_length truncate_res]
    exact truncate_length hn

open RawFileIO in
/-- The length is set as promised just when it has a low half, or what follows fails with an error,
and when `SetEndOfFile` does not cut a file whose pointer could not be moved. -/
theorem sets_length (replies : TruncateReplies) (h : FileHandle) {n : ℕ} (hn : n < 2 ^ 63) :
    (SetsLength (replies.setFilePointer = none ∧ replies.setEndOfFile = none) n h
        (Unix.ftruncate replies n h).1 (Unix.ftruncate replies n h).2 ↔
      replies.LowHalf n ∧ replies.InPlace n h.position) ∧
    (SetsLength (replies.Opens ∧ replies.setFilePointer = none ∧ replies.setEndOfFile = none) n h
        (Unix.truncate replies n h).1 (Unix.truncate replies n h).2 ↔
      (replies.Opens → replies.LowHalf n ∧ replies.InPlace n 0)) ∧
    ∀ f position errno,
      ((truncateFile replies n f position errno).1 = 0 →
        (truncateFile replies n f position errno).2.knownSize = true →
          (truncateFile replies n f position errno).2.raw.length = n) ↔
        replies.FileInPlace n f position := by
  have hn : n < 2 ^ 64 := Nat.lt_trans hn (by decide)
  exact ⟨truncateHandle_setsLength hn, truncate_setsLength hn,
    fun f position errno => RawFileIO.truncateFile_length hn f position errno⟩

open RawFileIO in
theorem truncateFile_truncate {replies : TruncateReplies} {n : ℕ} (hn : n < 2 ^ 64)
    (hhalf : replies.LowHalf n) (f : RawFile) {position : ℕ}
    (hplace : replies.FileInPlace n f position) (errno : ℤ) (calls : SystemCalls) :
    ∃ error, RawFileIO.truncate { calls with truncate := error } n f =
      .ok (truncateFile replies n f position errno).1
        (truncateFile replies n f position errno).2 := by
  have hresult {h : FileHandle} {r : ℤ × FileHandle} (hraw : h.raw = f.raw)
      (ht : Truncated n h r.1 r.2) :
      ∃ error, RawFileIO.truncate { calls with truncate := error } n f =
        .ok (truncated n f r).1 (truncated n f r).2 := by
    obtain ⟨res, h'⟩ := r
    cases ht with
    | done hres hdone =>
      dsimp only at hres hdone
      refine ⟨0, ?_⟩
      rw [hres]
      simp [truncated, RawFileIO.truncate, hdone, hraw]
      rfl
    | failed hres hkept hpos =>
      dsimp only at hres hkept hpos
      obtain ⟨errno, herrno⟩ := Int.eq_ofNat_of_zero_le hpos.le
      refine ⟨errno, ?_⟩
      have hne : errno ≠ 0 := by omega
      rw [hres]
      simp [truncated, RawFileIO.truncate, hkept, hraw, herrno, hne]
      rfl
  rw [truncateFile]
  rw [TruncateReplies.FileInPlace] at hplace
  split at hplace
  case isTrue hwrite =>
    rw [if_pos hwrite]
    exact hresult rfl (truncateHandle_truncated (h := ⟨f.raw, position, errno⟩) hn hhalf hplace)
  case isFalse hwrite =>
    rw [if_neg hwrite]
    refine hresult rfl (truncate_truncated (h := ⟨f.raw, position, errno⟩) hn fun hopens => ?_)
    exact ⟨hhalf, hplace hopens⟩

def allSucceed : TruncateReplies := ⟨none, none, none, none, 0⟩

theorem sets_length_allSucceed :
    SetsLength (allSucceed.setFilePointer = none ∧ allSucceed.setEndOfFile = none) 3 ⟨[1, 2], 0, 0⟩
        (Unix.ftruncate allSucceed 3 ⟨[1, 2], 0, 0⟩).1 (Unix.ftruncate allSucceed 3 ⟨[1, 2], 0, 0⟩).2 ↔
      allSucceed.LowHalf 3 ∧ allSucceed.InPlace 3 0 :=
  (sets_length allSucceed ⟨[1, 2], 0, 0⟩ (by decide)).1

theorem not_sets_length :
    (Unix.ftruncate allSucceed 0 ⟨[1, 2], 0, 0⟩).1 = -1 ∧
      ∃ error : Win32Error,
        (Unix.ftruncate { allSucceed with setFilePointer := some error } 1 ⟨[1, 2], 0, 0⟩).1 = 0 ∧
        (Unix.ftruncate { allSucceed with setFilePointer := some error } 1 ⟨[1, 2], 0, 0⟩).2.raw =
          [] :=
  ⟨rfl, ⟨1, by decide⟩, rfl, rfl⟩

end EncFS
