import EncFS.Fuse4Win.ErrorTable
import EncFS.Fuse4Win.LockTable
import EncFS.RawFileIO

set_option autoImplicit false

namespace EncFS

open Fuse4Win

abbrev Errno := {errno : ℤ // 0 < errno}

/-- The descriptors that are open, with the access mask of each, and `errno`. -/
structure Descriptors where
  opened : List (ℤ × UInt32)
  errno : ℤ

structure MyOpenReplies where
  createFile : Option Win32Error
  createFileAgain : Option Win32Error
  open_osfhandle : Option ℕ

structure WorkaroundReplies where
  lstat : Option Errno
  chmod : Option Errno
  my_open : MyOpenReplies
  chmodBack : Option Errno

structure OpenReplies where
  my_open : MyOpenReplies
  workaround : WorkaroundReplies

def accessMask (flags : ℕ) : UInt32 :=
  if flags = O_RDONLY then GENERIC_WRITE else GENERIC_WRITE ||| GENERIC_READ

def myOpen (replies : MyOpenReplies) (flags : ℕ) (d : Descriptors) : ℤ × Descriptors :=
  match replies.createFile, replies.createFileAgain with
  | some error, some _ => (-1, { d with errno := lastErrno error })
  | _, _ =>
    match replies.open_osfhandle with
    | none => (-1, { d with errno := ENOENT })
    | some fd => (fd, { d with opened := (↑fd, accessMask flags) :: d.opened })

def Descriptors.after (d : Descriptors) : Option Errno → Descriptors
  | none => d
  | some errno => { d with errno := errno }

def openReadonlyWorkaround (replies : WorkaroundReplies) (flags : ℕ) (d : Descriptors) :
    ℤ × Descriptors :=
  match replies.lstat with
  | some errno => (-1, d.after (some errno))
  | none =>
    match myOpen replies.my_open flags (d.after replies.chmod) with
    | (fd, d) => (fd, d.after replies.chmodBack)

structure OpenState extends Descriptors where
  fd : ℤ
  oldfd : ℤ
  canWrite : Bool

namespace OpenState

def fresh (errno : ℤ) : OpenState := ⟨⟨[], errno⟩, -1, -1, false⟩

def requestWrite (flags : ℕ) : Bool := flags &&& O_RDWR ≠ 0 ∨ flags &&& O_WRONLY ≠ 0

def openNew (replies : OpenReplies) (finalFlags : ℕ) (d : Descriptors) : ℤ × Descriptors :=
  match myOpen replies.my_open finalFlags d with
  | (newFd, d) =>
    if newFd = -1 ∧ d.errno = EACCES then
      openReadonlyWorkaround replies.workaround finalFlags d
    else
      (newFd, d)

def openFile (replies : OpenReplies) (flags : ℕ) (s : OpenState) : ℤ × OpenState :=
  if 0 ≤ s.fd ∧ (s.canWrite = true ∨ requestWrite flags = false) then
    -- using existing file descriptor
    (s.fd, s)
  else
    let finalFlags := if requestWrite flags then O_RDWR else O_RDONLY
    match openNew replies finalFlags s.toDescriptors with
    | (newFd, d) =>
      if 0 ≤ newFd then
        (newFd, { d with fd := newFd, oldfd := s.fd, canWrite := requestWrite flags })
      else
        (-d.errno, { s with toDescriptors := d })

def closeFile (fd : ℤ) (d : Descriptors) : Descriptors :=
  { d with opened := d.opened.filter fun i => i.1 ≠ fd }

def destroy (s : OpenState) : Descriptors :=
  let d := if s.oldfd ≠ -1 then closeFile s.oldfd s.toDescriptors else s.toDescriptors
  if s.fd ≠ -1 then closeFile s.fd d else d

structure Fresh (replies : OpenReplies) (s : OpenState) : Prop where
  my_open : ∀ fd : ℕ, replies.my_open.open_osfhandle = some fd → ↑fd ∉ s.opened.map Prod.fst
  workaround : ∀ fd : ℕ, replies.workaround.my_open.open_osfhandle = some fd →
    ↑fd ∉ s.opened.map Prod.fst

inductive ReachedOpens : OpenState → Prop
  | fresh (errno : ℤ) : ReachedOpens (fresh errno)
  | openFile {s : OpenState} {replies : OpenReplies} (flags : ℕ) : ReachedOpens s → Fresh replies s →
      ReachedOpens (openFile replies flags s).2

inductive Opening (flags : ℕ) (opened : List (ℤ × UInt32)) : ℤ × Descriptors → Prop
  | failed (errno : Errno) : Opening flags opened (-1, ⟨opened, errno⟩)
  | opened (fd : ℕ) (errno : ℤ) : ↑fd ∉ opened.map Prod.fst →
      Opening flags opened (↑fd, ⟨(↑fd, accessMask flags) :: opened, errno⟩)

lemma myOpen_opening (replies : MyOpenReplies) (flags : ℕ) {d : Descriptors}
    (hfresh : ∀ fd : ℕ, replies.open_osfhandle = some fd → ↑fd ∉ d.opened.map Prod.fst) :
    Opening flags d.opened (myOpen replies flags d) := by
  rw [myOpen]
  split
  · next error _ _ _ => exact .failed ⟨lastErrno error, lastErrno_pos error.2⟩
  · split
    · exact .failed ⟨ENOENT, by decide⟩
    · next fd hfd => exact .opened fd d.errno (hfresh fd hfd)

lemma Descriptors.after_opened (d : Descriptors) (errno : Option Errno) :
    (d.after errno).opened = d.opened := by
  cases errno <;> rfl

lemma Opening.after {flags : ℕ} {opened : List (ℤ × UInt32)} {r : ℤ × Descriptors}
    (h : Opening flags opened r) (errno : Option Errno) :
    Opening flags opened (r.1, r.2.after errno) := by
  cases errno with
  | none => exact h
  | some errno =>
    cases h with
    | failed _ => exact .failed errno
    | opened fd _ hfd => exact .opened fd errno hfd

lemma openNew_opening {replies : OpenReplies} (flags : ℕ) {s : OpenState} (hfresh : Fresh replies s) :
    Opening flags s.opened (openNew replies flags s.toDescriptors) := by
  have hfirst := myOpen_opening _ flags hfresh.my_open
  rw [openNew]
  generalize myOpen replies.my_open flags s.toDescriptors = first at hfirst ⊢
  cases hfirst with
  | opened fd errno hfd =>
    have hdone : ¬((fd : ℤ) = -1 ∧ errno = EACCES) := fun h => by omega
    dsimp only
    rw [if_neg hdone]
    exact .opened fd errno hfd
  | failed errno =>
    dsimp only
    split
    · rw [openReadonlyWorkaround]
      split
      · next errno _ => exact .failed errno
      · have hopened := Descriptors.after_opened ⟨s.opened, errno⟩ replies.workaround.chmod
        have hagain := myOpen_opening replies.workaround.my_open flags
          (d := Descriptors.after ⟨s.opened, errno⟩ replies.workaround.chmod)
          (by rw [hopened]; exact hfresh.workaround)
        rw [hopened] at hagain
        exact hagain.after _
    · exact .failed errno

inductive Shape : OpenState → Prop
  | closed (errno : ℤ) : Shape ⟨⟨[], errno⟩, -1, -1, false⟩
  | readOnly (errno : ℤ) (fd : ℕ) : Shape ⟨⟨[(↑fd, accessMask O_RDONLY)], errno⟩, fd, -1, false⟩
  | writable (errno : ℤ) (fd : ℕ) : Shape ⟨⟨[(↑fd, accessMask O_RDWR)], errno⟩, fd, -1, true⟩
  | upgraded (errno : ℤ) {fd oldfd : ℕ} : fd ≠ oldfd →
      Shape ⟨⟨[(↑fd, accessMask O_RDWR), (↑oldfd, accessMask O_RDONLY)], errno⟩, fd, oldfd, true⟩

/-- The descriptor that is returned is the file's, and lets it do what was asked for. -/
structure OpenedFor (flags : ℕ) (res : ℤ) (s : OpenState) : Prop where
  res : res = s.fd
  mask : ∃ mask, (s.fd, mask) ∈ s.opened ∧ mask &&& GENERIC_READ ≠ 0 ∧
    (requestWrite flags = true ∨ s.canWrite = true → mask &&& GENERIC_WRITE ≠ 0)

def Usable (flags : ℕ) (s : OpenState) : Prop :=
  0 ≤ s.fd ∧ (s.canWrite = true ∨ requestWrite flags = false)

inductive Opened (flags : ℕ) (s : OpenState) : ℤ × OpenState → Prop
  | reused : Usable flags s → Opened flags s (s.fd, s)
  | failed (errno : Errno) : ¬Usable flags s → Opened flags s (-errno, { s with errno := errno })
  | new (fd : ℕ) (errno : ℤ) : ¬Usable flags s → ↑fd ∉ s.opened.map Prod.fst →
      Opened flags s (↑fd, ⟨⟨(↑fd, accessMask (if requestWrite flags then O_RDWR else O_RDONLY)) ::
        s.opened, errno⟩, fd, s.fd, requestWrite flags⟩)

lemma openFile_opened {replies : OpenReplies} (flags : ℕ) {s : OpenState} (hfresh : Fresh replies s) :
    Opened flags s (openFile replies flags s) := by
  rw [openFile]
  split
  case isTrue hreuse => exact .reused hreuse
  case isFalse hnew =>
    dsimp only
    have hopening := openNew_opening (if requestWrite flags then O_RDWR else O_RDONLY) hfresh
    generalize openNew replies _ s.toDescriptors = r at hopening ⊢
    cases hopening with
    | failed errno => exact .failed errno hnew
    | opened fd errno hfd =>
      dsimp only
      rw [if_pos (Int.natCast_nonneg fd)]
      exact .new fd errno hnew hfd

lemma Shape.openFile {s : OpenState} {flags : ℕ} {r : ℤ × OpenState} (h : Shape s)
    (hr : Opened flags s r) : Shape r.2 := by
  cases hr with
  | reused _ => exact h
  | failed errno _ =>
    cases h with
    | closed _ => exact .closed _
    | readOnly _ fd => exact .readOnly _ fd
    | writable _ fd => exact .writable _ fd
    | upgraded _ hne => exact .upgraded _ hne
  | new fd errno hnew hfd =>
    cases h with
    | closed _ =>
      cases hwrite : requestWrite flags with
      | false => exact .readOnly errno fd
      | true => exact .writable errno fd
    | readOnly _ old =>
      have hwrite : requestWrite flags = true := by
        simpa [Usable] using hnew
      have hne : fd ≠ old := by
        rintro rfl
        exact hfd (by simp)
      rw [hwrite]
      exact .upgraded errno hne
    | writable _ old => exact absurd ⟨Int.natCast_nonneg old, .inl rfl⟩ hnew
    | @upgraded _ old _ _ => exact absurd ⟨Int.natCast_nonneg old, .inl rfl⟩ hnew

lemma reached_shape {s : OpenState} (h : ReachedOpens s) : Shape s := by
  induction h with
  | fresh errno => exact .closed errno
  | openFile flags _ hfresh ih => exact ih.openFile (openFile_opened flags hfresh)

lemma Shape.kept {s : OpenState} (h : Shape s) : ∀ d ∈ s.opened, d.1 = s.fd ∨ d.1 = s.oldfd := by
  cases h <;> simp

lemma Shape.destroy {s : OpenState} (h : Shape s) : s.destroy.opened = [] := by
  cases h with
  | closed _ => rfl
  | readOnly _ fd => simp [OpenState.destroy, closeFile]
  | writable _ fd => simp [OpenState.destroy, closeFile]
  | upgraded _ _ => simp [OpenState.destroy, closeFile]

lemma Shape.fd_of_canWrite {s : OpenState} (h : Shape s) (hcan : s.canWrite = true) : 0 ≤ s.fd := by
  cases h with
  | closed _ => cases hcan
  | readOnly _ fd => exact Int.natCast_nonneg fd
  | writable _ fd => exact Int.natCast_nonneg fd
  | @upgraded _ fd _ _ => exact Int.natCast_nonneg fd

lemma accessMask_rdonly : accessMask O_RDONLY &&& GENERIC_READ = 0 := by decide

lemma accessMask_rdwr : accessMask O_RDWR &&& GENERIC_READ ≠ 0 ∧ accessMask O_RDWR &&& GENERIC_WRITE ≠ 0 := by
  decide

lemma Shape.openedFor {s : OpenState} (h : Shape s) (flags : ℕ) (hfd : 0 ≤ s.fd) :
    OpenedFor flags s.fd s ↔ s.canWrite = true := by
  have hwritable {s : OpenState} (hmask : (s.fd, accessMask O_RDWR) ∈ s.opened) :
      OpenedFor flags s.fd s :=
    ⟨rfl, _, hmask, accessMask_rdwr.1, fun _ => accessMask_rdwr.2⟩
  cases h with
  | closed _ => exact absurd hfd (Int.not_le.mpr (Int.negSucc_lt_zero 0))
  | readOnly _ fd =>
    refine iff_of_false ?_ Bool.false_ne_true
    rintro ⟨-, mask, hmask, hread, -⟩
    obtain ⟨-, rfl⟩ := Prod.mk.inj (List.mem_singleton.mp hmask)
    exact hread accessMask_rdonly
  | writable _ fd => exact iff_of_true (hwritable (by simp)) rfl
  | upgraded _ _ => exact iff_of_true (hwritable (by simp)) rfl

/-- After any run of opens, a descriptor that an open returns can be read from and written to as
asked just when it was opened for writing; a failed open changes nothing, and no descriptor is
lost. -/
theorem open_state {s : OpenState} (h : ReachedOpens s) {replies : OpenReplies}
    (hfresh : Fresh replies s) (flags : ℕ) :
    (0 ≤ (openFile replies flags s).1 →
      (OpenedFor flags (openFile replies flags s).1 (openFile replies flags s).2 ↔
        s.canWrite = true ∨ requestWrite flags = true)) ∧
    ((openFile replies flags s).1 < 0 → (openFile replies flags s).2.fd = s.fd ∧
      (openFile replies flags s).2.oldfd = s.oldfd ∧
      (openFile replies flags s).2.canWrite = s.canWrite) ∧
    (∀ d ∈ (openFile replies flags s).2.opened, d.1 = (openFile replies flags s).2.fd ∨
      d.1 = (openFile replies flags s).2.oldfd) ∧
    (openFile replies flags s).2.destroy.opened = [] := by
  have hopened := openFile_opened flags hfresh
  have hshape := (reached_shape h).openFile hopened
  refine ⟨fun hres => ?_, fun hres => ?_, hshape.kept, hshape.destroy⟩
  · generalize openFile replies flags s = r at hopened hshape hres ⊢
    cases hopened with
    | reused husable =>
      rw [hshape.openedFor flags husable.1]
      constructor
      · exact .inl
      · rintro (hwrite | hwrite)
        · exact hwrite
        · exact husable.2.resolve_right (by rw [hwrite]; decide)
    | failed errno _ =>
      have herrno := errno.2
      dsimp only at hres
      omega
    | new fd errno hnew _ =>
      rw [hshape.openedFor flags (Int.natCast_nonneg fd)]
      have hold : s.canWrite = true → requestWrite flags = true := fun hcan =>
        absurd ⟨(reached_shape h).fd_of_canWrite hcan, .inl hcan⟩ hnew
      exact ⟨.inr, fun hwrite => hwrite.elim hold id⟩
  · generalize openFile replies flags s = r at hopened hres ⊢
    cases hopened with
    | reused husable => exact absurd husable.1 (Int.not_le.mpr hres)
    | failed errno _ => exact ⟨rfl, rfl, rfl⟩
    | new fd errno _ _ => exact absurd (Int.natCast_nonneg fd) (Int.not_le.mpr hres)

def opens (fd : ℕ) : OpenReplies := ⟨⟨none, none, some fd⟩, ⟨none, none, ⟨none, none, none⟩, none⟩⟩

theorem open_state_upgraded :
    (openFile (opens 4) O_RDWR (openFile (opens 3) O_RDONLY (fresh 0)).2).1 = 4 ∧
      (OpenedFor O_RDWR (openFile (opens 4) O_RDWR (openFile (opens 3) O_RDONLY (fresh 0)).2).1
          (openFile (opens 4) O_RDWR (openFile (opens 3) O_RDONLY (fresh 0)).2).2 ↔
        false = true ∨ requestWrite O_RDWR = true) := by
  have hfirst : Fresh (opens 3) (fresh 0) := ⟨fun _ _ => List.not_mem_nil, fun _ _ => List.not_mem_nil⟩
  have hsecond : Fresh (opens 4) (openFile (opens 3) O_RDONLY (fresh 0)).2 := by
    refine ⟨?_, fun _ h => (nomatch h)⟩
    rintro fd hfd
    cases hfd
    decide
  exact ⟨rfl, (open_state (.openFile O_RDONLY (.fresh 0) hfirst) hsecond O_RDWR).1 (by decide)⟩

theorem not_open_state :
    (openFile (opens 3) O_RDONLY (fresh 0)).1 = 3 ∧
      (openFile (opens 3) O_RDONLY (fresh 0)).2.opened = [(3, GENERIC_WRITE)] ∧
      GENERIC_WRITE &&& GENERIC_READ = 0 :=
  ⟨rfl, rfl, by decide⟩

end OpenState

theorem OpenState.openFile_rawFile {replies : OpenReplies} {s : OpenState} (hfresh : Fresh replies s)
    (flags : ℕ) {f : RawFile} (hfd : f.fd = s.fd) (hcan : f.canWrite = s.canWrite)
    (calls : SystemCalls) :
    ∃ my_open, RawFileIO.openFile { calls with my_open := my_open } flags f =
      .ok (openFile replies flags s).1
        { f with fd := (openFile replies flags s).2.fd
                 canWrite := (openFile replies flags s).2.canWrite } := by
  have hopened := openFile_opened flags hfresh
  have husable : 0 ≤ f.fd ∧ (f.canWrite = true ∨
      ¬(decide (flags &&& O_RDWR ≠ 0 ∨ flags &&& O_WRONLY ≠ 0)) = true) ↔ Usable flags s := by
    rw [Usable, requestWrite, hfd, hcan, Bool.not_eq_true]
  generalize openFile replies flags s = r at hopened ⊢
  cases hopened with
  | reused huse =>
    refine ⟨0, ?_⟩
    unfold RawFileIO.openFile
    rw [Action.get_bind]
    dsimp only
    rw [if_pos (husable.mpr huse), ← hfd, ← hcan]
    rfl
  | failed errno huse =>
    refine ⟨-errno, ?_⟩
    unfold RawFileIO.openFile
    rw [Action.get_bind]
    dsimp only
    rw [if_neg (mt husable.mp huse), if_neg (by have := errno.2; omega), ← hfd, ← hcan]
    rfl
  | new fd errno huse _ =>
    refine ⟨fd, ?_⟩
    unfold RawFileIO.openFile
    rw [Action.get_bind]
    dsimp only
    rw [if_neg (mt husable.mp huse), if_pos (Int.natCast_nonneg fd)]
    rfl

end EncFS
