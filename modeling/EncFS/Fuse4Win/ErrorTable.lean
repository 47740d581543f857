import EncFS.Fuse4Win.FileOps

set_option autoImplicit false

namespace EncFS.Fuse4Win

def E2BIG : ℤ := 7
def ENOEXEC : ℤ := 8
def EBADF : ℤ := 9
def ECHILD : ℤ := 10
def EAGAIN : ℤ := 11
def ENOMEM : ℤ := 12
def EXDEV : ℤ := 18
def EMFILE : ℤ := 24
def ENOSPC : ℤ := 28
def EPIPE : ℤ := 32
def ENOTEMPTY : ℤ := 41

def errtable : List (ℤ × ℤ) :=
  [(1, EINVAL), (2, ENOENT), (3, ENOENT), (4, EMFILE), (5, EACCES), (6, EBADF), (7, ENOMEM),
    (8, ENOMEM), (9, ENOMEM), (10, E2BIG), (11, ENOEXEC), (12, EINVAL), (13, EINVAL), (15, ENOENT),
    (16, EACCES), (17, EXDEV), (18, ENOENT), (33, EACCES), (53, ENOENT), (65, EACCES), (67, ENOENT),
    (183, EEXIST), (80, EEXIST), (82, EACCES), (83, EACCES), (87, EINVAL), (89, EAGAIN),
    (108, EACCES), (109, EPIPE), (112, ENOSPC), (114, EBADF), (6, EINVAL), (128, ECHILD),
    (129, ECHILD), (130, EBADF), (131, EINVAL), (132, EACCES), (145, ENOTEMPTY), (158, EACCES),
    (161, ENOENT), (164, EAGAIN), (167, EACCES), (206, ENOENT), (215, EAGAIN), (1816, ENOMEM)]

def win32ErrorToErrno (win_res : ℤ) : ℤ :=
  if win_res = 0 then
    0
  else
    let win_res := if win_res < 0 then -win_res else win_res
    match errtable.find? fun entry => entry.1 = win_res with
    | some entry => entry.2
    | none => EINVAL

lemma win32ErrorToErrno_pos {win_res : ℤ} (h : win_res ≠ 0) : 0 < win32ErrorToErrno win_res := by
  have htable : ∀ entry ∈ errtable, 0 < entry.2 := by decide
  rw [win32ErrorToErrno, if_neg h]
  dsimp only
  split
  · next entry hfind => exact htable entry (List.mem_of_find?_eq_some hfind)
  · decide

@[irreducible] def lastErrno (error : UInt32) : ℤ := win32ErrorToErrno error.toInt32.toInt

lemma lastErrno_zero : lastErrno 0 = 0 := by
  rw [lastErrno]
  rfl

lemma lastErrno_pos {error : UInt32} (h : error ≠ 0) : 0 < lastErrno error := by
  rw [lastErrno]
  apply win32ErrorToErrno_pos
  intro hzero
  apply h
  have hint : error.toInt32 = 0 := Int32.toInt_inj.mp hzero
  exact congrArg Int32.toUInt32 hint

lemma lastErrno_eq_zero {error : UInt32} : lastErrno error = 0 ↔ error = 0 := by
  constructor
  · intro hzero
    by_contra h
    exact absurd (lastErrno_pos h) (by rw [hzero]; decide)
  · rintro rfl
    exact lastErrno_zero

abbrev Win32Error := {error : UInt32 // error ≠ 0}

end EncFS.Fuse4Win
