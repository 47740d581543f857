import EncFS.Fuse4Win.FileLock
import Mathlib.Logic.Function.Basic

/-! The table of lock objects, one critical section after the other. -/

set_option autoImplicit false

namespace EncFS.Fuse4Win

open Function

def FILE_SHARE_READ : UInt32 := 0x1
def FILE_SHARE_WRITE : UInt32 := 0x2
def FILE_SHARE_DELETE : UInt32 := 0x4

def DELETE : UInt32 := 0x10000
def READ_CONTROL : UInt32 := 0x20000
def WRITE_DAC : UInt32 := 0x40000
def WRITE_OWNER : UInt32 := 0x80000
def STANDARD_RIGHTS_READ : UInt32 := READ_CONTROL
def STANDARD_RIGHTS_WRITE : UInt32 := READ_CONTROL
def STANDARD_RIGHTS_EXECUTE : UInt32 := READ_CONTROL
def GENERIC_EXECUTE : UInt32 := 0x20000000
def GENERIC_WRITE : UInt32 := 0x40000000
def GENERIC_READ : UInt32 := 0x80000000

def FILE_READ_DATA : UInt32 := 0x1
def FILE_LIST_DIRECTORY : UInt32 := 0x1
def FILE_WRITE_DATA : UInt32 := 0x2
def FILE_ADD_FILE : UInt32 := 0x2
def FILE_APPEND_DATA : UInt32 := 0x4
def FILE_ADD_SUBDIRECTORY : UInt32 := 0x4
def FILE_READ_EA : UInt32 := 0x8
def FILE_WRITE_EA : UInt32 := 0x10
def FILE_EXECUTE : UInt32 := 0x20
def FILE_DELETE_CHILD : UInt32 := 0x40
def FILE_WRITE_ATTRIBUTES : UInt32 := 0x100
def FILE_GENERIC_READ : UInt32 := 0x120089
def FILE_GENERIC_WRITE : UInt32 := 0x120116
def FILE_GENERIC_EXECUTE : UInt32 := 0x1200A0

def requiredShare (access_mode : UInt32) : UInt32 :=
  (if access_mode &&& (STANDARD_RIGHTS_EXECUTE ||| STANDARD_RIGHTS_READ ||| GENERIC_READ |||
      GENERIC_EXECUTE ||| FILE_GENERIC_EXECUTE ||| FILE_GENERIC_READ ||| READ_CONTROL |||
      FILE_EXECUTE ||| FILE_LIST_DIRECTORY ||| FILE_READ_DATA ||| FILE_READ_EA) ≠ 0
    then FILE_SHARE_READ else 0) |||
  (if access_mode &&& (STANDARD_RIGHTS_WRITE ||| GENERIC_WRITE ||| FILE_GENERIC_WRITE |||
      WRITE_DAC ||| WRITE_OWNER ||| FILE_APPEND_DATA ||| FILE_WRITE_ATTRIBUTES |||
      FILE_WRITE_DATA ||| FILE_WRITE_EA ||| FILE_ADD_FILE ||| FILE_ADD_SUBDIRECTORY |||
      FILE_APPEND_DATA) ≠ 0
    then FILE_SHARE_WRITE else 0) |||
  if access_mode &&& (DELETE ||| FILE_DELETE_CHILD) ≠ 0 then FILE_SHARE_DELETE else 0

def commonShare (handles : List (ℕ × ImplFileHandle)) : UInt32 :=
  handles.foldl (fun share i => share &&& i.2.shared_mode_)
    (FILE_SHARE_READ ||| FILE_SHARE_WRITE ||| FILE_SHARE_DELETE)

/-- The table `file_locks`, the lock objects with their addresses, and the member `file_lock` of
each handle. A deleted object is not `live`; its memory keeps what was there. -/
structure ImplFileLocks where
  file_locks : Bytes → Option ℕ
  object : ℕ → ImplFileLock
  live : ℕ → Bool
  file_lock : ℕ → Option ℕ

namespace ImplFileLocks

variable (T : ImplFileLocks)

def empty : ImplFileLocks where
  file_locks _ := none
  object _ := ⟨[], []⟩
  live _ := false
  file_lock _ := none

def pickLock (name : Bytes) (file : ℕ) (handle : ImplFileHandle) (new : ℕ) :
    Option ℕ × ImplFileLocks :=
  match T.file_locks name with
  | some lock => (some lock, { T with file_lock := update T.file_lock file (some lock) })
  | none =>
    (none, { file_locks := update T.file_locks name (some new)
             object := update T.object new ((ImplFileLock.mk name []).addFileUnlocked file handle)
             live := update T.live new true
             file_lock := update T.file_lock file (some new) })

def admitFile (lock file : ℕ) (handle : ImplFileHandle) (access_mode : UInt32) :
    ℤ × ImplFileLocks :=
  let share := commonShare (T.object lock).first
  if requiredShare access_mode ||| share ≠ share then
    (-EACCES, { T with file_lock := update T.file_lock file none })
  else
    (0, { T with object := update T.object lock ((T.object lock).addFileUnlocked file handle) })

def unlinkFile (lock file : ℕ) : Bool × ImplFileLocks :=
  (((T.object lock).unlinkFile file).first.isEmpty,
    { T with object := update T.object lock ((T.object lock).unlinkFile file)
             file_lock := update T.file_lock file none })

def removeFile (name : Bytes) : ImplFileLocks :=
  match T.file_locks name with
  | some lock =>
    if (T.object lock).first.isEmpty then
      { T with file_locks := update T.file_locks name none, live := update T.live lock false }
    else T
  | none => T

def renamedFile (name new_name : Bytes) : ImplFileLocks :=
  if name = new_name then
    T
  else
    match T.file_locks name with
    | some lock =>
      { T with
        object := update T.object lock { T.object lock with name_ := new_name }
        file_locks := update (update T.file_locks new_name (some lock)) name none }
    | none => T

def getFile (name : Bytes) (is_dir : Bool) (access_mode shared_mode : UInt32) (file new : ℕ) :
    ℤ × ImplFileLocks :=
  let handle : ImplFileHandle := ⟨is_dir, shared_mode, .empty⟩
  match T.pickLock name file handle new with
  | (none, T) => (0, T)
  | (some lock, T) => T.admitFile lock file handle access_mode

def destroyFile (file : ℕ) : ImplFileLocks :=
  match T.file_lock file with
  | none => T
  | some lock =>
    match T.unlinkFile lock file with
    | (false, T) => T
    | (true, T) => T.removeFile (T.object lock).name_

end ImplFileLocks

end EncFS.Fuse4Win
