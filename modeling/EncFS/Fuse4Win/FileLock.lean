import EncFS.FileIO
import EncFS.OrderedMap
import Mathlib.Algebra.Group.Int.Defs
import Mathlib.Algebra.Group.Nat.Defs
import Mathlib.Data.Int.ConditionallyCompleteOrder
import Mathlib.Order.ConditionallyCompleteLattice.Basic
import Mathlib.Order.Interval.Set.Basic

/-! The lock object of a file: its open handles and the byte ranges that they hold. -/

set_option autoImplicit false

namespace EncFS.Fuse4Win

def EACCES : ℤ := 13
def EINVAL : ℤ := 22

def LONGLONG_MIN : ℤ := -2 ^ 63
def LONGLONG_MAX : ℤ := 2 ^ 63 - 1

def subLongLong (x y : ℤ) : Option ℤ :=
  if LONGLONG_MIN ≤ x - y ∧ x - y ≤ LONGLONG_MAX then some (x - y) else none

abbrev Locks := OrderedMap ℤ ℤ

structure ImplFileHandle where
  is_dir_ : Bool
  shared_mode_ : UInt32
  locks : Locks

structure ImplFileLock where
  name_ : Bytes
  first : List (ℕ × ImplFileHandle)

namespace ImplFileLock

variable (L : ImplFileLock)

def addFileUnlocked (file : ℕ) (handle : ImplFileHandle) : ImplFileLock :=
  { L with first := (file, handle) :: L.first }

def unlinkFile (file : ℕ) : ImplFileLock :=
  { L with first := L.first.filter (·.1 ≠ file) }

def setLocks (file : ℕ) (f : Locks → Locks) : ImplFileLock :=
  { L with first := L.first.map fun i =>
      if i.1 = file then (i.1, { i.2 with locks := f i.2.locks }) else i }

def locksOf (file : ℕ) : Locks :=
  ((L.first.find? (·.1 = file)).map (·.2.locks)).getD .empty

end ImplFileLock

def holdsPart (locks : Locks) (start len : ℤ) : Option Bool :=
  match locks.lowerBound start with
  | some j => do
    -- we found a range which starts after our start
    let gap ← subLongLong j.1 start
    match locks.beforeLowerBound start with
    | some i => do
      let reach ← subLongLong start i.1
      pure (gap < len || reach < i.2)
    | none => pure (gap < len)
  | none =>
    match locks.last with
    | some i => do
      let reach ← subLongLong start i.1
      pure (reach < i.2)
    | none => pure false

def anyHoldsPart (mark : Bool) (file : ℕ) (start len : ℤ) :
    List (ℕ × ImplFileHandle) → Option Bool
  | [] => pure false
  | i :: rest =>
    if !mark && i.1 == file then
      anyHoldsPart mark file start len rest
    else do
      let locked ← holdsPart i.2.locks start len
      let locked' ← anyHoldsPart mark file start len rest
      pure (locked || locked')

namespace ImplFileLock

variable (L : ImplFileLock)

def lockFile (file : ℕ) (start len : ℤ) (mark : Bool) : Option (ℤ × ImplFileLock) :=
  if start < 0 ∨ len ≤ 0 then
    pure (-EINVAL, L)
  else do
    let locked ← anyHoldsPart mark file start len L.first
    let L' := if !locked && mark then L.setLocks file (·.insert start len) else L
    pure (if locked then -EACCES else 0, L')

def unlockFile (file : ℕ) (start len : ℤ) : ℤ × ImplFileLock :=
  if len = 0 then
    (0, L)
  else if start < 0 ∨ len ≤ 0 then
    (-EINVAL, L)
  else if (L.locksOf file).find start = some len then
    (0, L.setLocks file (·.erase start))
  else
    (-EACCES, L)

end ImplFileLock

end EncFS.Fuse4Win
