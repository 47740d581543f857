import EncFS.Fuse4Win.ShareModes

set_option autoImplicit false

namespace EncFS.Fuse4Win

open Function

def ENOENT : ℤ := 2
def EEXIST : ℤ := 17

def FILE_SLASH : UInt8 := 47
def FILE_BACKSLASH : UInt8 := 92

def unixify (str : Bytes) : Bytes :=
  let res := str.map fun ch => if ch = FILE_BACKSLASH then FILE_SLASH else ch
  if 1 < res.length ∧ res.getLast? = some FILE_SLASH then res.dropLast else res

def extractDirName (str : Bytes) : Bytes :=
  let dir := (str.reverse.dropWhile (· != FILE_SLASH)).reverse
  if dir = [] then str else dir

inductive Node
  | regular (content : Bytes)
  | directory (tree : ℕ)
  | symlink (target : Bytes)
  deriving DecidableEq

def Node.isDir : Node → Bool
  | directory _ => true
  | _ => false

/-- Several paths may name one entry. -/
structure FileSystem where
  entry : Bytes → ℕ
  node : ℕ → Option Node

structure FuseOperations where
  getattr : Bool
  readlink : Bool
  mknod : Bool
  unlink : Bool
  rename : Bool
  truncate : Bool
  open_ : Bool
  opendir : Bool
  create : Bool

namespace FileSystem

variable (F : FileSystem)

def nodeAt (path : Bytes) : Option Node := F.node (F.entry path)

def put (path : Bytes) (node : Option Node) : FileSystem :=
  { F with node := update F.node (F.entry path) node }

def getattr (path : Bytes) (answer : ℤ) : Except ℤ Node :=
  if answer < 0 then .error answer
  else match F.nodeAt path with
    | some node => .ok node
    | none => .error (-ENOENT)

def readlink (path : Bytes) (answer : ℤ) : Except ℤ Bytes :=
  if answer < 0 then .error answer
  else match F.nodeAt path with
    | some (.symlink target) => .ok target
    | some _ => .error (-EINVAL)
    | none => .error (-ENOENT)

def unlink (path : Bytes) (answer : ℤ) : ℤ × FileSystem :=
  if answer < 0 then (answer, F)
  else match F.nodeAt path with
    | some (.directory _) => (-EISDIR, F)
    | some _ => (0, F.put path none)
    | none => (-ENOENT, F)

def truncate (path : Bytes) (answer : ℤ) : ℤ × FileSystem :=
  if answer < 0 then (answer, F)
  else match F.nodeAt path with
    | some (.regular _) => (0, F.put path (some (.regular [])))
    | some (.directory _) => (-EISDIR, F)
    | some (.symlink _) => (-EINVAL, F)
    | none => (-ENOENT, F)

def mknod (path : Bytes) (answer : ℤ) : ℤ × FileSystem :=
  if answer < 0 then (answer, F)
  else match F.nodeAt path with
    | some _ => (-EEXIST, F)
    | none => (0, F.put path (some (.regular [])))

def open_ (path : Bytes) (answer : ℤ) : ℤ :=
  if answer < 0 then answer
  else match F.nodeAt path with
    | some _ => 0
    | none => -ENOENT

def rename (path new_path : Bytes) (answer : ℤ) : ℤ × FileSystem :=
  if answer < 0 then (answer, F)
  else match F.nodeAt path with
    | none => (-ENOENT, F)
    | some node =>
      if F.entry path = F.entry new_path then (0, F)
      else (0, (F.put path none).put new_path (some node))

@[simp] lemma put_entry (path : Bytes) (node : Option Node) : (F.put path node).entry = F.entry := rfl

@[simp] lemma put_node_self (path : Bytes) (node : Option Node) :
    (F.put path node).node (F.entry path) = node :=
  update_self _ _ _

lemma put_node_of_ne {path : Bytes} {e : ℕ} (h : e ≠ F.entry path) (node : Option Node) :
    (F.put path node).node e = F.node e :=
  update_of_ne h _ _

@[simp] lemma nodeAt_put (path : Bytes) (node : Option Node) : (F.put path node).nodeAt path = node :=
  F.put_node_self path node

lemma nodeAt_put_of_ne {path path' : Bytes} (h : F.entry path' ≠ F.entry path) (node : Option Node) :
    (F.put path node).nodeAt path' = F.nodeAt path' :=
  F.put_node_of_ne h node

def twoFiles : FileSystem where
  entry path := if path = [47, 97] then 0 else if path = [47, 98] then 1 else 2
  node e := if e = 0 then some (.regular [1]) else if e = 1 then some (.regular [2]) else none

def encfsOperations : FuseOperations where
  getattr := true
  readlink := true
  mknod := true
  unlink := true
  rename := true
  truncate := true
  open_ := true
  opendir := false
  create := false

end FileSystem

end EncFS.Fuse4Win
