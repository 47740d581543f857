import EncFS.BlockFileIO.Faults
import EncFS.DirNode.Rename
import EncFS.FileTree.Operations
import EncFS.Fuse4Win.ErrorTable

/-! The requests for names in a mounted volume. -/

set_option autoImplicit false

namespace EncFS

open Fuse4Win (EACCES EINVAL ENOENT win32ErrorToErrno)

def EPERM : ℤ := 1
def ENOSYS : ℤ := 40

namespace TreeError

def win32Error : TreeError → ℤ
  | notFound => 2
  | alreadyExists => 183
  | isDirectory => 5
  | notDirectory => 267
  | notEmpty => 145

def errno (e : TreeError) : ℤ := win32ErrorToErrno e.win32Error

end TreeError

/-- What the system refuses for reasons of its own: the error number of a call. -/
structure Refusals where
  lstat : Option ℤ
  change : ℕ → Option ℤ
  names : UnixAnswers

def changeResult {α : Type} (refusal : Option ℤ) (result : Except TreeError α) : Except ℤ α :=
  match refusal, result with
  | some errno, _ => .error errno
  | none, .error e => .error e.errno
  | none, .ok a => .ok a

def withRetry {α : Type} (retries : Bool) (attempt : ℕ → Except ℤ α) : Except ℤ α :=
  match attempt 0 with
  | .error errno => if errno = EACCES ∧ retries then attempt 1 else .error errno
  | .ok a => .ok a

def parentDirectory (path : Bytes) : Bytes :=
  if slash ∈ path then (path.reverse.dropWhile (· != slash)).tail.reverse else []

inductive Attr
  | directory
  | regular (st_size : ℤ)
  deriving DecidableEq

/-- What the file layers make of the contents of backing files. -/
structure FileContents (ε : Type) where
  fresh : ε
  getAttr : ε → Option ℤ

def FileContents.attrOf {ε : Type} (F : FileContents ε) (lstat : Option ℤ) :
    Option (TreeEntry ε) → Except ℤ Attr
  | none => .error (lstat.getD ENOENT)
  | some .dir =>
    match lstat with
    | some errno => .error errno
    | none => .ok .directory
  | some (.file c) =>
    match lstat, F.getAttr c with
    | some errno, _ => .error errno
    | none, some size => .ok (.regular size)
    | none, none => .error EIO

/-- What the nodes of files have to do with names. -/
structure NodeTable (ε σ : Type) where
  renameNode : NodeRename ε σ
  cipherName : σ → Bytes → Except RlogError Bytes

def DirNode.nodeTable (ε : Type) (D : DirNode) (new : ℕ) (iv : Bytes → Bytes → Bool → SetIV) :
    NodeTable ε Context where
  renameNode := D.renameNodeIn new iv
  cipherName S path := do
    let (node, S) ← D.findOrCreate S path new
    pure (S.node node)._cname

inductive MountRequest
  | getattr (path : Bytes)
  | getdir (path : Bytes)
  | mknod (path : Bytes) (regular : Bool)
  | mkdir (path : Bytes)
  | unlink (path : Bytes)
  | rmdir (path : Bytes)
  | rename (fromP toP : Bytes)
  | link (fromP toP : Bytes)
  | symlink (fromP toP : Bytes)
  | readlink (path : Bytes)
  | chmod (path : Bytes)
  | chown (path : Bytes)
  | utime (path : Bytes)

inductive MountReply
  | code (res : ℤ)
  | attr (stbuf : Attr)
  | names (filled : List Bytes)
  | renamed (outcome : RenameOutcome)
  deriving DecidableEq

def attrReply : Except ℤ Attr → MountReply
  | .error errno => .code (-errno)
  | .ok stbuf => .attr stbuf

structure Mount (ε σ : Type) where
  FSRoot : DirNode
  nodes : NodeTable ε σ
  contents : FileContents ε
  publicFilesystem : Bool
  externalIVChaining : Bool

namespace Mount

variable {ε σ : Type} (M : Mount ε σ)

def finish (V : Volume ε σ) : Except ℤ (FileTree Bytes ε) → MountReply × Volume ε σ
  | .ok disk => (.code 0, { V with disk })
  | .error errno => (.code (-errno), V)

abbrev CallResult := ℤ × ℤ

def callResult {α : Type} : Except ℤ α → CallResult
  | .ok _ => (0, 0)
  | .error errno => (-1, errno)

def returnCode (passReturnCode : Bool) (result : CallResult) : ℤ :=
  if result.1 = -1 then -result.2 else if passReturnCode then result.1 else 0

def withCipherPath (path : Bytes) (passReturnCode : Bool) (op : Bytes → CallResult) : ℤ :=
  match M.FSRoot.cipherPath path with
  | .error _ => - EIO
  | .ok cyName => returnCode passReturnCode (op cyName)

def getAttr (V : Volume ε σ) (lstat : Option ℤ) (cname : Bytes) : Except ℤ Attr :=
  M.contents.attrOf lstat (V.disk.find (components cname))

def encfsGetattr (path : Bytes) (a : Refusals) (V : Volume ε σ) : MountReply :=
  match M.nodes.cipherName V.nodes path with
  | .error _ => .code (- EIO)
  | .ok cname => attrReply (M.getAttr V a.lstat cname)

def encfsGetdir (path : Bytes) (a : Refusals) (V : Volume ε σ) : MountReply :=
  match M.FSRoot.openDir (V.opendir a.names) path with
  | .error _ => .code (- EIO)
  | .ok none => .names []
  | .ok (some dt) => .names dt.plaintextNames

def retries (path : Bytes) (a : Refusals) (V : Volume ε σ) : Bool :=
  M.publicFilesystem &&
    match M.nodes.cipherName V.nodes (parentDirectory path) with
    | .error _ => false
    | .ok cname => (M.getAttr V a.lstat cname).isOk

def encfsMknod (path : Bytes) (regular : Bool) (a : Refusals) (V : Volume ε σ) :
    MountReply × Volume ε σ :=
  match M.nodes.cipherName V.nodes path with
  | .error _ => (.code (- EIO), V)
  | .ok cname =>
    finish V (withRetry (M.retries path a V) fun i =>
      if regular then
        changeResult (a.change i) (V.disk.add (components cname) (.file M.contents.fresh))
      else
        .error ENOSYS)

def encfsMkdir (path : Bytes) (a : Refusals) (V : Volume ε σ) : MountReply × Volume ε σ :=
  match M.FSRoot.cipherPath path with
  | .error _ => (.code (- EIO), V)
  | .ok cyName =>
    finish V (withRetry (M.retries path a V) fun i =>
      changeResult (a.change i) (V.disk.add (components cyName) .dir))

def encfsUnlink (path : Bytes) (a : Refusals) (V : Volume ε σ) : MountReply × Volume ε σ :=
  match M.FSRoot.cipherPath path with
  | .error _ => (.code (- EIO), V)
  | .ok fullName =>
    finish V (changeResult (a.change 0) (V.disk.deleteFile (components fullName)))

def encfsRmdir (path : Bytes) (a : Refusals) (V : Volume ε σ) : MountReply × Volume ε σ :=
  match M.FSRoot.cipherPath path with
  | .error _ => (.code (- EIO), V)
  | .ok cyName =>
    finish V (changeResult (a.change 0) (V.disk.removeDirectory (components cyName)))

/-- The recursion of the rename goes down as far as the tree does. -/
def encfsRename (fromP toP : Bytes) (a : Refusals) (V : Volume ε σ) : MountReply × Volume ε σ :=
  let (outcome, V) :=
    M.FSRoot.rename M.nodes.renameNode a.names (V.disk.entries.length + 1) fromP toP V
  (.renamed outcome, V)

def encfsLink (fromP toP : Bytes) : ℤ :=
  match M.FSRoot.cipherPath fromP, M.FSRoot.cipherPath toP with
  | .ok _, .ok _ => if M.externalIVChaining then -EPERM else -ENOSYS
  | _, _ => - EIO

def encfsReadlink (path : Bytes) : ℤ := M.withCipherPath path false fun _ => (-EINVAL, 0)

def callOn (V : Volume ε σ) (a : Refusals) (cyName : Bytes) : Except ℤ (TreeEntry ε) :=
  changeResult (a.change 0)
    (match V.disk.find (components cyName) with
    | none => .error .notFound
    | some e => .ok e)

def encfsChmod (path : Bytes) (a : Refusals) (V : Volume ε σ) : ℤ :=
  M.withCipherPath path false fun cyName => callResult (callOn V a cyName)

def encfsChown (path : Bytes) : ℤ := M.withCipherPath path false fun _ => (0, 0)

def encfsUtime (path : Bytes) (a : Refusals) (V : Volume ε σ) : ℤ :=
  M.withCipherPath path false fun cyName =>
    match callOn V a cyName with
    | .error errno => (-errno, errno)
    | .ok _ => (0, 0)

def serve (V : Volume ε σ) (a : Refusals) : MountRequest → MountReply × Volume ε σ
  | .getattr path => (M.encfsGetattr path a V, V)
  | .getdir path => (M.encfsGetdir path a V, V)
  | .mknod path regular => M.encfsMknod path regular a V
  | .mkdir path => M.encfsMkdir path a V
  | .unlink path => M.encfsUnlink path a V
  | .rmdir path => M.encfsRmdir path a V
  | .rename fromP toP => M.encfsRename fromP toP a V
  | .link fromP toP => (.code (M.encfsLink fromP toP), V)
  | .symlink _ _ => (.code (- EIO), V)
  | .readlink path => (.code (M.encfsReadlink path), V)
  | .chmod path => (.code (M.encfsChmod path a V), V)
  | .chown path => (.code (M.encfsChown path), V)
  | .utime path => (.code (M.encfsUtime path a V), V)

def run (V : Volume ε σ) : List (MountRequest × Refusals) → List MountReply × Volume ε σ
  | [] => ([], V)
  | (r, a) :: rs =>
    let (reply, V) := M.serve V a r
    let (replies, V) := run V rs
    (reply :: replies, V)

end Mount

end EncFS
