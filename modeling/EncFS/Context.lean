import EncFS.DirNode
import Mathlib.Data.Finset.Max
import Mathlib.Logic.Function.Basic

/-! The table of open files, and the nodes of the files in it. -/

set_option autoImplicit false

namespace EncFS

open Function

/-- The names of a node. The raw file below it has a copy of the cipher name. -/
structure FileNode where
  _pname : Bytes
  _cname : Bytes
  rawName : Bytes
  deriving DecidableEq

/-- What comes of `setIV`; without external IV chaining it is not called, and counts as done. -/
inductive SetIV
  | done
  | refused
  | raised
  deriving DecidableEq, Repr

def FileNode.setName (N : FileNode) (plaintextName cipherName : Bytes) (iv : SetIV)
    (setIVFirst : Bool) : Bool × FileNode :=
  match iv, setIVFirst with
  | .done, _ => (true, ⟨plaintextName, cipherName, cipherName⟩)
  | _, true => (false, N)
  -- the two names are put back, but not that of the raw file
  | .refused, false => (false, { N with rawName := cipherName })
  | .raised, false => (false, ⟨plaintextName, cipherName, cipherName⟩)

structure Context where
  openFiles : Bytes → Option (Finset ℕ)
  live : ℕ → Bool
  placeholder : ℕ → ℕ
  node : ℕ → FileNode

namespace Context

variable (S : Context)

def empty : Context where
  openFiles _ := none
  live _ := false
  placeholder _ := 0
  node _ := ⟨[], [], []⟩

def lookupNode (path : Bytes) : Option ℕ :=
  match S.openFiles path with
  | none => none
  | some set => if h : set.Nonempty then some (S.placeholder (set.min' h)) else none

def renameNode (fromP toP : Bytes) : Context :=
  match S.openFiles fromP with
  | none => S
  | some val => { S with openFiles := update (update S.openFiles fromP none) toP (some val) }

def putNode (path : Bytes) (node pl : ℕ) : Context where
  openFiles := update S.openFiles path (some (insert pl ((S.openFiles path).getD ∅)))
  live := update S.live pl true
  placeholder := update S.placeholder pl node
  node := S.node

def eraseNode (path : Bytes) (pl : ℕ) : Option Context :=
  match S.openFiles path with
  | none => none
  | some set =>
    if pl ∈ set then
      -- if there are no more references to this file the record is removed
      some { S with
        openFiles := update S.openFiles path (if set.erase pl = ∅ then none else some (set.erase pl))
        live := update S.live pl false }
    else none

end Context

namespace DirNode

variable (D : DirNode) (S : Context)

def findOrCreate (plainName : Bytes) (new : ℕ) : Except RlogError (ℕ × Context) :=
  match S.lookupNode plainName with
  | some node => .ok (node, S)
  | none => do
    let cipherName ← D.cipherPath plainName
    pure (new, { S with node := update S.node new ⟨plainName, cipherName, cipherName⟩ })

def openNode (plainName : Bytes) (new : ℕ) (opened : Bool) : Option ℕ × Context :=
  match D.findOrCreate S plainName new with
  | .error _ => (none, S)
  | .ok (node, S) => (if opened then some node else none, S)

def renameNode (fromP toP : Bytes) (new : ℕ) (iv : SetIV) (forwardMode : Bool) : Bool × Context :=
  match D.findOrCreate S fromP new with
  | .error _ => (false, S)
  | .ok (node, S) =>
    match D.cipherPath toP with
    | .error _ => (false, S)
    | .ok cname =>
      match (S.node node).setName toP cname iv forwardMode with
      | (true, N) => (true, ({ S with node := update S.node node N }).renameNode fromP toP)
      | (false, N) => (false, { S with node := update S.node node N })

structure RenameAnswers where
  iv : SetIV
  moved : Bool
  ivBack : SetIV

def renameFile (fromPlaintext toPlaintext : Bytes) (new : ℕ) (answers : RenameAnswers) :
    Bool × Context :=
  match D.cipherPath fromPlaintext, D.cipherPath toPlaintext with
  | .ok _, .ok _ =>
    -- the node of the target is found or made, and dropped before the file is moved
    match D.renameNode S fromPlaintext toPlaintext new answers.iv true with
    | (false, S) => (false, S)
    | (true, S) =>
      if answers.moved then
        (true, S)
      else
        -- undo
        (false, (D.renameNode S toPlaintext fromPlaintext new answers.ivBack false).2)
  | _, _ => (false, S)

end DirNode

end EncFS
