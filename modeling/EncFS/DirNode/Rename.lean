import EncFS.Context
import EncFS.FileTree

/-! The rename of a file or directory: where names depend on their directory, everything below is
renamed first. -/

set_option autoImplicit false

namespace EncFS

def components (path : Bytes) : List Bytes := (path.splitOn slash).filter (· ≠ [])

structure RenameEl where
  oldCName : Bytes
  newCName : Bytes
  oldPName : Bytes
  newPName : Bytes
  isDirectory : Bool

/-- The backing files, and what there is in memory about them. -/
structure Volume (ε σ : Type) where
  disk : FileTree Bytes ε
  nodes : σ

abbrev NodeRename (ε σ : Type) :=
  (fromP toP : Bytes) → (forwardMode : Bool) → Volume ε σ → Bool × Volume ε σ

structure UnixAnswers where
  opens : Bytes → Bool
  moves : (oldName newName : Bytes) → Bool

namespace Volume

variable {ε σ : Type} (V : Volume ε σ) (A : UnixAnswers)

def isDirectory (fileName : Bytes) : Bool := V.disk.isDirectory (components fileName)

def opendir (name : Bytes) : Option (List Bytes) :=
  if A.opens name ∧ V.isDirectory name then
    some ([dot] :: [dot, dot] :: V.disk.names (components name))
  else none

def rename (oldName newName : Bytes) : Option (Volume ε σ) :=
  if A.moves oldName newName then
    (V.disk.rename (components oldName) (components newName)).map fun disk => { V with disk }
  else none

variable {V A}

lemma rename_cases {V' : Volume ε σ} {old new : Bytes} (h : V.rename A old new = some V') :
    V.disk.rename (components old) (components new) = some V'.disk ∧ V'.nodes = V.nodes := by
  rw [Volume.rename] at h
  split at h
  · obtain ⟨disk, hdisk, rfl⟩ := Option.map_eq_some_iff.mp h
    exact ⟨hdisk, rfl⟩
  · cases h

lemma opendir_cases {name : Bytes} {dir : List Bytes} (h : V.opendir A name = some dir) :
    V.isDirectory name = true ∧ dir = [dot] :: [dot, dot] :: V.disk.names (components name) := by
  rw [Volume.opendir] at h
  split at h
  · rename_i hopen
    exact ⟨hopen.2, (Option.some.inj h).symm⟩
  · cases h

end Volume

namespace RenameOp

variable {ε σ : Type} (renameNode : NodeRename ε σ) (A : UnixAnswers)

def apply : List RenameEl → Volume ε σ → Bool × List RenameEl × Volume ε σ
  | [], V => (true, [], V)
  | last :: renameList, V =>
    match renameNode last.oldPName last.newPName true V with
    | (false, V) => (false, [], V)
    | (true, V) =>
      match V.rename A last.oldCName last.newCName with
      | none => (false, [], (renameNode last.newPName last.oldPName false V).2)
      | some V =>
        let (ok, done, V) := apply renameList V
        (ok, last :: done, V)

def undo : List RenameEl → Volume ε σ → Volume ε σ
  | [], V => V
  | it :: done, V =>
    let V := (V.rename A it.newCName it.oldCName).getD V
    undo done (renameNode it.newPName it.oldPName false V).2

end RenameOp

inductive RenameOutcome
  | moved
  | aborted
  | refused
  | raised
  deriving DecidableEq

namespace DirNode

variable (D : DirNode)

section

variable (opendir : Bytes → Option (List Bytes)) (isDirectory : Bytes → Bool)

def renameEntries (recurse : (fromP toP : Bytes) → Option (List RenameEl))
    (sourcePath fromP toP : Bytes) (fromIV toIV : UInt64) : List Bytes → Option (List RenameEl)
  | [] => some []
  | d_name :: dir =>
    if d_name = [dot] ∨ d_name = [dot, dot] then
      renameEntries recurse sourcePath fromP toP fromIV toIV dir
    else
      match D.naming.decodePathIV d_name fromIV with
      | .error _ =>
        -- a name that cannot be decoded is ignored
        renameEntries recurse sourcePath fromP toP fromIV toIV dir
      | .ok (plainName, _) =>
        match D.naming.encodePathIV plainName toIV with
        | .error _ => none
        | .ok (newName, _) => do
          let oldFull := sourcePath ++ slash :: d_name
          let ren : RenameEl :=
            { oldCName := oldFull
              newCName := sourcePath ++ slash :: newName
              oldPName := fromP ++ slash :: plainName
              newPName := toP ++ slash :: plainName
              isDirectory := isDirectory oldFull }
          -- the elements of a subdirectory come before it
          let below ← if ren.isDirectory then recurse ren.oldPName ren.newPName else some []
          let rest ← renameEntries recurse sourcePath fromP toP fromIV toIV dir
          some (below ++ ren :: rest)

def genRenameList : (fuel : ℕ) → (fromP toP : Bytes) → Option (List RenameEl)
  | 0, _, _ => none
  | fuel + 1, fromP, toP =>
    match D.naming.encodePathIV fromP 0, D.naming.encodePathIV toP 0 with
    | .ok (fromCPart, fromIV), .ok (_, toIV) =>
      if fromIV = toIV then some [] else
      match opendir (D.rootDir ++ fromCPart) with
      | none => none
      | some dir =>
        D.renameEntries isDirectory (genRenameList fuel) (D.rootDir ++ fromCPart) fromP toP fromIV
          toIV dir
    | _, _ => none

end

section

variable {ε σ : Type} (renameNode : NodeRename ε σ) (A : UnixAnswers)

def renameTop (fromPlaintext toPlaintext fromCName toCName : Bytes) (renameList : List RenameEl)
    (V : Volume ε σ) : RenameOutcome × Volume ε σ :=
  match renameNode fromPlaintext toPlaintext true V with
  | (false, V) => (.raised, V)
  | (true, V) =>
    match V.rename A fromCName toCName with
    | some V => (.moved, V)
    | none =>
      match renameNode toPlaintext fromPlaintext false V with
      | (false, V) => (.raised, V)
      | (true, V) => (.refused, RenameOp.undo renameNode A renameList.reverse V)

def rename (fuel : ℕ) (fromPlaintext toPlaintext : Bytes) (V : Volume ε σ) :
    RenameOutcome × Volume ε σ :=
  match D.cipherPath fromPlaintext, D.cipherPath toPlaintext with
  | .ok fromCName, .ok toCName =>
    if D.hasDirectoryNameDependency ∧ V.isDirectory fromCName then
      match D.genRenameList (V.opendir A) V.isDirectory fuel fromPlaintext toPlaintext with
      | none => (.aborted, V)
      | some renameList =>
        match RenameOp.apply renameNode A renameList V with
        | (false, done, V) => (.aborted, RenameOp.undo renameNode A done.reverse V)
        | (true, _, V) =>
          renameTop renameNode A fromPlaintext toPlaintext fromCName toCName renameList V
    else renameTop renameNode A fromPlaintext toPlaintext fromCName toCName [] V
  | _, _ => (.raised, V)

end

def renameNodeIn {ε : Type} (new : ℕ) (iv : Bytes → Bytes → Bool → SetIV) :
    NodeRename ε Context :=
  fun fromP toP forwardMode V =>
    let (ok, nodes) := D.renameNode V.nodes fromP toP new (iv fromP toP forwardMode) forwardMode
    (ok, { V with nodes })

end DirNode

end EncFS
