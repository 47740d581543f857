import EncFS.Fuse4Win.FileOps

set_option autoImplicit false

namespace EncFS.Fuse4Win

structure MoveReplies where
  getattr : ℤ
  unlink : ℤ
  getattrAgain : ℤ
  rename : ℤ

namespace FileSystem

def getattrResult (F : FileSystem) (path : Bytes) (answer : ℤ) : ℤ :=
  match F.getattr path answer with
  | .ok _ => 0
  | .error res => res

def statIsDir (F : FileSystem) (path : Bytes) (answer : ℤ) : Bool :=
  match F.getattr path answer with
  | .ok node => node.isDir
  | .error _ => false

def clearTarget (F : FileSystem) (ops : FuseOperations) (new_name : Bytes) (replace_existing : Bool)
    (a : MoveReplies) : ℤ × FileSystem :=
  if F.getattrResult new_name a.getattr = -ENOENT then (0, F)
  else if replace_existing = false then (-EEXIST, F)
  else if F.statIsDir new_name a.getattr then (-EISDIR, F)
  else if ops.unlink = false then (-EINVAL, F)
  else F.unlink new_name a.unlink

def moveFile (F : FileSystem) (ops : FuseOperations) (T : ImplFileLocks)
    (file_name new_file_name : Bytes) (replace_existing : Bool) (a : MoveReplies) :
    ℤ × FileSystem × ImplFileLocks :=
  if ops.rename = false ∨ ops.getattr = false then (-EINVAL, F, T)
  else
    let name := unixify file_name
    let new_name := unixify new_file_name
    match F.clearTarget ops new_name replace_existing a with
    | (res, F) =>
      if res < 0 then (res, F, T)
      else if F.getattrResult new_name a.getattrAgain ≠ -ENOENT then (-EEXIST, F, T)
      else
        match F.rename name new_name a.rename with
        | (res, F) => if res < 0 then (res, F, T) else (0, F, T.renamedFile name new_name)

section Callbacks

variable {F : FileSystem} {path new_path : Bytes} {answer : ℤ}

variable (answer) in
lemma getattrResult_eq_ENOENT (h : F.nodeAt path = none) :
    F.getattrResult path answer = -ENOENT ↔ 0 ≤ answer ∨ answer = -ENOENT := by
  rw [getattrResult, getattr, h]
  by_cases hlt : answer < 0
  · rw [if_pos hlt]
    change answer = -ENOENT ↔ _
    omega
  · rw [if_neg hlt]
    exact iff_of_true rfl (.inl (Int.not_lt.mp hlt))

lemma getattrResult_of_some {node : Node} (h : F.nodeAt path = some node) :
    F.getattrResult path answer = -ENOENT ↔ answer = -ENOENT := by
  rw [getattrResult, getattr, h]
  by_cases hlt : answer < 0
  · rw [if_pos hlt]
  · rw [if_neg hlt]
    change (0 : ℤ) = -ENOENT ↔ answer = -ENOENT
    rw [ENOENT]
    omega

lemma unlink_cases (F : FileSystem) (path : Bytes) (answer : ℤ) :
    ((F.unlink path answer).1 < 0 ∧ (F.unlink path answer).2 = F ∧
      ¬ (0 ≤ answer ∧ ∃ node, F.nodeAt path = some node ∧ node.isDir = false)) ∨
    (F.unlink path answer = (0, F.put path none) ∧ 0 ≤ answer ∧
      ∃ node, F.nodeAt path = some node ∧ node.isDir = false) := by
  rw [unlink]
  by_cases hlt : answer < 0
  · rw [if_pos hlt]
    exact .inl ⟨hlt, rfl, fun h => absurd h.1 (Int.not_le.mpr hlt)⟩
  rw [if_neg hlt]
  have hle := Int.not_lt.mp hlt
  cases hnode : F.nodeAt path with
  | none => exact .inl ⟨(by decide : -ENOENT < 0), rfl, fun ⟨_, _, h, _⟩ => by cases h⟩
  | some node =>
    cases node with
    | regular content => exact .inr ⟨rfl, hle, _, rfl, rfl⟩
    | symlink target => exact .inr ⟨rfl, hle, _, rfl, rfl⟩
    | directory tree =>
      refine .inl ⟨(by decide : -EISDIR < 0), rfl, ?_⟩
      rintro ⟨-, node, h, hdir⟩
      cases h
      cases hdir

lemma rename_cases (F : FileSystem) (path new_path : Bytes) (answer : ℤ) :
    ((F.rename path new_path answer).1 < 0 ∧ (F.rename path new_path answer).2 = F ∧
      (answer < 0 ∨ F.nodeAt path = none)) ∨
    ((F.rename path new_path answer).1 = 0 ∧ 0 ≤ answer ∧ F.nodeAt path ≠ none ∧
      (F.rename path new_path answer).2.nodeAt new_path = F.nodeAt path) := by
  rw [rename]
  by_cases hlt : answer < 0
  · rw [if_pos hlt]
    exact .inl ⟨hlt, rfl, .inl hlt⟩
  rw [if_neg hlt]
  have hle := Int.not_lt.mp hlt
  cases hnode : F.nodeAt path with
  | none => exact .inl ⟨(by decide : -ENOENT < 0), rfl, .inr rfl⟩
  | some node =>
    dsimp only
    by_cases hsame : F.entry path = F.entry new_path
    · rw [if_pos hsame]
      refine .inr ⟨rfl, hle, Option.some_ne_none _, ?_⟩
      rw [nodeAt, ← hsame]
      exact hnode
    · rw [if_neg hsame]
      exact .inr ⟨rfl, hle, Option.some_ne_none _, nodeAt_put _ _ _⟩

end Callbacks

/-- An error leaves the source and the target as they were, and after a success the target is what
the source was. -/
structure MovesSafely (F : FileSystem) (name new_name : Bytes)
    (result : ℤ × FileSystem × ImplFileLocks) : Prop where
  source_kept : result.1 < 0 → result.2.1.nodeAt name = F.nodeAt name
  target_kept : result.1 < 0 → result.2.1.nodeAt new_name = F.nodeAt new_name
  moved : 0 ≤ result.1 → result.2.1.nodeAt new_name = F.nodeAt name

structure RemovesTarget (F : FileSystem) (ops : FuseOperations) (new_name : Bytes)
    (replace_existing : Bool) (a : MoveReplies) : Prop where
  unlink_set : ops.unlink = true
  replaces : replace_existing = true
  seen : a.getattr ≠ -ENOENT
  target : ∃ node, F.nodeAt new_name = some node ∧ node.isDir = false
  unlinked : 0 ≤ a.unlink

/-- The target is removed, and then nothing is put in its place. -/
structure LosesTarget (F : FileSystem) (ops : FuseOperations) (name new_name : Bytes)
    (replace_existing : Bool) (a : MoveReplies) : Prop where
  rename_set : ops.rename = true
  getattr_set : ops.getattr = true
  removes : F.RemovesTarget ops new_name replace_existing a
  stopped : a.getattrAgain < 0 ∧ a.getattrAgain ≠ -ENOENT ∨ a.rename < 0 ∨
    F.nodeAt name = none ∨ F.entry name = F.entry new_name

section Move

variable {F : FileSystem} {ops : FuseOperations} {T : ImplFileLocks} {name new_name : Bytes}
  {replace_existing : Bool} {a : MoveReplies}

lemma clearTarget_cases (F : FileSystem) (ops : FuseOperations) (new_name : Bytes)
    (replace_existing : Bool) (a : MoveReplies) :
    ((F.clearTarget ops new_name replace_existing a).2 = F ∧
      ¬ F.RemovesTarget ops new_name replace_existing a) ∨
    (F.clearTarget ops new_name replace_existing a = (0, F.put new_name none) ∧
      F.RemovesTarget ops new_name replace_existing a) := by
  rw [clearTarget]
  by_cases hseen : F.getattrResult new_name a.getattr = -ENOENT
  · rw [if_pos hseen]
    refine .inl ⟨rfl, fun h => ?_⟩
    obtain ⟨node, hnode, -⟩ := h.target
    exact h.seen ((getattrResult_of_some hnode).mp hseen)
  rw [if_neg hseen]
  by_cases hreplace : replace_existing = false
  · rw [if_pos hreplace]
    exact .inl ⟨rfl, fun h => Bool.false_ne_true (hreplace.symm.trans h.replaces)⟩
  rw [if_neg hreplace]
  by_cases hdir : F.statIsDir new_name a.getattr = true
  · rw [if_pos hdir]
    refine .inl ⟨rfl, fun h => ?_⟩
    obtain ⟨node, hnode, hfile⟩ := h.target
    rw [statIsDir, getattr, hnode] at hdir
    by_cases hlt : a.getattr < 0
    · rw [if_pos hlt] at hdir
      cases hdir
    · rw [if_neg hlt] at hdir
      cases hfile.symm.trans hdir
  rw [if_neg hdir]
  by_cases hunlink : ops.unlink = false
  · rw [if_pos hunlink]
    exact .inl ⟨rfl, fun h => Bool.false_ne_true (hunlink.symm.trans h.unlink_set)⟩
  rw [if_neg hunlink]
  rcases unlink_cases F new_name a.unlink with ⟨-, hsame, hno⟩ | ⟨hrun, hle, hnode⟩
  · exact .inl ⟨hsame, fun h => hno ⟨h.unlinked, h.target⟩⟩
  · refine .inr ⟨hrun, Bool.eq_true_of_not_eq_false hunlink, Bool.eq_true_of_not_eq_false hreplace,
      fun hne => hseen ?_, hnode, hle⟩
    obtain ⟨node, hnode, -⟩ := hnode
    exact (getattrResult_of_some hnode).mpr hne

lemma MovesSafely.error {res : ℤ} (h : res < 0) : MovesSafely F name new_name (res, F, T) :=
  ⟨fun _ => rfl, fun _ => rfl, fun hle => absurd hle (Int.not_le.mpr h)⟩

def finishMove (F : FileSystem) (T : ImplFileLocks) (name new_name : Bytes) (a : MoveReplies) :
    ℤ × FileSystem × ImplFileLocks :=
  if F.getattrResult new_name a.getattrAgain ≠ -ENOENT then (-EEXIST, F, T)
  else
    match F.rename name new_name a.rename with
    | (res, F) => if res < 0 then (res, F, T) else (0, F, T.renamedFile name new_name)

lemma finishMove_cases (F : FileSystem) (T : ImplFileLocks) (name new_name : Bytes)
    (a : MoveReplies) :
    ((F.finishMove T name new_name a).1 < 0 ∧ (F.finishMove T name new_name a).2.1 = F ∧
      (F.getattrResult new_name a.getattrAgain ≠ -ENOENT ∨ a.rename < 0 ∨ F.nodeAt name = none)) ∨
    ((F.finishMove T name new_name a).1 = 0 ∧
      (F.finishMove T name new_name a).2.1.nodeAt new_name = F.nodeAt name ∧
      F.getattrResult new_name a.getattrAgain = -ENOENT ∧ 0 ≤ a.rename ∧ F.nodeAt name ≠ none) := by
  rw [finishMove]
  by_cases hagain : F.getattrResult new_name a.getattrAgain = -ENOENT
  · rw [if_neg (not_not.mpr hagain)]
    rcases rename_cases F name new_name a.rename with ⟨hlt, hsame, hwhy⟩ | ⟨hres, hle, hsource, hmoved⟩
    · generalize F.rename name new_name a.rename = r at hlt hsame
      obtain ⟨res, G⟩ := r
      refine .inl ⟨?_, ?_, .inr hwhy⟩
      · dsimp only
        rw [if_pos hlt]
        exact hlt
      · dsimp only
        rw [if_pos hlt]
        exact hsame
    · generalize F.rename name new_name a.rename = r at hres hmoved
      obtain ⟨res, G⟩ := r
      obtain rfl : res = 0 := hres
      exact .inr ⟨rfl, hmoved, hagain, hle, hsource⟩
  · rw [if_pos hagain]
    exact .inl ⟨(by decide : -EEXIST < 0), rfl, .inl hagain⟩

lemma moveFile_eq (hset : ops.rename = true ∧ ops.getattr = true) (file_name new_file_name : Bytes) :
    F.moveFile ops T file_name new_file_name replace_existing a =
      match F.clearTarget ops (unixify new_file_name) replace_existing a with
      | (res, F) =>
        if res < 0 then (res, F, T)
        else F.finishMove T (unixify file_name) (unixify new_file_name) a := by
  rw [moveFile, if_neg (by simp [hset])]
  rfl

/-- A move is safe unless it removes the target and then nothing is put in its place. -/
theorem moveFile_safe (F : FileSystem) (ops : FuseOperations) (T : ImplFileLocks)
    (file_name new_file_name : Bytes) (replace_existing : Bool) (a : MoveReplies) :
    MovesSafely F (unixify file_name) (unixify new_file_name)
      (F.moveFile ops T file_name new_file_name replace_existing a) ↔
      ¬ F.LosesTarget ops (unixify file_name) (unixify new_file_name) replace_existing a := by
  by_cases hset : ops.rename = true ∧ ops.getattr = true
  swap
  · rw [moveFile, if_pos (by simpa [or_iff_not_imp_left] using hset)]
    exact iff_of_true (.error (by decide)) fun h => hset ⟨h.rename_set, h.getattr_set⟩
  rw [moveFile_eq hset]
  generalize unixify file_name = name
  generalize unixify new_file_name = new_name
  rcases clearTarget_cases F ops new_name replace_existing a with ⟨hsame, hno⟩ | ⟨hrun, hremoves⟩
  · refine iff_of_true ?_ fun h => hno h.removes
    generalize F.clearTarget ops new_name replace_existing a = r at hsame
    obtain ⟨res, G⟩ := r
    obtain rfl : F = G := hsame.symm
    dsimp only
    by_cases hlt : res < 0
    · rw [if_pos hlt]
      exact .error hlt
    rw [if_neg hlt]
    rcases finishMove_cases F T name new_name a with ⟨hres, hkept, -⟩ | ⟨hres, hmoved, -⟩
    · exact ⟨fun _ => by rw [hkept], fun _ => by rw [hkept], fun hle => by omega⟩
    · exact ⟨fun hlt => by omega, fun hlt => by omega, fun _ => hmoved⟩
  · rw [hrun]
    dsimp only
    rw [if_neg (Int.lt_irrefl 0)]
    obtain ⟨node, hnode, -⟩ := hremoves.target
    have hagain := getattrResult_eq_ENOENT a.getattrAgain (F.nodeAt_put new_name none)
    rcases finishMove_cases (F.put new_name none) T name new_name a with
      ⟨hres, hkept, hwhy⟩ | ⟨hres, hmoved, hmiss, hle, hsource⟩
    · refine iff_of_false (fun h => ?_) (not_not.mpr ⟨hset.1, hset.2, hremoves, ?_⟩)
      · have hlost := h.target_kept hres
        rw [hkept, nodeAt_put, hnode] at hlost
        cases hlost
      · rcases hwhy with hwhy | hwhy | hwhy
        · rw [ne_eq, hagain] at hwhy
          exact .inl (by omega)
        · exact .inr (.inl hwhy)
        · by_cases he : F.entry name = F.entry new_name
          · exact .inr (.inr (.inr he))
          · rw [nodeAt_put_of_ne F he] at hwhy
            exact .inr (.inr (.inl hwhy))
    · have he : F.entry name ≠ F.entry new_name := by
        intro he
        refine hsource ?_
        rw [nodeAt, put_entry, he, put_node_self]
      rw [nodeAt_put_of_ne F he] at hmoved hsource
      refine iff_of_true ⟨fun hlt => by omega, fun hlt => by omega, fun _ => hmoved⟩ fun h => ?_
      rw [hagain] at hmiss
      rcases h.stopped with hstop | hstop | hstop | hstop
      · omega
      · omega
      · exact hsource hstop
      · exact he hstop

end Move

theorem not_moveFile_safe : ¬ ∀ (F : FileSystem) (ops : FuseOperations) (T : ImplFileLocks)
    (file_name new_file_name : Bytes) (replace_existing : Bool) (a : MoveReplies),
    MovesSafely F (unixify file_name) (unixify new_file_name)
      (F.moveFile ops T file_name new_file_name replace_existing a) := by
  intro h
  have hsafe := h twoFiles encfsOperations .empty [47, 98] [92, 98] true ⟨0, 0, 0, 0⟩
  have hlost := hsafe.target_kept (by decide)
  exact absurd hlost (by decide)

end FileSystem

end EncFS.Fuse4Win
