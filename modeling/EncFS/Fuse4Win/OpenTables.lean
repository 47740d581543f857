import EncFS.DirNode.OpenDescendants
import EncFS.Fuse4Win.HandleNames

/-! Handles over the encrypted volume: the table of lock objects and the table of open files. -/

set_option autoImplicit false

namespace EncFS

open Function

inductive UnlinkAnswer
  | refused
  | stays
  | removed

namespace DirNode

variable {ε : Type} (D : DirNode) (V : Volume ε Context)

def getattr (path : Bytes) (new : ℕ) : Except RlogError (Option (TreeEntry ε)) := do
  let (node, S) ← D.findOrCreate V.nodes path new
  pure (V.disk.find (components (S.node node).rawName))

def unlink (plaintextName : Bytes) (answer : UnlinkAnswer) : Option (Volume ε Context) :=
  match D.cipherPath plaintextName with
  | .error _ => none
  | .ok fullName =>
    match answer with
    | .refused => none
    | .stays => some V
    | .removed => (V.disk.unlink (components fullName)).map fun disk => { V with disk }

end DirNode

namespace Fuse4Win

/-- `impl_fuse_context` over encfs, and the member `fh_` of each handle. -/
structure ImplFuseContext (ε : Type) where
  file_locks : ImplFileLocks
  volume : Volume ε Context
  fh_ : ℕ → ℕ

structure OpenAddresses where
  file : ℕ
  lock : ℕ
  node : ℕ
  placeholder : ℕ

structure MoveAnswers where
  system : UnixAnswers
  unlinked : UnlinkAnswer
  iv : Bytes → Bytes → Bool → SetIV
  node : ℕ
  fuel : ℕ

inductive FuseEvent
  | doOpenFile (fname : Bytes) (share_mode Flags : UInt32) (addresses : OpenAddresses) (opened : Bool)
  | moveFile (name new_name : Bytes) (replace_existing : Bool) (answers : MoveAnswers)
  | closeFile (file : ℕ)

namespace ImplFuseContext

variable {ε : Type} (D : DirNode) (R : ImplFuseContext ε)

def encfsOpen (S : Context) (path : Bytes) (new pl : ℕ) (opened : Bool) : Bool × Context :=
  match D.openNode S path new opened with
  | (some fnode, S) => (true, S.putNode path fnode pl)
  | (none, S) => (false, S)

def encfsRelease (S : Context) (path : Bytes) (pl : ℕ) : Bool × Context :=
  match S.eraseNode path pl with
  | some S => (true, S)
  | none => (false, S)

def doOpenFile (fname : Bytes) (share_mode Flags : UInt32) (addresses : OpenAddresses)
    (opened : Bool) : Bool × ImplFuseContext ε :=
  let (res, locks) := R.file_locks.getFile fname false Flags share_mode addresses.file addresses.lock
  if res ≠ 0 then
    (false, { R with file_locks := locks })
  else
    match encfsOpen D R.volume.nodes fname addresses.node addresses.placeholder opened with
    | (true, nodes) =>
      (true, ⟨locks, { R.volume with nodes }, update R.fh_ addresses.file addresses.placeholder⟩)
    | (false, nodes) =>
      -- the handle goes with the pointer that holds it
      (false, ⟨locks.destroyFile addresses.file, { R.volume with nodes }, R.fh_⟩)

def clearTarget (new_name : Bytes) (replace_existing : Bool) (answers : MoveAnswers) :
    Option (Volume ε Context) :=
  match D.getattr R.volume new_name answers.node with
  | .ok none => some R.volume
  | .ok (some .dir) => none
  | _ => if replace_existing then D.unlink R.volume new_name answers.unlinked else none

def moveFile (name new_name : Bytes) (replace_existing : Bool) (answers : MoveAnswers) :
    Bool × ImplFuseContext ε :=
  match R.clearTarget D new_name replace_existing answers with
  | none => (false, R)
  | some V =>
    match D.getattr V new_name answers.node with
    | .ok none =>
      match D.rename (D.renameNodeIn answers.node answers.iv) answers.system answers.fuel name
          new_name V with
      | (.moved, V) => (true, ⟨R.file_locks.renamedFile name new_name, V, R.fh_⟩)
      | (_, V) => (false, { R with volume := V })
    | _ => (false, { R with volume := V })

def closeFile (file : ℕ) : ImplFuseContext ε :=
  match R.file_locks.getName file with
  | none => R
  | some name =>
    ⟨R.file_locks.destroyFile file,
      { R.volume with nodes := (encfsRelease R.volume.nodes name (R.fh_ file)).2 }, R.fh_⟩

def next : FuseEvent → ImplFuseContext ε
  | .doOpenFile fname share_mode Flags addresses opened =>
    (R.doOpenFile D fname share_mode Flags addresses opened).2
  | .moveFile name new_name replace_existing answers =>
    (R.moveFile D name new_name replace_existing answers).2
  | .closeFile file => R.closeFile file

def Enabled : FuseEvent → Prop
  | .doOpenFile _ _ _ addresses _ =>
    R.file_locks.getName addresses.file = none ∧ R.file_locks.live addresses.lock = false ∧
      R.volume.nodes.Fresh addresses.node ∧ R.volume.nodes.live addresses.placeholder = false
  | .moveFile name new_name replace_existing answers =>
    R.volume.nodes.Fresh answers.node ∧
      (R.moveFile D name new_name replace_existing answers).1 = true
  | .closeFile file => R.file_locks.getName file ≠ none

/-- No file that is open is moved to the name of another one that is, and no directory with an open
file below it that the rename gives another name. -/
def Careful : FuseEvent → Prop
  | .moveFile name new_name _ _ =>
    (name = new_name ∨ R.volume.nodes.openFiles name = none ∨
      R.volume.nodes.openFiles new_name = none) ∧
    ((∃ c, D.cipherPath name = .ok c ∧ R.volume.isDirectory c = true) → ∀ x, x ≠ [] →
      R.volume.nodes.openFiles (below name x) ≠ none → ¬ DirNode.Rekeyed D name new_name x)
  | _ => True

inductive Reached (P : ImplFuseContext ε → FuseEvent → Prop) : ImplFuseContext ε → Prop
  | empty (disk : FileTree Bytes ε) (fh : ℕ → ℕ) : Reached P ⟨.empty, ⟨disk, .empty⟩, fh⟩
  | step {R : ImplFuseContext ε} (e : FuseEvent) : Reached P R → R.Enabled D e → P R e →
    Reached P (R.next D e)

open DirNode Context ImplFileLocks

/-- The handles with a name and the placeholders under it are the same. -/
structure InStep (R : ImplFuseContext ε) : Prop where
  sound : Sound R.volume.nodes
  keyed : Keyed R.file_locks
  filed : ∀ {file name}, R.file_locks.getName file = some name →
    R.volume.nodes.Filed name (R.fh_ file)
  handle : ∀ {path pl}, R.volume.nodes.Filed path pl →
    ∃ file, R.file_locks.getName file = some path ∧ R.fh_ file = pl
  injective : ∀ {file file' name name'}, R.file_locks.getName file = some name →
    R.file_locks.getName file' = some name' → R.fh_ file = R.fh_ file' → file = file'

variable {D R}

lemma InStep.openFiles (hR : InStep R) {name : Bytes} :
    R.volume.nodes.openFiles name = none ↔ R.file_locks.file_locks name = none := by
  rw [hR.keyed.file_locks_eq_none]
  constructor
  · intro hnone file hname
    exact not_filed hnone (hR.filed hname)
  · intro hnames
    cases hopen : R.volume.nodes.openFiles name with
    | none => rfl
    | some set =>
      obtain ⟨pl, hpl⟩ := hR.sound.nonempty hopen
      obtain ⟨file, hname, -⟩ := hR.handle ⟨set, hopen, hpl⟩
      exact absurd hname (hnames file)

section Step

variable (hR : InStep R)
include hR

lemma InStep.map {R' : ImplFuseContext ε} {g : Bytes → Bytes} (hsound : Sound R'.volume.nodes)
    (hkeyed : Keyed R'.file_locks) (hfh : R'.fh_ = R.fh_)
    (hfiled : ∀ {path pl}, R'.volume.nodes.Filed path pl ↔
      ∃ p, R.volume.nodes.Filed p pl ∧ g p = path)
    (hnames : ∀ file, R'.file_locks.getName file = (R.file_locks.getName file).map g) :
    InStep R' where
  sound := hsound
  keyed := hkeyed
  filed {file name} h := by
    rw [hnames] at h
    obtain ⟨p, hp, rfl⟩ := Option.map_eq_some_iff.mp h
    rw [hfh]
    exact hfiled.mpr ⟨p, hR.filed hp, rfl⟩
  handle {path pl} h := by
    obtain ⟨p, hp, rfl⟩ := hfiled.mp h
    obtain ⟨file, hname, hpl⟩ := hR.handle hp
    exact ⟨file, by rw [hnames, hname, Option.map_some], by rw [hfh, hpl]⟩
  injective {file file' name name'} h h' heq := by
    rw [hnames] at h h'
    obtain ⟨p, hp, -⟩ := Option.map_eq_some_iff.mp h
    obtain ⟨p', hp', -⟩ := Option.map_eq_some_iff.mp h'
    rw [hfh] at heq
    exact hR.injective hp hp' heq

lemma InStep.same {R' : ImplFuseContext ε} (hsound : Sound R'.volume.nodes)
    (hkeyed : Keyed R'.file_locks) (hfh : R'.fh_ = R.fh_)
    (hfiled : ∀ {path pl}, R'.volume.nodes.Filed path pl ↔ R.volume.nodes.Filed path pl)
    (hnames : R'.file_locks.getName = R.file_locks.getName) : InStep R' :=
  hR.map (g := id) hsound hkeyed hfh (by simp [hfiled]) fun file => by
    rw [hnames, Option.map_id_apply]

lemma InStep.add {R' : ImplFuseContext ε} {fname : Bytes} {file pl : ℕ}
    (hfile : R.file_locks.getName file = none) (hpl : R.volume.nodes.live pl = false)
    (hsound : Sound R'.volume.nodes) (hkeyed : Keyed R'.file_locks)
    (hfh : R'.fh_ = update R.fh_ file pl)
    (hfiled : ∀ {path p}, R'.volume.nodes.Filed path p ↔
      (path = fname ∧ p = pl) ∨ R.volume.nodes.Filed path p)
    (hnames : R'.file_locks.getName = update R.file_locks.getName file (some fname)) :
    InStep R' := by
  -- the new placeholder is that of no other handle
  have hother {f : ℕ} {name : Bytes} (hf : R.file_locks.getName f = some name) : R.fh_ f ≠ pl := by
    intro hsame
    have hlive := hR.sound.live (hR.filed hf)
    rw [hsame, hpl] at hlive
    cases hlive
  refine ⟨hsound, hkeyed, fun {f name} h => ?_, fun {path p} h => ?_,
    fun {f f' name name'} h h' heq => ?_⟩
  · rw [hnames] at h
    rw [hfh]
    by_cases hsame : f = file
    · subst hsame
      rw [update_self] at h ⊢
      exact hfiled.mpr (.inl ⟨(Option.some.inj h).symm, rfl⟩)
    · rw [update_of_ne hsame] at h ⊢
      exact hfiled.mpr (.inr (hR.filed h))
  · rw [hnames, hfh]
    rcases hfiled.mp h with ⟨rfl, rfl⟩ | h
    · exact ⟨file, update_self _ _ _, update_self _ _ _⟩
    · obtain ⟨f, hname, hf⟩ := hR.handle h
      have hdiff : f ≠ file := by
        rintro rfl
        rw [hfile] at hname
        cases hname
      exact ⟨f, by rw [update_of_ne hdiff, hname], by rw [update_of_ne hdiff, hf]⟩
  · rw [hnames] at h h'
    rw [hfh] at heq
    by_cases hsame : f = file
    · by_cases hsame' : f' = file
      · rw [hsame, hsame']
      · rw [update_of_ne hsame'] at h'
        rw [hsame, update_self, update_of_ne hsame'] at heq
        exact absurd heq.symm (hother h')
    · rw [update_of_ne hsame] at h heq
      by_cases hsame' : f' = file
      · rw [hsame', update_self] at heq
        exact absurd heq (hother h)
      · rw [update_of_ne hsame'] at h' heq
        exact hR.injective h h' heq

lemma inStep_doOpenFile {fname : Bytes} {share_mode Flags : UInt32} {addresses : OpenAddresses}
    {opened : Bool}
    (hen : R.Enabled D (.doOpenFile fname share_mode Flags addresses opened)) :
    InStep (R.next D (.doOpenFile fname share_mode Flags addresses opened)) := by
  obtain ⟨hfile, hlock, hnode, hpl⟩ := hen
  have hnone : R.file_locks.file_lock addresses.file = none := Option.map_eq_none_iff.mp hfile
  have hget := hR.keyed.getFile_spec hnone fname false Flags share_mode hlock
  rw [next, doOpenFile]
  cases hrun : R.file_locks.getFile fname false Flags share_mode addresses.file addresses.lock with
  | mk res T =>
    rw [hrun] at hget
    obtain ⟨hT, hnames⟩ := hget
    dsimp only
    by_cases hres : res = 0
    · rw [if_pos hres] at hnames
      rw [if_neg (not_not.mpr hres)]
      obtain ⟨hsound, hfiles, hlive, hopened⟩ :=
        D.openNode_spec hR.sound hnode fname opened
      rw [encfsOpen]
      cases hopen : D.openNode R.volume.nodes fname addresses.node opened with
      | mk fnode S =>
        rw [hopen] at hsound hfiles hlive hopened
        have hfiled {path : Bytes} {pl : ℕ} : S.Filed path pl ↔ R.volume.nodes.Filed path pl :=
          Filed.congr hfiles
        cases fnode with
        | none =>
          obtain ⟨hT', hnames'⟩ := hT.destroyFile_spec addresses.file
          rw [hnames, update_idem, ← hfile, update_eq_self] at hnames'
          exact hR.same hsound hT' rfl hfiled hnames'
        | some n =>
          obtain ⟨hname, hshared⟩ := hopened n rfl
          have hput := hsound.putNode (hlive ▸ hpl) (fun pl h => hshared pl (hfiled.mp h)) hname
          exact hR.add hfile hpl hput hT rfl
            (Sound.putNode_filed.trans (or_congr_right hfiled)) hnames
    · rw [if_neg hres] at hnames
      rw [if_pos hres]
      exact hR.same hR.sound hT rfl Iff.rfl hnames

omit hR in
lemma clearTarget_cases {new_name : Bytes} {replace_existing : Bool} {answers : MoveAnswers}
    {V : Volume ε Context} (h : R.clearTarget D new_name replace_existing answers = some V) :
    V.nodes = R.volume.nodes ∧ ∀ p, V.isDirectory p = true → R.volume.isDirectory p = true := by
  have hunlink (h : D.unlink R.volume new_name answers.unlinked = some V) :
      V.nodes = R.volume.nodes ∧ ∀ p, V.isDirectory p = true → R.volume.isDirectory p = true := by
    rw [DirNode.unlink] at h
    split at h
    · cases h
    · split at h
      · cases h
      · obtain rfl := Option.some.inj h
        exact ⟨rfl, fun _ => id⟩
      · obtain ⟨disk, hdisk, rfl⟩ := Option.map_eq_some_iff.mp h
        refine ⟨rfl, fun p hp => ?_⟩
        have hdir := FileTree.isDirectory_iff.mp hp
        exact FileTree.isDirectory_iff.mpr (FileTree.entries_unlink hdisk hdir)
  rw [clearTarget] at h
  split at h
  · obtain rfl := Option.some.inj h
    exact ⟨rfl, fun _ => id⟩
  · cases h
  · split at h
    · exact hunlink h
    · cases h

omit hR in
lemma moveFile_cases {name new_name : Bytes} {replace_existing : Bool} {answers : MoveAnswers}
    (h : (R.moveFile D name new_name replace_existing answers).1 = true) :
    ∃ V V', V.nodes = R.volume.nodes ∧
      (∀ p, V.isDirectory p = true → R.volume.isDirectory p = true) ∧
      D.rename (D.renameNodeIn answers.node answers.iv) answers.system answers.fuel name new_name
        V = (.moved, V') ∧
      (R.moveFile D name new_name replace_existing answers).2 =
        ⟨R.file_locks.renamedFile name new_name, V', R.fh_⟩ := by
  rw [moveFile] at h ⊢
  split at h
  · cases h
  · rename_i V hclear
    obtain ⟨hnodes, hdir⟩ := clearTarget_cases hclear
    split at h
    · split at h
      · rename_i V' hmoved
        exact ⟨V, V', hnodes, hdir, hmoved, rfl⟩
      · cases h
    · cases h

lemma rename_openFiles {name new_name : Bytes} {answers : MoveAnswers} {V V' : Volume ε Context}
    (hnodes : V.nodes = R.volume.nodes)
    (hdir : ∀ p, V.isDirectory p = true → R.volume.isDirectory p = true)
    (hnew : R.volume.nodes.Fresh answers.node)
    (hmoved : D.rename (D.renameNodeIn answers.node answers.iv) answers.system answers.fuel name
      new_name V = (.moved, V'))
    (hcareful : R.Careful D (.moveFile name new_name false answers)) :
    Sound V'.nodes ∧ V'.nodes.openFiles = (R.volume.nodes.renameNode name new_name).openFiles := by
  obtain ⟨hfree, hbelow⟩ := hcareful
  obtain ⟨fromC, toC, l, done, V₁, V₂, hfrom, -, hlist, happly, hnode, hlast⟩ := rename_moved hmoved
  have hclosed : ∀ el ∈ l, R.volume.nodes.openFiles el.oldPName = none := by
    intro el hel
    split at hlist
    · rename_i hisdir
      obtain ⟨x, hx, hrekeyed, hold, -⟩ := genRenameList_below hlist hel
      by_contra hopen
      rw [hold] at hopen
      exact hbelow ⟨fromC, hfrom, hdir _ hisdir.2⟩ x hx hopen hrekeyed
    · rw [← Option.some.inj hlist] at hel
      cases hel
  have hlisted : Sound V₁.nodes ∧ V₁.nodes.Fresh answers.node ∧
      V₁.nodes.openFiles = R.volume.nodes.openFiles := by
    refine RenameOp.apply_invariant (P := fun S => Sound S ∧ S.Fresh answers.node ∧
      S.openFiles = R.volume.nodes.openFiles) happly (fun el hel V V₁ hstep hP => ?_) ?_
    · obtain ⟨hsound, hfresh, hopen⟩ := hP
      have hstep := renameNodeIn_ok hstep
      have hnone : V.nodes.openFiles el.oldPName = none := by
        rw [hopen]
        exact hclosed el hel
      have hrenamed := D.renameNode_renamed hsound hfresh el.oldPName el.newPName
        (answers.iv el.oldPName el.newPName true) true (fun _ => .inr (.inl hnone))
        (fun _ h => absurd h (by decide))
      rw [hstep] at hrenamed
      refine ⟨hrenamed.sound, hrenamed.fresh hfresh, ?_⟩
      rw [hrenamed.openFiles, if_pos rfl, renameNode_absent hnone, hopen]
    · rw [hnodes]
      exact ⟨hR.sound, hnew, rfl⟩
  obtain ⟨hsound, hfresh, hopen⟩ := hlisted
  rw [← hopen] at hfree
  have hrenamed := D.renameNode_renamed hsound hfresh name new_name
    (answers.iv name new_name true) true (fun _ => hfree) (fun _ h => absurd h (by decide))
  rw [renameNodeIn_ok hnode] at hrenamed
  rw [(Volume.rename_cases hlast).2]
  refine ⟨hrenamed.sound, ?_⟩
  rw [hrenamed.openFiles, if_pos rfl]
  funext path
  rw [renameNode_openFiles, renameNode_openFiles, hopen]

lemma inStep_moveFile {name new_name : Bytes} {replace_existing : Bool} {answers : MoveAnswers}
    (hen : R.Enabled D (.moveFile name new_name replace_existing answers))
    (hcareful : R.Careful D (.moveFile name new_name replace_existing answers)) :
    InStep (R.next D (.moveFile name new_name replace_existing answers)) := by
  obtain ⟨hnew, hok⟩ := hen
  obtain ⟨V, V', hnodes, hdir, hmoved, hnext⟩ := moveFile_cases hok
  obtain ⟨hsound, hopen⟩ := rename_openFiles hR hnodes hdir hnew hmoved hcareful
  rw [next, hnext]
  have hfree := hcareful.1
  have hlocks : R.file_locks.file_locks name = none ∨ name = new_name ∨
      R.file_locks.file_locks new_name = none := by
    rw [← hR.openFiles, ← hR.openFiles]
    rcases hfree with h | h | h
    · exact .inr (.inl h)
    · exact .inl h
    · exact .inr (.inr h)
  obtain ⟨hkeyed, hnames⟩ := hR.keyed.renamedFile_spec hlocks
  refine InStep.map hR (g := fun p => if p = name then new_name else p) hsound hkeyed rfl
    (fun {path pl} => ?_) fun file => ?_
  · rw [Filed.congr hopen]
    cases hset : R.volume.nodes.openFiles name with
    | none =>
      rw [renameNode_absent hset]
      constructor
      · intro hpl
        have hne : path ≠ name := fun h => not_filed hset (h ▸ hpl)
        exact ⟨path, hpl, if_neg hne⟩
      · rintro ⟨p, hpl, rfl⟩
        have hne : p ≠ name := fun h => not_filed hset (h ▸ hpl)
        rwa [if_neg hne]
    | some set =>
      obtain ⟨pl', hpl'⟩ := hR.sound.nonempty hset
      rw [renameNode_filed ⟨set, hset, hpl'⟩]
      constructor
      · rintro (⟨rfl, hpl⟩ | ⟨-, hne, hpl⟩)
        · exact ⟨name, hpl, if_pos rfl⟩
        · exact ⟨path, hpl, if_neg hne⟩
      · rintro ⟨p, hpl, rfl⟩
        by_cases hp : p = name
        · rw [if_pos hp]
          exact .inl ⟨rfl, hp ▸ hpl⟩
        · rw [if_neg hp]
          refine .inr ⟨fun heq => ?_, hp, hpl⟩
          rcases hfree with h | h | h
          · exact hp (heq.trans h.symm)
          · rw [hset] at h
            cases h
          · exact not_filed h (heq ▸ hpl)
  · rw [hnames]
    cases R.file_locks.getName file with
    | none => simp
    | some p =>
      by_cases hp : p = name
      · simp [hp]
      · simp [hp]

lemma inStep_closeFile {file : ℕ} (hen : R.Enabled D (.closeFile file)) :
    InStep (R.next D (.closeFile file)) := by
  obtain ⟨name, hname⟩ := Option.ne_none_iff_exists'.mp hen
  obtain ⟨S, herase⟩ := Option.isSome_iff_exists.mp (Sound.eraseNode_isSome (hR.filed hname))
  obtain ⟨hkeyed, hnames⟩ := hR.keyed.destroyFile_spec file
  have hfiled {path : Bytes} {pl : ℕ} :
      S.Filed path pl ↔ R.volume.nodes.Filed path pl ∧ pl ≠ R.fh_ file :=
    hR.sound.eraseNode_filed herase
  simp only [next, closeFile, hname, encfsRelease, herase]
  have hother {f : ℕ} {n : Bytes} (hf : update R.file_locks.getName file none f = some n) :
      f ≠ file ∧ R.file_locks.getName f = some n := by
    have hne : f ≠ file := by
      rintro rfl
      rw [update_self] at hf
      cases hf
    rw [update_of_ne hne] at hf
    exact ⟨hne, hf⟩
  refine ⟨hR.sound.eraseNode herase, hkeyed, fun {f n} hf => ?_, fun {path pl} hpl => ?_,
    fun hf hf' heq => ?_⟩
  · rw [hnames] at hf
    obtain ⟨hne, hf⟩ := hother hf
    exact hfiled.mpr ⟨hR.filed hf, fun heq => hne (hR.injective hf hname heq)⟩
  · obtain ⟨hold, hne⟩ := hfiled.mp hpl
    obtain ⟨f, hf, hfh⟩ := hR.handle hold
    refine ⟨f, ?_, hfh⟩
    rw [hnames, update_of_ne, hf]
    rintro rfl
    exact hne hfh.symm
  · dsimp only at hf hf'
    rw [hnames] at hf hf'
    exact hR.injective (hother hf).2 (hother hf').2 heq

end Step

lemma Reached.inStep (h : Reached D (Careful D) R) : InStep R := by
  induction h with
  | empty disk fh =>
    exact ⟨.empty, .empty, fun h => (by cases h), fun h => (by obtain ⟨set, hset, -⟩ := h; cases hset),
      fun h => (by cases h)⟩
  | step e _ hen hcareful ih =>
    cases e with
    | doOpenFile => exact inStep_doOpenFile ih hen
    | moveFile => exact inStep_moveFile ih hen hcareful
    | closeFile => exact inStep_closeFile ih hen

/-- The name of a handle is the path under which its placeholder is filed, and erases it; every
placeholder is that of a handle. -/
theorem tables_in_step (h : Reached D (Careful D) R) :
    (∀ file name, R.file_locks.getName file = some name →
      (∀ path, R.volume.nodes.Filed path (R.fh_ file) ↔ path = name) ∧
      (encfsRelease R.volume.nodes name (R.fh_ file)).1 = true) ∧
    ∀ pl, R.volume.nodes.live pl = true ↔
      ∃ file, R.file_locks.getName file ≠ none ∧ R.fh_ file = pl := by
  have hR := h.inStep
  refine ⟨fun file name hname => ⟨fun path => ⟨fun hpl => ?_, ?_⟩, ?_⟩, fun pl => ?_⟩
  · exact hR.sound.filed_unique hpl (hR.filed hname)
  · rintro rfl
    exact hR.filed hname
  · obtain ⟨S, herase⟩ := Option.isSome_iff_exists.mp (Sound.eraseNode_isSome (hR.filed hname))
    rw [encfsRelease, herase]
  · rw [hR.sound.live_iff]
    constructor
    · rintro ⟨path, hpl⟩
      obtain ⟨file, hname, hfh⟩ := hR.handle hpl
      exact ⟨file, by rw [hname]; exact Option.some_ne_none path, hfh⟩
    · rintro ⟨file, hname, rfl⟩
      obtain ⟨name, hname⟩ := Option.ne_none_iff_exists'.mp hname
      exact ⟨name, hR.filed hname⟩

def oneHandle (D : DirNode) (disk : FileTree Bytes Unit) (fname : Bytes) : ImplFuseContext Unit :=
  next D ⟨.empty, ⟨disk, .empty⟩, fun _ => 0⟩ (.doOpenFile fname 7 GENERIC_READ ⟨1, 100, 2, 10⟩ true)

lemma reached_oneHandle {D : DirNode} {disk : FileTree Bytes Unit} {fname : Bytes}
    {P : ImplFuseContext Unit → FuseEvent → Prop}
    (hP : P ⟨.empty, ⟨disk, .empty⟩, fun _ => 0⟩
      (.doOpenFile fname 7 GENERIC_READ ⟨1, 100, 2, 10⟩ true)) :
    Reached D P (oneHandle D disk fname) :=
  .step _ (.empty disk _) ⟨rfl, rfl, fun pl h => (by cases h), rfl⟩ hP

lemma oneHandle_fresh {D : DirNode} {disk : FileTree Bytes Unit} {fname c : Bytes}
    (hc : D.cipherPath fname = .ok c) : (oneHandle D disk fname).volume.nodes.Fresh 3 := by
  have hnodes : (oneHandle D disk fname).volume.nodes =
      ({ Context.empty with node := update Context.empty.node 2 ⟨fname, c, c⟩ } : Context).putNode
        fname 2 10 := by
    simp [oneHandle, next, doOpenFile, getFile, pickLock, ImplFileLocks.empty, encfsOpen, openNode,
      findOrCreate, lookupNode, Context.empty, hc]
  rw [hnodes]
  exact Fresh.putNode fname 2 10 (fun pl h => (by cases h)) (by decide)

def moveAllowed : MoveAnswers := ⟨allAllowed, .removed, fun _ _ _ => .done, 3, 3⟩

theorem tables_in_step_unchained :
    let R := next unchainedVolume
      (oneHandle unchainedVolume (oneFile [45, 111, 88, 74] [45, 50, 90, 55]) [47, 100, 47, 120])
      (.moveFile [47, 100] [47, 101] false moveAllowed)
    (∀ path, R.volume.nodes.Filed path (R.fh_ 1) ↔ path = [47, 100, 47, 120]) ∧
      (encfsRelease R.volume.nodes [47, 100, 47, 120] (R.fh_ 1)).1 = true := by
  have hc : unchainedVolume.cipherPath [47, 100, 47, 120] =
      .ok [47, 114, 47, 45, 111, 88, 74, 47, 45, 50, 90, 55] := by
    decide +kernel
  have hone : Reached unchainedVolume (Careful unchainedVolume) (oneHandle unchainedVolume
      (oneFile [45, 111, 88, 74] [45, 50, 90, 55]) [47, 100, 47, 120]) :=
    reached_oneHandle trivial
  have hiv : unchainedVolume.pathIV [47, 100] = unchainedVolume.pathIV [47, 101] := by
    decide +kernel
  have hmove := hone.step (.moveFile [47, 100] [47, 101] false moveAllowed)
    ⟨oneHandle_fresh hc, by decide +kernel⟩
    ⟨.inr (.inl (by decide +kernel)), fun _ x hx _ hrekeyed => by
      cases x with
      | nil => exact hx rfl
      | cons n x => exact hrekeyed.1 hiv⟩
  exact (tables_in_step hmove).1 1 [47, 100, 47, 120] (by decide +kernel)

theorem not_tables_in_step :
    ∃ R : ImplFuseContext Unit, Reached OpenRun.maskVolume (fun _ _ => True) R ∧
      R.file_locks.getName 1 = some [47, 100, 47, 120] ∧
      R.volume.nodes.Filed [47, 101, 47, 120] (R.fh_ 1) ∧
      (encfsRelease R.volume.nodes [47, 100, 47, 120] (R.fh_ 1)).1 = false ∧
      (R.closeFile 1).file_locks.getName 1 = none ∧
      (R.closeFile 1).volume.nodes.live (R.fh_ 1) = true := by
  have hc : OpenRun.maskVolume.cipherPath [47, 100, 47, 120] =
      .ok [47, 114, 47, 45, 111, 88, 74, 47, 98, 69, 102, 122] := by
    decide +kernel
  have hone : Reached OpenRun.maskVolume (fun _ _ => True) (oneHandle OpenRun.maskVolume
      (oneFile [45, 111, 88, 74] [98, 69, 102, 122]) [47, 100, 47, 120]) :=
    reached_oneHandle trivial
  have hmove := hone.step (.moveFile [47, 100] [47, 101] false moveAllowed)
    ⟨oneHandle_fresh hc, by decide +kernel⟩ trivial
  refine ⟨_, hmove, by decide +kernel, ⟨{10}, by decide +kernel, by decide +kernel⟩,
    by decide +kernel, by decide +kernel, by decide +kernel⟩

end ImplFuseContext

end Fuse4Win

end EncFS
