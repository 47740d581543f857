import EncFS.EncfsCtl.Contents
import Mathlib.Data.Set.Insert

set_option autoImplicit false

namespace EncFS.EncfsCtl

open FlatArray

inductive Node
  | file (content : Bytes)
  | dir (children : Bytes → Option Node)

abbrev Children := Bytes → Option Node

def EXIT_SUCCESS : ℤ := 0

def EXIT_FAILURE : ℤ := 1

-- Windows has no links, and the program has these in their place.
def S_IFLNK : ℕ := 0

def S_ISLNK (_mode : ℕ) : Bool := false

def readlink : ℤ := -1

def symlink (old : Option Node) : ℤ × Option Node := (-1, old)

/-- A file of the volume, and how the calls that copy it end. `lstat` and `getAttr` give a mode, and
write number `i` takes `write i` bytes. -/
structure FileReplies where
  lstat : Option ℕ
  getAttr : Option ℕ
  creat : Bool
  node : NodeReplies
  getSize : Bool
  source : SourceFile
  write : ℕ → ℤ

structure DirReplies where
  lstat : Bool
  getAttr : Bool
  mkdir : Bool
  openDir : Bool

/-- What `nextPlaintextName` goes through: `S_ISDIR` tells the two kinds apart. It skips a name that
does not decode, and `.` and `..` are skipped by its caller; it stops where `readdir` fails or a name
decodes to nothing. -/
inductive Listing
  | done
  | skipped (rest : Listing)
  | stopped (rest : Listing)
  | file (name : Bytes) (r : FileReplies) (rest : Listing)
  | dir (name : Bytes) (r : DirReplies) (contents rest : Listing)

def FileReplies.size (r : FileReplies) : ℤ := if r.getSize then r.source.content.length else -1

def FileReplies.written (r : FileReplies) : Bytes :=
  ((processContents r.node r.source r.size r.write).pieces.mapIdx fun i p =>
    p.data.take (r.write i).toNat).flatten

def Unix.creat (ok : Bool) (written : Bytes) : Option Node → Option Node
  | none => if ok then some (.file written) else none
  | some (.file content) => some (.file (if ok then written else content))
  | some other => some other

def Unix.mkdir (ok : Bool) (old : Option Node) : Option Node :=
  if ok ∧ old.isNone then some (.dir fun _ => none) else old

def copyLink (old : Option Node) : ℤ × Option Node :=
  if readlink = -1 then
    (EXIT_FAILURE, old)
  else
    (EXIT_SUCCESS, (symlink old).2)

/-- `lookupNode` always gives a node. The results of `symlink`, `creat` and `processContents` are not
looked at. -/
def copyContents (r : FileReplies) (old : Option Node) : ℤ × Option Node :=
  match r.getAttr with
  | none => (EXIT_FAILURE, old)
  | some mode =>
    if mode &&& S_IFLNK = S_IFLNK then
      if readlink ≤ 0 then (EXIT_FAILURE, old) else (EXIT_SUCCESS, (symlink old).2)
    else
      (EXIT_SUCCESS, Unix.creat r.creat r.written old)

def FileReplies.copy (r : FileReplies) (old : Option Node) : ℤ × Option Node :=
  match r.lstat with
  | none => (EXIT_FAILURE, old)
  | some mode => if S_ISLNK mode then copyLink old else copyContents r old

def inDir (inner : Children → ℤ × Children) : Option Node → ℤ × Option Node
  | some (.dir children) => ((inner children).1, some (.dir (inner children).2))
  | other => ((inner fun _ => none).1, other)

def enterDir (r : DirReplies) (inner : Children → ℤ × Children) (old : Option Node) :
    ℤ × Option Node :=
  if r.getAttr then
    if r.openDir then
      inDir inner (Unix.mkdir r.mkdir old)
    else
      (EXIT_SUCCESS, Unix.mkdir r.mkdir old)
  else
    (EXIT_FAILURE, old)

def DirReplies.copy (r : DirReplies) (inner : Children → ℤ × Children) (old : Option Node) :
    ℤ × Option Node :=
  if r.lstat then (EXIT_SUCCESS, (enterDir r inner old).2) else (EXIT_FAILURE, old)

def copyEntry (name : Bytes) (copy : Option Node → ℤ × Option Node)
    (rest : Children → ℤ × Children) (here : Children) : ℤ × Children :=
  let copied := copy (here name)
  let there := Function.update here name copied.2
  if copied.1 = EXIT_SUCCESS then rest there else (copied.1, there)

def traverse : Listing → Children → ℤ × Children
  | .done => fun here => (EXIT_SUCCESS, here)
  | .skipped rest => traverse rest
  | .stopped _ => fun here => (EXIT_SUCCESS, here)
  | .file name r rest => copyEntry name r.copy (traverse rest)
  | .dir name r contents rest => copyEntry name (r.copy (traverse contents)) (traverse rest)

def traverseDirs (r : DirReplies) (l : Listing) (dest : Option Node) : ℤ × Option Node :=
  enterDir r (traverse l) dest

structure ExportReplies where
  initRootInfo : Bool
  checkDir : Bool
  userAllowMkdir : Bool
  root : DirReplies

def cmdExport (r : ExportReplies) (l : Listing) (dest : Option Node) : ℤ × Option Node :=
  if r.initRootInfo then
    if r.checkDir then
      traverseDirs r.root l dest
    else if r.userAllowMkdir then
      traverseDirs r.root l (Unix.mkdir true dest)
    else
      (EXIT_FAILURE, dest)
  else
    (EXIT_FAILURE, dest)

def HoldsDir (P : Children → Prop) (node : Option Node) : Prop := ∃ c, node = some (.dir c) ∧ P c

namespace DirReplies

variable (r : DirReplies) (complete arrives : Children → Prop)

def Enters (old : Option Node) : Prop :=
  HoldsDir (if r.openDir then arrives else complete) (Unix.mkdir r.mkdir old)

def Arrives (old : Option Node) : Prop :=
  if r.lstat ∧ r.getAttr then r.Enters complete arrives old else HoldsDir complete old

end DirReplies

namespace Listing

def names : Listing → Set Bytes
  | done => ∅
  | skipped rest => rest.names
  | stopped rest => rest.names
  | file name _ rest => insert name rest.names
  | dir name _ _ rest => insert name rest.names

def Distinct : Listing → Prop
  | done => True
  | skipped rest => rest.Distinct
  | stopped rest => rest.Distinct
  | file name _ rest => name ∉ rest.names ∧ rest.Distinct
  | dir name _ contents rest => name ∉ rest.names ∧ contents.Distinct ∧ rest.Distinct

/-- Every entry has a counterpart of its kind and with its bytes. -/
def Complete : Listing → Children → Prop
  | done, _ => True
  | skipped rest, here => rest.Complete here
  | stopped rest, here => rest.Complete here
  | file name r rest, here => here name = some (.file r.source.content) ∧ rest.Complete here
  | dir name _ contents rest, here => HoldsDir contents.Complete (here name) ∧ rest.Complete here

/-- The loop comes to a file, or to a directory that `lstat` fails for. -/
def Reported : Listing → Prop
  | done => False
  | skipped rest => rest.Reported
  | stopped _ => False
  | file _ _ _ => True
  | dir _ r _ rest => r.lstat = false ∨ rest.Reported

def Arrives : Listing → Children → Prop
  | done, _ => True
  | skipped rest, here => rest.Arrives here
  | stopped rest, here => rest.Complete here
  | file name r rest, here => (file name r rest).Complete here
  | dir name r contents rest, here => r.Arrives contents.Complete contents.Arrives (here name) ∧
      (r.lstat = false → rest.Complete here) ∧ (r.lstat → rest.Arrives here)

def NoEntry : Listing → Prop
  | done => True
  | skipped rest => rest.NoEntry
  | stopped rest => rest.NoEntry
  | file _ _ _ => False
  | dir _ _ _ _ => False

/-- There are only directories at any depth, and each is made and gone through to its end. -/
def Made : Listing → Prop
  | done => True
  | skipped rest => rest.Made
  | stopped rest => rest.NoEntry
  | file _ _ _ => False
  | dir _ r contents rest => (r.lstat ∧ r.getAttr ∧ r.mkdir) ∧
      (if r.openDir then contents.Made else contents.NoEntry) ∧ rest.Made

end Listing

lemma failure_ne : EXIT_FAILURE ≠ EXIT_SUCCESS := by decide

lemma FileReplies.copy_fails (r : FileReplies) (old : Option Node) :
    r.copy old = (EXIT_FAILURE, old) := by
  rw [copy]
  cases r.lstat with
  | none => rfl
  | some mode =>
    simp only [S_ISLNK, Bool.false_eq_true, if_false]
    rw [copyContents]
    cases r.getAttr with
    | none => rfl
    | some mode =>
      have hlink : mode &&& S_IFLNK = S_IFLNK := Nat.and_zero mode
      have hread : readlink ≤ 0 := by decide
      simp only [if_pos hlink, if_pos hread]

lemma inDir_holds {P : Children → Prop} {inner : Children → ℤ × Children} {old : Option Node} :
    HoldsDir P (inDir inner old).2 ↔ HoldsDir (fun c => P (inner c).2) old := by
  cases old with
  | none => simp [HoldsDir, inDir]
  | some node => cases node <;> simp [HoldsDir, inDir]

namespace DirReplies

variable {r : DirReplies} {inner : Children → ℤ × Children} {old : Option Node}

lemma enters_nothing {complete arrives : Children → Prop} {noEntry made : Prop}
    (hcomplete : complete (fun _ => none) ↔ noEntry) (harrives : arrives (fun _ => none) ↔ made) :
    r.Enters complete arrives none ↔ r.mkdir ∧ if r.openDir then made else noEntry := by
  rw [Enters, Unix.mkdir, ← hcomplete, ← harrives]
  cases r.mkdir <;> cases r.openDir <;> simp [HoldsDir]

lemma copy_success : (r.copy inner old).1 = EXIT_SUCCESS ↔ ¬r.lstat = false := by
  rw [copy]
  cases r.lstat <;> simp [EXIT_FAILURE, EXIT_SUCCESS]

variable {complete arrives : Children → Prop} (hinner : ∀ c, complete (inner c).2 ↔ arrives c)

include hinner

lemma enterDir_enters (h : r.getAttr) :
    HoldsDir complete (enterDir r inner old).2 ↔ r.Enters complete arrives old := by
  rw [enterDir, if_pos h, Enters]
  split
  · rw [inDir_holds]
    simp only [hinner]
  · exact Iff.rfl

lemma copy_arrives :
    HoldsDir complete (r.copy inner old).2 ↔ r.Arrives complete arrives old := by
  rw [copy, Arrives]
  by_cases hstat : r.lstat
  · by_cases hattr : r.getAttr
    · rw [if_pos hstat, if_pos ⟨hstat, hattr⟩]
      exact enterDir_enters hinner hattr
    · rw [if_pos hstat, if_neg fun h => hattr h.2, enterDir, if_neg hattr]
  · rw [if_neg hstat, if_neg fun h => hstat h.1]

end DirReplies

section

variable {name : Bytes} {copy : Option Node → ℤ × Option Node} {rest : Children → ℤ × Children}
  {here : Children}

lemma copyEntry_success :
    (copyEntry name copy rest here).1 = EXIT_SUCCESS ↔ (copy (here name)).1 = EXIT_SUCCESS ∧
      (rest (Function.update here name (copy (here name)).2)).1 = EXIT_SUCCESS := by
  rw [copyEntry]
  by_cases h : (copy (here name)).1 = EXIT_SUCCESS
  · simp only [h, if_true, true_and]
  · simp only [h, if_false, false_and]

lemma copyEntry_other {other : Bytes} (hne : other ≠ name)
    (hrest : ∀ m, (rest m).2 other = m other) :
    (copyEntry name copy rest here).2 other = here other := by
  have hthere := Function.update_of_ne hne (copy (here name)).2 here
  rw [copyEntry]
  split
  · rw [hrest, hthere]
  · exact hthere

lemma copyEntry_complete {good : Option Node → Prop} {complete arrives : Children → Prop}
    {reports : Prop} (hcopy : (copy (here name)).1 = EXIT_SUCCESS ↔ ¬reports)
    (hname : ∀ m, (rest m).2 name = m name)
    (hcomplete : ∀ m node, complete (Function.update m name node) ↔ complete m)
    (harrives : ∀ m node, arrives (Function.update m name node) ↔ arrives m)
    (hrest : ∀ m, complete (rest m).2 ↔ arrives m) :
    (good ((copyEntry name copy rest here).2 name) ∧ complete (copyEntry name copy rest here).2) ↔
      good (copy (here name)).2 ∧ (reports → complete here) ∧ (¬reports → arrives here) := by
  rw [copyEntry]
  by_cases h : reports
  · have hstop : ¬(copy (here name)).1 = EXIT_SUCCESS := fun hok => hcopy.mp hok h
    simp only [if_neg hstop, Function.update_self, hcomplete, h, not_true, false_implies, and_true,
      true_implies]
  · simp only [if_pos (hcopy.mpr h), hname, Function.update_self, hrest, harrives, h, not_false_eq_true,
      false_implies, true_and, true_implies]

end

lemma copyEntry_file (r : FileReplies) (name : Bytes) (rest : Children → ℤ × Children)
    (here : Children) : copyEntry name r.copy rest here = (EXIT_FAILURE, here) := by
  rw [copyEntry, r.copy_fails, if_neg failure_ne, Function.update_eq_self]

namespace Listing

lemma complete_congr {l : Listing} {m m' : Children} (h : ∀ name ∈ l.names, m name = m' name) :
    l.Complete m ↔ l.Complete m' := by
  induction l with
  | done => exact Iff.rfl
  | skipped rest ih => exact ih h
  | stopped rest ih => exact ih h
  | file name r rest ih =>
    rw [Complete, Complete, h name (.inl rfl), ih fun other hother => h other (.inr hother)]
  | dir name r contents rest _ ih =>
    rw [Complete, Complete, h name (.inl rfl), ih fun other hother => h other (.inr hother)]

lemma arrives_congr {l : Listing} {m m' : Children} (h : ∀ name ∈ l.names, m name = m' name) :
    l.Arrives m ↔ l.Arrives m' := by
  induction l with
  | done => exact Iff.rfl
  | skipped rest ih => exact ih h
  | stopped rest _ => exact complete_congr h
  | file name r rest _ => exact complete_congr h
  | dir name r contents rest _ ih =>
    have hrest : ∀ other ∈ rest.names, m other = m' other := fun other hother => h other (.inr hother)
    rw [Arrives, Arrives, h name (.inl rfl), ih hrest, complete_congr hrest]

lemma update_names {l : Listing} {name : Bytes} (h : name ∉ l.names) (m : Children)
    (node : Option Node) : ∀ other ∈ l.names, Function.update m name node other = m other := by
  intro other hother
  apply Function.update_of_ne
  rintro rfl
  exact h hother

lemma complete_nothing (l : Listing) : l.Complete (fun _ => none) ↔ l.NoEntry := by
  induction l with
  | done => exact Iff.rfl
  | skipped rest ih => exact ih
  | stopped rest ih => exact ih
  | file name r rest _ => simp [Complete, NoEntry]
  | dir name r contents rest _ _ => simp [Complete, NoEntry, HoldsDir]

lemma arrives_nothing (l : Listing) : l.Arrives (fun _ => none) ↔ l.Made := by
  induction l with
  | done => exact Iff.rfl
  | skipped rest ih => exact ih
  | stopped rest _ => exact rest.complete_nothing
  | file name r rest _ => simp [Arrives, Complete, Made]
  | dir name r contents rest ihContents ih =>
    rw [Arrives, Made, ih, DirReplies.Arrives, rest.complete_nothing]
    cases r.lstat with
    | false => simp [HoldsDir]
    | true =>
      cases r.getAttr with
      | false => simp [HoldsDir]
      | true => rw [DirReplies.enters_nothing contents.complete_nothing ihContents]; simp [and_assoc]

end Listing

lemma traverse_success (l : Listing) (here : Children) :
    (traverse l here).1 = EXIT_SUCCESS ↔ ¬l.Reported := by
  induction l generalizing here with
  | done => exact iff_of_true rfl id
  | skipped rest ih => exact ih here
  | stopped rest _ => exact iff_of_true rfl id
  | file name r rest _ =>
    rw [traverse, copyEntry_file]
    exact iff_of_false failure_ne fun h => h trivial
  | dir name r contents rest _ ih =>
    rw [traverse, copyEntry_success, r.copy_success, ih, Listing.Reported, not_or]

lemma traverse_other {l : Listing} {other : Bytes} (h : other ∉ l.names) (here : Children) :
    (traverse l here).2 other = here other := by
  induction l generalizing here with
  | done => rfl
  | skipped rest ih => exact ih h here
  | stopped rest _ => rfl
  | file name r rest _ => rw [traverse, copyEntry_file]
  | dir name r contents rest _ ih =>
    exact copyEntry_other (fun hname => h (.inl hname)) (ih fun hrest => h (.inr hrest))

lemma traverse_complete {l : Listing} (h : l.Distinct) (here : Children) :
    l.Complete (traverse l here).2 ↔ l.Arrives here := by
  induction l generalizing here with
  | done => exact Iff.rfl
  | skipped rest ih => exact ih h here
  | stopped rest _ => exact Iff.rfl
  | file name r rest _ => rw [traverse, copyEntry_file, Listing.Arrives]
  | dir name r contents rest ihContents ih =>
    rw [traverse, Listing.Complete, Listing.Arrives, ← r.copy_arrives (ihContents h.2.1)]
    rw [copyEntry_complete r.copy_success (traverse_other h.1)
      (fun m node => Listing.complete_congr (Listing.update_names h.1 m node))
      (fun m node => Listing.arrives_congr (Listing.update_names h.1 m node)) (ih h.2.2),
      Bool.not_eq_false]

structure Tree where
  listing : Listing
  distinct : listing.Distinct

/-- What makes the result a failure: the directory itself, or one of its own names. -/
def RootReports (r : DirReplies) (l : Listing) : Prop :=
  r.getAttr = false ∨ (r.openDir ∧ l.Reported)

lemma inDir_success {inner : Children → ℤ × Children} {reported : Prop}
    (h : ∀ c, (inner c).1 = EXIT_SUCCESS ↔ ¬reported) (old : Option Node) :
    (inDir inner old).1 = EXIT_SUCCESS ↔ ¬reported := by
  cases old with
  | none => exact h _
  | some node => cases node <;> exact h _

lemma traverseDirs_success (r : DirReplies) (l : Listing) (dest : Option Node) :
    (traverseDirs r l dest).1 = EXIT_SUCCESS ↔ ¬RootReports r l := by
  rw [traverseDirs, enterDir, RootReports]
  cases r.getAttr with
  | false => simp [EXIT_FAILURE, EXIT_SUCCESS]
  | true =>
    cases r.openDir with
    | false => simp
    | true => simpa using inDir_success (traverse_success l) (Unix.mkdir r.mkdir dest)

lemma traverseDirs_complete {l : Listing} (hl : l.Distinct) (r : DirReplies) (dest : Option Node) :
    ((traverseDirs r l dest).1 = EXIT_SUCCESS → HoldsDir l.Complete (traverseDirs r l dest).2) ↔
      RootReports r l ∨ r.Enters l.Complete l.Arrives dest := by
  rw [traverseDirs_success]
  by_cases hreports : RootReports r l
  · exact iff_of_true (fun h => absurd hreports h) (.inl hreports)
  · have hattr : r.getAttr := by
      by_contra h
      exact hreports (.inl (Bool.eq_false_iff.mpr h))
    simp only [hreports, not_false_eq_true, true_implies, false_or]
    exact DirReplies.enterDir_enters (traverse_complete hl) hattr

namespace ExportReplies

variable (r : ExportReplies)

def Refuses : Prop := r.initRootInfo = false ∨ (r.checkDir = false ∧ r.userAllowMkdir = false)

def destDir (dest : Option Node) : Option Node := if r.checkDir then dest else Unix.mkdir true dest

lemma cmdExport_eq {r : ExportReplies} (h : ¬r.Refuses) (l : Listing) (dest : Option Node) :
    cmdExport r l dest = traverseDirs r.root l (r.destDir dest) := by
  rw [Refuses, not_or, not_and] at h
  rw [cmdExport, if_pos (Bool.eq_true_of_not_eq_false h.1), destDir]
  by_cases hcheck : r.checkDir
  · rw [if_pos hcheck, if_pos hcheck]
  · have hallow := h.2 (Bool.eq_false_iff.mpr hcheck)
    rw [if_neg hcheck, if_neg hcheck, if_pos (Bool.eq_true_of_not_eq_false hallow)]

lemma cmdExport_refused {r : ExportReplies} (h : r.Refuses) (l : Listing) (dest : Option Node) :
    (cmdExport r l dest).1 ≠ EXIT_SUCCESS := by
  rw [cmdExport]
  obtain hroot | ⟨hcheck, hallow⟩ := h
  · simp [hroot, EXIT_FAILURE, EXIT_SUCCESS]
  · simp [hcheck, hallow, EXIT_FAILURE, EXIT_SUCCESS]

end ExportReplies

/-- Success means a complete copy just when a name of the root is reported or everything arrives;
where nothing was before, only directories do. -/
theorem export_complete (t : Tree) (dest : Option Node) :
    (∀ r : DirReplies,
      ((traverseDirs r t.listing dest).1 = EXIT_SUCCESS →
          HoldsDir t.listing.Complete (traverseDirs r t.listing dest).2) ↔
        RootReports r t.listing ∨ r.Enters t.listing.Complete t.listing.Arrives dest) ∧
    (∀ r : ExportReplies,
      ((cmdExport r t.listing dest).1 = EXIT_SUCCESS →
          HoldsDir t.listing.Complete (cmdExport r t.listing dest).2) ↔
        r.Refuses ∨ RootReports r.root t.listing ∨
          r.root.Enters t.listing.Complete t.listing.Arrives (r.destDir dest)) ∧
    ∀ r : DirReplies,
      ((traverseDirs r t.listing none).1 = EXIT_SUCCESS →
          HoldsDir t.listing.Complete (traverseDirs r t.listing none).2) ↔
        RootReports r t.listing ∨
          (r.mkdir ∧ if r.openDir then t.listing.Made else t.listing.NoEntry) := by
  refine ⟨fun r => traverseDirs_complete t.distinct r dest, fun r => ?_, fun r => ?_⟩
  · by_cases h : r.Refuses
    · exact iff_of_true (fun hok => absurd hok (ExportReplies.cmdExport_refused h _ dest)) (.inl h)
    · rw [ExportReplies.cmdExport_eq h, traverseDirs_complete t.distinct]
      simp only [h, false_or]
  · rw [traverseDirs_complete t.distinct,
      DirReplies.enters_nothing t.listing.complete_nothing t.listing.arrives_nothing]

def allGood : DirReplies := ⟨true, true, true, true⟩

def threeByteFile : FileReplies := ⟨some 33188, some 33188, true, ⟨0, 0⟩, true, threeBytes, fun _ => 3⟩

def fileBelow : Tree where
  listing := .dir [100] allGood (.file [102] threeByteFile .done) .done
  distinct := by simp [Listing.Distinct, Listing.names]

def diskFull : Tree where
  listing := .dir [100] ⟨true, true, false, true⟩ .done .done
  distinct := by simp [Listing.Distinct, Listing.names]

theorem not_export_complete :
    ((traverseDirs allGood fileBelow.listing none).1 = EXIT_SUCCESS ∧
      ¬HoldsDir fileBelow.listing.Complete (traverseDirs allGood fileBelow.listing none).2) ∧
    (traverseDirs allGood diskFull.listing none).1 = EXIT_SUCCESS ∧
      ¬HoldsDir diskFull.listing.Complete (traverseDirs allGood diskFull.listing none).2 := by
  refine ⟨⟨rfl, ?_⟩, rfl, ?_⟩
  · rintro ⟨c, hc, hdir, -⟩
    cases hc
    obtain ⟨c, hc, hfile, -⟩ := hdir
    cases hc
    cases hfile
  · rintro ⟨c, hc, hdir, -⟩
    cases hc
    obtain ⟨c, hc, -⟩ := hdir
    cases hc

end EncFS.EncfsCtl
