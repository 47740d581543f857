import EncFS.Fuse4Win.LockTable

set_option autoImplicit false

namespace EncFS.Fuse4Win

open Function

namespace ImplFileLocks

variable {T : ImplFileLocks}

def getName (T : ImplFileLocks) (file : ℕ) : Option Bytes :=
  (T.file_lock file).map fun lock => (T.object lock).name_

structure Keyed (T : ImplFileLocks) : Prop where
  entry : ∀ {name lock}, T.file_locks name = some lock →
    (T.object lock).name_ = name ∧ T.live lock = true ∧ (T.object lock).first ≠ []
  listed : ∀ {file lock}, file ∈ (T.object lock).first.map Prod.fst ↔ T.file_lock file = some lock
  filed : ∀ {file lock}, T.file_lock file = some lock →
    T.file_locks (T.object lock).name_ = some lock

namespace Keyed

lemma empty : Keyed empty where
  entry h := by cases h
  listed := by simp [ImplFileLocks.empty]
  filed h := by cases h

variable (hT : Keyed T)
include hT

lemma live {file lock : ℕ} (h : T.file_lock file = some lock) : T.live lock = true :=
  (hT.entry (hT.filed h)).2.1

lemma file_locks_eq_none {name : Bytes} :
    T.file_locks name = none ↔ ∀ file, T.getName file ≠ some name := by
  constructor
  · intro hnone file hname
    obtain ⟨lock, hlock, rfl⟩ := Option.map_eq_some_iff.mp hname
    rw [hT.filed hlock] at hnone
    cases hnone
  · intro hnames
    cases hname : T.file_locks name with
    | none => rfl
    | some lock =>
      obtain ⟨rfl, -, hne⟩ := hT.entry hname
      obtain ⟨i, hi⟩ := List.exists_mem_of_ne_nil _ hne
      have hlock := hT.listed.mp (List.mem_map_of_mem hi)
      refine absurd ?_ (hnames i.1)
      rw [getName, hlock]
      rfl

section Open

variable {file new : ℕ} (hfile : T.file_lock file = none)
include hfile

lemma pickLock_new {name : Bytes} (hname : T.file_locks name = none) (hnew : T.live new = false)
    (handle : ImplFileHandle) :
    Keyed (T.pickLock name file handle new).2 ∧
      (T.pickLock name file handle new).2.getName = update T.getName file (some name) := by
  have hother {f lock : ℕ} (h : T.file_lock f = some lock) : lock ≠ new := by
    rintro rfl
    rw [hT.live h] at hnew
    cases hnew
  simp only [pickLock, hname]
  refine ⟨⟨fun {name' lock} h => ?_, fun {f lock} => ?_, fun {f lock} h => ?_⟩, ?_⟩
  · dsimp only at h ⊢
    by_cases hsame : name' = name
    · subst hsame
      rw [update_self] at h
      obtain rfl := Option.some.inj h
      rw [update_self, update_self]
      exact ⟨rfl, rfl, List.cons_ne_nil _ _⟩
    · rw [update_of_ne hsame] at h
      have hne : lock ≠ new := by
        rintro rfl
        rw [(hT.entry h).2.1] at hnew
        cases hnew
      rw [update_of_ne hne, update_of_ne hne]
      exact hT.entry h
  · dsimp only
    by_cases hf : f = file
    · subst hf
      rw [update_self]
      by_cases hl : lock = new
      · simp [hl, ImplFileLock.addFileUnlocked]
      · rw [update_of_ne hl, hT.listed, hfile]
        simp [Ne.symm hl]
    · rw [update_of_ne hf]
      by_cases hl : lock = new
      · subst hl
        have hnone : T.file_lock f ≠ some lock := fun h => hother h rfl
        simp [ImplFileLock.addFileUnlocked, hf, hnone]
      · rw [update_of_ne hl, hT.listed]
  · dsimp only at h ⊢
    by_cases hf : f = file
    · subst hf
      rw [update_self] at h
      obtain rfl := Option.some.inj h
      rw [update_self]
      exact update_self _ _ _
    · rw [update_of_ne hf] at h
      rw [update_of_ne (hother h), update_of_ne]
      · exact hT.filed h
      · intro heq
        rw [← heq, hT.filed h] at hname
        cases hname
  · funext f
    by_cases hf : f = file
    · subst hf
      simp [getName, ImplFileLock.addFileUnlocked]
    · rw [update_of_ne hf]
      simp only [getName, update_of_ne hf]
      cases hlock : T.file_lock f with
      | none => rfl
      | some lock => simp [update_of_ne (hother hlock)]

variable (new) in
lemma admitFile_old {name : Bytes} {lock : ℕ} (hname : T.file_locks name = some lock)
    (handle : ImplFileHandle) (access_mode : UInt32) :
    let (res, T') := (T.pickLock name file handle new).2.admitFile lock file handle access_mode
    Keyed T' ∧ T'.getName = if res = 0 then update T.getName file (some name) else T.getName := by
  obtain ⟨hlname, hlive, hne⟩ := hT.entry hname
  simp only [pickLock, hname, admitFile]
  split
  · have hback : update (update T.file_lock file (some lock)) file none = T.file_lock := by
      rw [update_idem, ← hfile, update_eq_self]
    have hres : -EACCES ≠ 0 := by decide
    rw [hback, if_neg hres]
    exact ⟨hT, rfl⟩
  · rw [if_pos rfl]
    have hobject (l : ℕ) : (update T.object lock ((T.object lock).addFileUnlocked file handle) l).name_ =
        (T.object l).name_ := by
      by_cases hl : l = lock
      · subst hl
        rw [update_self]
        rfl
      · rw [update_of_ne hl]
    refine ⟨⟨fun {name' l} h => ?_, fun {f l} => ?_, fun {f l} h => ?_⟩, ?_⟩
    · dsimp only at h ⊢
      obtain ⟨hname', hlive', hne'⟩ := hT.entry h
      refine ⟨(hobject l).trans hname', hlive', ?_⟩
      by_cases hl : l = lock
      · subst hl
        rw [update_self]
        exact List.cons_ne_nil _ _
      · rwa [update_of_ne hl]
    · dsimp only
      by_cases hl : l = lock
      · subst hl
        rw [update_self]
        by_cases hf : f = file
        · simp [hf, ImplFileLock.addFileUnlocked]
        · rw [update_of_ne hf, ← hT.listed]
          simp [ImplFileLock.addFileUnlocked, hf]
      · rw [update_of_ne hl, hT.listed]
        by_cases hf : f = file
        · simp [hf, hfile, Ne.symm hl]
        · rw [update_of_ne hf]
    · dsimp only at h ⊢
      rw [hobject]
      by_cases hf : f = file
      · subst hf
        rw [update_self] at h
        obtain rfl := Option.some.inj h
        rw [hlname]
        exact hname
      · rw [update_of_ne hf] at h
        exact hT.filed h
    · funext f
      by_cases hf : f = file
      · subst hf
        simp only [getName, update_self, Option.map_some, hobject, hlname]
      · simp only [getName, update_of_ne hf, hobject]

lemma getFile_spec (name : Bytes) (is_dir : Bool) (access_mode shared_mode : UInt32)
    (hnew : T.live new = false) :
    let (res, T') := T.getFile name is_dir access_mode shared_mode file new
    Keyed T' ∧ T'.getName = if res = 0 then update T.getName file (some name) else T.getName := by
  simp only [getFile]
  cases hname : T.file_locks name with
  | none =>
    have hpick := hT.pickLock_new hfile hname hnew ⟨is_dir, shared_mode, .empty⟩
    simp only [pickLock, hname] at hpick ⊢
    exact hpick
  | some lock =>
    have hadmit := hT.admitFile_old new hfile hname ⟨is_dir, shared_mode, .empty⟩ access_mode
    simp only [pickLock, hname] at hadmit ⊢
    exact hadmit

end Open

section Close

variable {file lock : ℕ} (hlock : T.file_lock file = some lock)
include hlock

omit hT hlock in
lemma unlinkFile_name (l : ℕ) : ((T.unlinkFile lock file).2.object l).name_ = (T.object l).name_ := by
  simp only [unlinkFile]
  by_cases hl : l = lock
  · subst hl
    rw [update_self]
    rfl
  · rw [update_of_ne hl]

lemma unlinkFile_listed {f l : ℕ} : f ∈ ((T.unlinkFile lock file).2.object l).first.map Prod.fst ↔
    (T.unlinkFile lock file).2.file_lock f = some l := by
  simp only [unlinkFile]
  by_cases hf : f = file
  · subst hf
    rw [update_self]
    by_cases hl : l = lock
    · subst hl
      simp [ImplFileLock.unlinkFile]
    · rw [update_of_ne hl, hT.listed, hlock]
      simp [Ne.symm hl]
  · rw [update_of_ne hf, ← hT.listed]
    by_cases hl : l = lock
    · subst hl
      rw [update_self]
      simp [ImplFileLock.unlinkFile, hf]
    · rw [update_of_ne hl]

omit hT hlock in
lemma unlinkFile_getName : (T.unlinkFile lock file).2.getName = update T.getName file none := by
  funext f
  by_cases hf : f = file
  · subst hf
    simp [getName, unlinkFile]
  · have hsame : (T.unlinkFile lock file).2.file_lock f = T.file_lock f := update_of_ne hf _ _
    rw [update_of_ne hf, getName, getName, hsame]
    cases T.file_lock f with
    | none => rfl
    | some l => exact congrArg some (unlinkFile_name l)

lemma unlinkFile_keyed (hne : ((T.unlinkFile lock file).2.object lock).first ≠ []) :
    Keyed (T.unlinkFile lock file).2 where
  entry {name l} h := by
    obtain ⟨hname, hlive, hne'⟩ := hT.entry h
    refine ⟨(unlinkFile_name l).trans hname, hlive, ?_⟩
    by_cases hl : l = lock
    · rwa [hl]
    · have hsame : (T.unlinkFile lock file).2.object l = T.object l := update_of_ne hl _ _
      rwa [hsame]
  listed := hT.unlinkFile_listed hlock
  filed {f l} h := by
    have hf : f ≠ file := by
      rintro rfl
      simp [unlinkFile] at h
    rw [unlinkFile_name]
    exact hT.filed ((update_of_ne hf _ _).symm.trans h)

lemma removeFile_keyed (hnil : ((T.unlinkFile lock file).2.object lock).first = []) :
    let T' := (T.unlinkFile lock file).2
    Keyed (T'.removeFile (T'.object lock).name_) ∧
      (T'.removeFile (T'.object lock).name_).getName = T'.getName := by
  have hentry : (T.unlinkFile lock file).2.file_locks ((T.unlinkFile lock file).2.object lock).name_ =
      some lock := by
    rw [unlinkFile_name]
    exact hT.filed hlock
  simp only [removeFile, hentry, hnil, List.isEmpty_nil, if_true]
  refine ⟨⟨fun {name l} h => ?_, hT.unlinkFile_listed hlock, fun {f l} h => ?_⟩, rfl⟩
  · dsimp only at h ⊢
    rw [unlinkFile_name] at h
    by_cases hname : name = (T.object lock).name_
    · rw [hname, update_self] at h
      cases h
    · rw [update_of_ne hname] at h
      obtain ⟨hlname, hlive, hne⟩ := hT.entry h
      have hl : l ≠ lock := by
        rintro rfl
        exact hname hlname.symm
      have hsame : (T.unlinkFile lock file).2.object l = T.object l := update_of_ne hl _ _
      rw [hsame, update_of_ne hl]
      exact ⟨hlname, hlive, hne⟩
  · dsimp only at h ⊢
    have hl : l ≠ lock := by
      rintro rfl
      have hmem := (hT.unlinkFile_listed hlock).mpr h
      rw [hnil] at hmem
      cases hmem
    have hf : f ≠ file := by
      rintro rfl
      simp [unlinkFile] at h
    have hfiled := hT.filed ((update_of_ne hf _ _).symm.trans h)
    rw [unlinkFile_name, unlinkFile_name, update_of_ne]
    · exact hfiled
    · intro heq
      rw [heq, hT.filed hlock] at hfiled
      exact hl (Option.some.inj hfiled).symm

end Close

lemma destroyFile_spec (file : ℕ) :
    Keyed (T.destroyFile file) ∧ (T.destroyFile file).getName = update T.getName file none := by
  cases hlock : T.file_lock file with
  | none =>
    have hname : T.getName file = none := by
      rw [getName, hlock]
      rfl
    simp only [destroyFile, hlock]
    exact ⟨hT, by rw [← hname, update_eq_self]⟩
  | some lock =>
    have hempty : (T.unlinkFile lock file).1 =
        ((T.unlinkFile lock file).2.object lock).first.isEmpty := by
      simp only [unlinkFile, update_self]
    simp only [destroyFile, hlock]
    cases hres : T.unlinkFile lock file with
    | mk emptied T' =>
      have hkeyed := hT.unlinkFile_keyed hlock
      have hremove := hT.removeFile_keyed hlock
      have hname : (T.unlinkFile lock file).2.getName = update T.getName file none :=
        unlinkFile_getName
      rw [hres] at hempty hkeyed hremove hname
      cases emptied with
      | false => exact ⟨hkeyed (List.isEmpty_eq_false_iff.mp hempty.symm), hname⟩
      | true =>
        obtain ⟨hkeyed', hname'⟩ := hremove (List.isEmpty_iff.mp hempty.symm)
        exact ⟨hkeyed', hname'.trans hname⟩

lemma renamedFile_spec {name new_name : Bytes}
    (hfree : T.file_locks name = none ∨ name = new_name ∨ T.file_locks new_name = none) :
    Keyed (T.renamedFile name new_name) ∧ ∀ file, (T.renamedFile name new_name).getName file =
      if T.getName file = some name then some new_name else T.getName file := by
  rw [renamedFile]
  split
  · rename_i hsame
    refine ⟨hT, fun file => ?_⟩
    split
    · rename_i h
      rw [h, hsame]
    · rfl
  · rename_i hdiff
    cases hname : T.file_locks name with
    | none =>
      exact ⟨hT, fun file => (if_neg (hT.file_locks_eq_none.mp hname file)).symm⟩
    | some lock =>
      have hfree : T.file_locks new_name = none := by
        rcases hfree with h | h | h
        · rw [hname] at h
          cases h
        · exact absurd h hdiff
        · exact h
      obtain ⟨hlname, hlive, hne⟩ := hT.entry hname
      have hfirst (l : ℕ) : (update T.object lock { T.object lock with name_ := new_name } l).first =
          (T.object l).first := by
        by_cases hl : l = lock
        · subst hl
          rw [update_self]
        · rw [update_of_ne hl]
      dsimp only
      refine ⟨⟨fun {name' l} h => ?_, fun {f l} => ?_, fun {f l} h => ?_⟩, fun f => ?_⟩
      · dsimp only at h ⊢
        rw [hfirst]
        by_cases hold : name' = name
        · rw [hold, update_self] at h
          cases h
        · rw [update_of_ne hold] at h
          by_cases hnew : name' = new_name
          · rw [hnew, update_self] at h
            obtain rfl := Option.some.inj h
            rw [update_self]
            exact ⟨hnew.symm, hlive, hne⟩
          · rw [update_of_ne hnew] at h
            obtain ⟨hlname', hrest⟩ := hT.entry h
            have hl : l ≠ lock := by
              rintro rfl
              exact hold (hlname'.symm.trans hlname)
            rw [update_of_ne hl]
            exact ⟨hlname', hrest⟩
      · dsimp only
        rw [hfirst, hT.listed]
      · dsimp only at h ⊢
        by_cases hl : l = lock
        · subst hl
          rw [update_self, update_of_ne (Ne.symm hdiff)]
          exact update_self _ _ _
        · have hfiled := hT.filed h
          rw [update_of_ne hl, update_of_ne, update_of_ne]
          · exact hfiled
          · intro heq
            rw [heq, hfree] at hfiled
            cases hfiled
          · intro heq
            rw [heq, hname] at hfiled
            exact hl (Option.some.inj hfiled).symm
      · cases hlock : T.file_lock f with
        | none => simp [getName, hlock]
        | some l =>
          have hfiled := hT.filed hlock
          by_cases hl : l = lock
          · subst hl
            simp [getName, hlock, hlname]
          · have hne' : (T.object l).name_ ≠ name := by
              intro heq
              rw [heq, hname] at hfiled
              exact hl (Option.some.inj hfiled).symm
            simp [getName, hlock, update_of_ne hl, hne']

end Keyed

end ImplFileLocks

end EncFS.Fuse4Win
