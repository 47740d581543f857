import EncFS.Fuse4Win.ShareModes
import EncFS.FileIO

set_option autoImplicit false

namespace EncFS.Fuse4Win

open Function

def FILE_READ_ATTRIBUTES : UInt32 := 0x80
def SYNCHRONIZE : UInt32 := 0x100000

def ACCESS_READ : UInt32 :=
  STANDARD_RIGHTS_EXECUTE ||| STANDARD_RIGHTS_READ ||| GENERIC_READ ||| GENERIC_EXECUTE |||
    FILE_GENERIC_EXECUTE ||| FILE_GENERIC_READ ||| READ_CONTROL ||| FILE_EXECUTE |||
    FILE_LIST_DIRECTORY ||| FILE_READ_DATA ||| FILE_READ_EA

def ACCESS_WRITE : UInt32 :=
  STANDARD_RIGHTS_WRITE ||| GENERIC_WRITE ||| FILE_GENERIC_WRITE ||| WRITE_DAC ||| WRITE_OWNER |||
    FILE_APPEND_DATA ||| FILE_WRITE_ATTRIBUTES ||| FILE_WRITE_DATA ||| FILE_WRITE_EA |||
    FILE_ADD_FILE ||| FILE_ADD_SUBDIRECTORY ||| FILE_APPEND_DATA

def convertFlags (Flags : UInt32) : ℕ :=
  let read : Bool := Flags &&& ACCESS_READ ≠ 0
  let write : Bool := Flags &&& ACCESS_WRITE ≠ 0
  if read && !write then O_RDONLY
  else if !read && write then O_WRONLY
  else O_RDWR

def READ_RIGHTS : UInt32 :=
  FILE_READ_DATA ||| FILE_READ_EA ||| FILE_READ_ATTRIBUTES ||| FILE_EXECUTE ||| READ_CONTROL |||
    SYNCHRONIZE ||| GENERIC_READ ||| GENERIC_EXECUTE

structure Reading (access_mode : UInt32) : Prop where
  rights : access_mode &&& READ_RIGHTS = access_mode
  reads : access_mode &&& (FILE_READ_DATA ||| GENERIC_READ) ≠ 0

instance (access_mode : UInt32) : Decidable (Reading access_mode) :=
  decidable_of_iff (_ ∧ _) ⟨fun h => ⟨h.1, h.2⟩, fun h => ⟨h.rights, h.reads⟩⟩

def SHARED_RIGHTS : UInt32 := READ_CONTROL ||| SYNCHRONIZE

def Writes (flags : ℕ) : Prop := flags = O_WRONLY ∨ flags = O_RDWR

lemma and_ne_zero_of_and {x y z : UInt32} (hx : x &&& (y &&& z) ≠ 0) : x &&& z ≠ 0 := by
  intro h
  apply hx
  rw [UInt32.and_comm y, ← UInt32.and_assoc, h, UInt32.zero_and]

lemma Reading.and (access_mode : UInt32) (h : Reading access_mode) (rights : UInt32) :
    access_mode &&& rights = access_mode &&& (READ_RIGHTS &&& rights) := by
  rw [← UInt32.and_assoc, h.rights]

lemma Reading.and_write {access_mode : UInt32} (h : Reading access_mode) :
    access_mode &&& ACCESS_WRITE = access_mode &&& SHARED_RIGHTS := by
  have hrights : READ_RIGHTS &&& ACCESS_WRITE = SHARED_RIGHTS := by decide
  rw [Reading.and _ h, hrights]

lemma Reading.and_read {access_mode : UInt32} (h : Reading access_mode) :
    access_mode &&& ACCESS_READ ≠ 0 := by
  have hrights : ACCESS_READ &&& (FILE_READ_DATA ||| GENERIC_READ) =
      FILE_READ_DATA ||| GENERIC_READ := by decide
  have hreads := h.reads
  rw [← hrights, UInt32.and_comm ACCESS_READ] at hreads
  exact and_ne_zero_of_and hreads

lemma Reading.and_delete {access_mode : UInt32} (h : Reading access_mode) :
    access_mode &&& (DELETE ||| FILE_DELETE_CHILD) = 0 := by
  have hrights : READ_RIGHTS &&& (DELETE ||| FILE_DELETE_CHILD) = 0 := by decide
  rw [Reading.and _ h, hrights, UInt32.and_zero]

lemma Reading.convertFlags {access_mode : UInt32} (h : Reading access_mode) :
    convertFlags access_mode = if access_mode &&& SHARED_RIGHTS = 0 then O_RDONLY else O_RDWR := by
  simp only [Fuse4Win.convertFlags, h.and_write, ne_eq, h.and_read, not_false_eq_true,
    decide_true, Bool.true_and, Bool.not_true, Bool.false_and, Bool.false_eq_true, if_false]
  by_cases hshared : access_mode &&& SHARED_RIGHTS = 0 <;> simp [hshared]

lemma Reading.requiredShare {access_mode : UInt32} (h : Reading access_mode)
    (hshared : access_mode &&& SHARED_RIGHTS = 0) :
    requiredShare access_mode = FILE_SHARE_READ := by
  have hread := h.and_read
  have hwrite := h.and_write.trans hshared
  rw [ACCESS_READ] at hread
  rw [ACCESS_WRITE] at hwrite
  rw [Fuse4Win.requiredShare, if_pos hread, if_neg (not_not.mpr hwrite),
    if_neg (not_not.mpr h.and_delete)]
  decide

lemma writes_iff_requiredShare {access_mode : UInt32}
    (h : access_mode &&& ACCESS_READ ≠ 0 ∨ access_mode &&& ACCESS_WRITE ≠ 0) :
    Writes (convertFlags access_mode) ↔ requiredShare access_mode &&& FILE_SHARE_WRITE ≠ 0 := by
  have hshare : requiredShare access_mode &&& FILE_SHARE_WRITE ≠ 0 ↔
      access_mode &&& ACCESS_WRITE ≠ 0 := by
    rw [requiredShare, ← ACCESS_READ, ← ACCESS_WRITE]
    by_cases hwrite : access_mode &&& ACCESS_WRITE = 0
    · simp only [hwrite, ne_eq, not_true_eq_false, if_false, iff_false, not_not]
      split <;> split <;> decide
    · simp only [hwrite, ne_eq, not_false_eq_true, if_true, iff_true]
      split <;> split <;> decide
  rw [hshare, Writes, convertFlags]
  by_cases hwrite : access_mode &&& ACCESS_WRITE = 0
  · have hread := h.resolve_right (not_not.mpr hwrite)
    simp [hwrite, hread, O_RDONLY, O_WRONLY, O_RDWR]
  · by_cases hread : access_mode &&& ACCESS_READ = 0 <;> simp [hwrite, hread]

def openFlags (T : ImplFileLocks) (name : Bytes) (access_mode shared_mode : UInt32)
    (file new : ℕ) : Option ℕ × ImplFileLocks :=
  match T.getFile name false access_mode shared_mode file new with
  | (res, T) => (if res < 0 then none else some (convertFlags access_mode), T)

structure OpenedWith where
  access_mode : UInt32
  flags : Option ℕ

/-- Opens and closes of the files, where `name` is only opened by readers that share reading. The
opens of `name` are recorded, the last one first. -/
inductive ReadersOnly (name : Bytes) : ImplFileLocks → List OpenedWith → Prop
  | empty : ReadersOnly name .empty []
  | openFile {T : ImplFileLocks} {opens : List OpenedWith} (access_mode shared_mode : UInt32)
      (file new : ℕ) : ReadersOnly name T opens → Reading access_mode →
      Shares shared_mode FILE_SHARE_READ → T.live new = false →
      ReadersOnly name (openFlags T name access_mode shared_mode file new).2
        (⟨access_mode, (openFlags T name access_mode shared_mode file new).1⟩ :: opens)
  | openOther {T : ImplFileLocks} {opens : List OpenedWith} {name' : Bytes} (is_dir : Bool)
      (access_mode shared_mode : UInt32) {file new : ℕ} : ReadersOnly name T opens →
      name' ≠ name → T.live new = false →
      ReadersOnly name (T.getFile name' is_dir access_mode shared_mode file new).2 opens
  | destroyFile {T : ImplFileLocks} {opens : List OpenedWith} (file : ℕ) :
      ReadersOnly name T opens → ReadersOnly name (T.destroyFile file) opens

namespace ImplFileLocks

variable {T : ImplFileLocks} {name : Bytes}

structure Named (T : ImplFileLocks) : Prop where
  live : ∀ name lock, T.file_locks name = some lock → T.live lock = true
  name : ∀ name lock, T.file_locks name = some lock → (T.object lock).name_ = name

def Shared (T : ImplFileLocks) (name : Bytes) : Prop :=
  ∀ lock, T.file_locks name = some lock →
    ∀ i ∈ (T.object lock).first, Shares i.2.shared_mode_ FILE_SHARE_READ

lemma Named.eq_of_lock (h : T.Named) {name name' : Bytes} {lock : ℕ}
    (hname : T.file_locks name = some lock) (hname' : T.file_locks name' = some lock) :
    name = name' :=
  (h.name name lock hname).symm.trans (h.name name' lock hname')

lemma Named.removeFile (h : T.Named) (name : Bytes) : (T.removeFile name).Named := by
  rw [ImplFileLocks.removeFile]
  split
  case h_1 lock hname =>
    split
    case isTrue =>
      have hlock {name' : Bytes} {lock' : ℕ}
          (hlock : update T.file_locks name none name' = some lock') :
          T.file_locks name' = some lock' ∧ lock' ≠ lock := by
        have hne : name' ≠ name := by
          rintro rfl
          rw [update_self] at hlock
          cases hlock
        rw [update_of_ne hne] at hlock
        refine ⟨hlock, ?_⟩
        rintro rfl
        exact hne (h.eq_of_lock hlock hname)
      constructor
      · intro name' lock' hname'
        obtain ⟨hname', hne⟩ := hlock hname'
        dsimp only
        rw [update_of_ne hne]
        exact h.live name' lock' hname'
      · intro name' lock' hname'
        exact h.name name' lock' (hlock hname').1
    case isFalse => exact h
  case h_2 => exact h

lemma Named.getFile (h : T.Named) {name : Bytes} {is_dir : Bool} {access_mode shared_mode : UInt32}
    {file new : ℕ} (hnew : T.live new = false) :
    (T.getFile name is_dir access_mode shared_mode file new).2.Named := by
  rcases hget : T.getFile name is_dir access_mode shared_mode file new with ⟨res, T'⟩
  obtain ⟨-, -, rfl⟩ | ⟨lock, -, ⟨-, -, rfl⟩ | ⟨-, -, rfl⟩⟩ := getFile_cases hget
  · have hlock {name' : Bytes} {lock : ℕ} (hne : name' ≠ name)
        (hlock : update T.file_locks name (some new) name' = some lock) :
        T.file_locks name' = some lock ∧ lock ≠ new := by
      rw [update_of_ne hne] at hlock
      refine ⟨hlock, ?_⟩
      rintro rfl
      exact Bool.false_ne_true (hnew.symm.trans (h.live _ _ hlock))
    constructor <;> intro name' lock hname' <;> dsimp only at hname' ⊢ <;>
      by_cases hne : name' = name
    · subst hne
      rw [update_self, Option.some.injEq] at hname'
      rw [hname', update_self]
    · obtain ⟨hname', hne⟩ := hlock hne hname'
      rw [update_of_ne hne]
      exact h.live name' lock hname'
    · subst hne
      rw [update_self, Option.some.injEq] at hname'
      rw [hname', update_self]
      rfl
    · obtain ⟨hname', hne⟩ := hlock hne hname'
      rw [update_of_ne hne]
      exact h.name name' lock hname'
  · exact ⟨h.live, h.name⟩
  · refine ⟨h.live, fun name' lock' hname' => ?_⟩
    dsimp only at hname' ⊢
    by_cases hlock : lock' = lock
    · subst hlock
      rw [update_self]
      exact h.name name' lock' hname'
    · rw [update_of_ne hlock]
      exact h.name name' lock' hname'

lemma Named.destroyFile (h : T.Named) (file : ℕ) : (T.destroyFile file).Named := by
  rw [ImplFileLocks.destroyFile]
  split
  · exact h
  · next lock _ =>
    have hunlink : (T.unlinkFile lock file).2.Named := by
      refine ⟨h.live, fun name' lock' hname' => ?_⟩
      simp only [unlinkFile] at hname' ⊢
      by_cases hlock : lock' = lock
      · subst hlock
        rw [update_self]
        exact h.name name' lock' hname'
      · rw [update_of_ne hlock]
        exact h.name name' lock' hname'
    split
    · next heq => rwa [heq] at hunlink
    · next T' heq =>
      rw [heq] at hunlink
      exact hunlink.removeFile _

lemma Shared.getFile (h : T.Shared name) {shared_mode : UInt32}
    (hshare : Shares shared_mode FILE_SHARE_READ) (is_dir : Bool) (access_mode : UInt32)
    (file new : ℕ) : (T.getFile name is_dir access_mode shared_mode file new).2.Shared name := by
  rcases hget : T.getFile name is_dir access_mode shared_mode file new with ⟨res, T'⟩
  intro lock hlock i hi
  obtain ⟨-, -, rfl⟩ | ⟨old, hname, ⟨-, -, rfl⟩ | ⟨-, -, rfl⟩⟩ := getFile_cases hget
  · simp only [update_self, Option.some.injEq] at hlock hi
    subst hlock
    rw [update_self, first_addFileUnlocked, List.mem_singleton] at hi
    rw [hi]
    exact hshare
  · exact h lock hlock i hi
  · dsimp only at hlock hi
    obtain rfl : old = lock := Option.some.inj (hname.symm.trans hlock)
    rw [update_self, first_addFileUnlocked] at hi
    rcases List.mem_cons.mp hi with rfl | hi
    · exact hshare
    · exact h old hname i hi

lemma Shared.getFile_other (h : T.Shared name) (hnamed : T.Named) {name' : Bytes}
    (hne : name' ≠ name) {new : ℕ} (hnew : T.live new = false) (is_dir : Bool)
    (access_mode shared_mode : UInt32) (file : ℕ) :
    (T.getFile name' is_dir access_mode shared_mode file new).2.Shared name := by
  rcases hget : T.getFile name' is_dir access_mode shared_mode file new with ⟨res, T'⟩
  intro lock hlock i hi
  obtain ⟨-, -, rfl⟩ | ⟨old, hname, ⟨-, -, rfl⟩ | ⟨-, -, rfl⟩⟩ := getFile_cases hget
  · simp only [update_of_ne hne.symm] at hlock hi
    have hlive : lock ≠ new := by
      rintro rfl
      exact Bool.false_ne_true (hnew.symm.trans (hnamed.live _ _ hlock))
    rw [update_of_ne hlive] at hi
    exact h lock hlock i hi
  · exact h lock hlock i hi
  · dsimp only at hlock hi
    have hold : lock ≠ old := by
      rintro rfl
      exact hne (hnamed.eq_of_lock hname hlock)
    rw [update_of_ne hold] at hi
    exact h lock hlock i hi

lemma destroyFile_locks {file : ℕ} {name : Bytes} {lock : ℕ}
    (h : (T.destroyFile file).file_locks name = some lock) : T.file_locks name = some lock := by
  have hremove {U : ImplFileLocks} {name' : Bytes}
      (h : (U.removeFile name').file_locks name = some lock) : U.file_locks name = some lock := by
    rw [removeFile] at h
    split at h
    · split at h
      · dsimp only at h
        by_cases hne : name = name'
        · rw [hne, update_self] at h
          cases h
        · rwa [update_of_ne hne] at h
      · exact h
    · exact h
  rw [destroyFile] at h
  split at h
  · exact h
  · next old _ =>
    split at h
    · next heq =>
      have hunlink : (T.unlinkFile old file).2.file_locks = T.file_locks := rfl
      rwa [← hunlink, heq]
    · next heq =>
      have hunlink : (T.unlinkFile old file).2.file_locks = T.file_locks := rfl
      rw [← hunlink, heq]
      exact hremove h

lemma Shared.destroyFile (h : T.Shared name) (file : ℕ) : (T.destroyFile file).Shared name :=
  fun lock hlock i hi =>
    h lock (destroyFile_locks hlock) i ((destroyFile_first file lock).subset hi)

lemma Shared.getFile_res (h : T.Shared name) {access_mode : UInt32} (hread : Reading access_mode)
    (hrights : access_mode &&& SHARED_RIGHTS = 0) (is_dir : Bool) (shared_mode : UInt32)
    (file new : ℕ) : (T.getFile name is_dir access_mode shared_mode file new).1 = 0 := by
  apply (ImplFileLocks.getFile_res name is_dir access_mode shared_mode file new).mpr
  rw [hread.requiredShare hrights]
  exact h

end ImplFileLocks

namespace ReadersOnly

open ImplFileLocks

variable {name : Bytes} {T : ImplFileLocks} {opens : List OpenedWith}

lemma openFlags_snd (name : Bytes) (access_mode shared_mode : UInt32) (file new : ℕ) :
    (openFlags T name access_mode shared_mode file new).2 =
      (T.getFile name false access_mode shared_mode file new).2 := rfl

lemma named (h : ReadersOnly name T opens) : T.Named := by
  induction h with
  | empty => exact ⟨fun _ _ h => (nomatch h), fun _ _ h => (nomatch h)⟩
  | openFile _ _ _ _ _ _ _ hnew ih =>
    rw [openFlags_snd]
    exact ih.getFile hnew
  | openOther _ _ _ _ _ hnew ih => exact ih.getFile hnew
  | destroyFile file _ ih => exact ih.destroyFile file

lemma shared (h : ReadersOnly name T opens) : T.Shared name := by
  induction h with
  | empty => exact fun _ h => (nomatch h)
  | openFile _ _ _ _ _ _ hshare _ ih =>
    rw [openFlags_snd]
    exact ih.getFile hshare _ _ _ _
  | openOther is_dir access_mode shared_mode hrun hne hnew ih =>
    exact ih.getFile_other hrun.named hne hnew is_dir access_mode shared_mode _
  | destroyFile file _ ih => exact ih.destroyFile file

lemma openFlags_fst (h : ReadersOnly name T opens) {access_mode : UInt32}
    (hread : Reading access_mode) (shared_mode : UInt32) (file new : ℕ) :
    (openFlags T name access_mode shared_mode file new).1 = some O_RDONLY ↔
      access_mode &&& (READ_CONTROL ||| SYNCHRONIZE) = 0 := by
  rw [← SHARED_RIGHTS]
  constructor
  · intro hflags
    by_contra hrights
    have hconvert := hread.convertFlags
    rw [if_neg hrights] at hconvert
    simp only [openFlags, hconvert] at hflags
    split at hflags
    · cases hflags
    · exact absurd (Option.some.inj hflags) (by decide)
  · intro hrights
    have hres := h.shared.getFile_res hread hrights false shared_mode file new
    have hconvert := hread.convertFlags
    rw [if_pos hrights] at hconvert
    simp [openFlags, hres, hconvert]

end ReadersOnly

/-- Readers that share reading are all admitted, and with `O_RDONLY`, just when none of them asks
for `READ_CONTROL` or `SYNCHRONIZE`; these rights count as writing too. -/
theorem readers_share {name : Bytes} {T : ImplFileLocks} {opens : List OpenedWith}
    (h : ReadersOnly name T opens) :
    (∀ o ∈ opens, o.flags = some O_RDONLY ↔ o.access_mode &&& (READ_CONTROL ||| SYNCHRONIZE) = 0) ∧
      ∀ access_mode : UInt32, access_mode &&& ACCESS_READ ≠ 0 ∨ access_mode &&& ACCESS_WRITE ≠ 0 →
        (Writes (convertFlags access_mode) ↔
          requiredShare access_mode &&& FILE_SHARE_WRITE ≠ 0) := by
  refine ⟨?_, fun access_mode => writes_iff_requiredShare⟩
  induction h with
  | empty => simp
  | openFile _ _ _ _ hrun hread _ _ ih =>
    exact List.forall_mem_cons.mpr ⟨hrun.openFlags_fst hread _ _ _, ih⟩
  | openOther _ _ _ _ _ _ ih => exact ih
  | destroyFile _ _ ih => exact ih

def fileA : Bytes := [47, 97]

theorem not_readers_share :
    ∃ T opens, ReadersOnly fileA T opens ∧ opens.map OpenedWith.flags = [none, some O_RDWR] := by
  refine ⟨_, _, .openFile FILE_GENERIC_READ FILE_SHARE_READ 2 101
    (.openFile FILE_GENERIC_READ FILE_SHARE_READ 1 100 .empty ?_ ?_ ?_) ?_ ?_ ?_, ?_⟩ <;> decide

theorem readers_share_fileA :
    ∃ T opens, ReadersOnly fileA T opens ∧
      opens.map OpenedWith.flags = [some O_RDONLY, some O_RDONLY] ∧
      ∀ o ∈ opens, o.flags = some O_RDONLY ↔
        o.access_mode &&& (READ_CONTROL ||| SYNCHRONIZE) = 0 := by
  have hrun := ReadersOnly.openFile (FILE_READ_DATA ||| FILE_READ_ATTRIBUTES) FILE_SHARE_READ 2 101
    (.openFile (GENERIC_READ ||| FILE_EXECUTE) FILE_SHARE_READ 1 100 (.empty : ReadersOnly fileA _ _)
      (by decide) (by decide) (by decide)) (by decide) (by decide) (by decide)
  exact ⟨_, _, hrun, by decide, (readers_share hrun).1⟩

end EncFS.Fuse4Win
