import EncFS.Fuse4Win.LockTable

/-! Threads that open, close and rename files: every interleaving of their critical sections. -/

set_option autoImplicit false

namespace EncFS.Fuse4Win

open Function

inductive ThreadState
  | idle
  | opening (lock file : ℕ) (handle : ImplFileHandle) (access_mode : UInt32)
  | removing (lock : ℕ)

structure LockSystem where
  table : ImplFileLocks
  thread : ℕ → ThreadState

inductive Event
  | pick (t : ℕ) (name : Bytes) (is_dir : Bool) (access_mode shared_mode : UInt32) (file new : ℕ)
  | link (t lock file : ℕ) (handle : ImplFileHandle) (access_mode : UInt32)
  | unlink (t lock file : ℕ)
  | remove (t lock : ℕ)
  | rename (t : ℕ) (name new_name : Bytes)

namespace LockSystem

variable (S : LockSystem)

def initial : LockSystem := ⟨.empty, fun _ => .idle⟩

def Free (lock : ℕ) : Prop :=
  ∀ t file handle access_mode, S.thread t ≠ .opening lock file handle access_mode

def InFlight (file : ℕ) : Prop :=
  ∃ t lock handle access_mode, S.thread t = .opening lock file handle access_mode

def IsOpen (file : ℕ) : Prop :=
  S.table.file_lock file ≠ none ∧ ¬S.InFlight file

/-- A thread can take a step: the critical section is not held by another one, and a new address is
not in use. -/
def Enabled : Event → Prop
  | .pick t name _ _ _ file new =>
    S.thread t = .idle ∧ (∀ lock, S.table.file_locks name = some lock → S.Free lock) ∧
      S.table.file_lock file = none ∧ S.table.live new = false
  | .link t lock file handle access_mode => S.thread t = .opening lock file handle access_mode
  | .unlink t lock file =>
    S.thread t = .idle ∧ S.IsOpen file ∧ S.table.file_lock file = some lock ∧ S.Free lock
  | .remove t lock => S.thread t = .removing lock
  | .rename t name _ => S.thread t = .idle ∧ ∀ lock, S.table.file_locks name = some lock → S.Free lock

def next : Event → LockSystem
  | .pick t name is_dir access_mode shared_mode file new =>
    let handle : ImplFileHandle := ⟨is_dir, shared_mode, .empty⟩
    match S.table.pickLock name file handle new with
    | (some lock, T) => ⟨T, update S.thread t (.opening lock file handle access_mode)⟩
    | (none, T) => { S with table := T }
  | .link t lock file handle access_mode =>
    ⟨(S.table.admitFile lock file handle access_mode).2, update S.thread t .idle⟩
  | .unlink t lock file =>
    match S.table.unlinkFile lock file with
    | (true, T) => ⟨T, update S.thread t (.removing lock)⟩
    | (false, T) => { S with table := T }
  | .remove t lock =>
    ⟨S.table.removeFile (S.table.object lock).name_, update S.thread t .idle⟩
  | .rename _ name new_name => { S with table := S.table.renamedFile name new_name }

/-- A lock object is deleted only when nobody else is about to use it, and a file is not renamed over
one whose lock object is in use. -/
def Careful : Event → Prop
  | .remove t lock => ∀ m, S.table.file_locks (S.table.object lock).name_ = some m →
    (S.table.object m).first = [] → S.Free m ∧ ∀ t', t' ≠ t → S.thread t' ≠ .removing m
  | .rename _ name new_name => S.table.file_locks name ≠ none → name ≠ new_name →
    ∀ m, S.table.file_locks new_name = some m → (S.table.object m).first = [] ∧ S.Free m
  | _ => True

inductive Reached (P : LockSystem → Event → Prop) : LockSystem → Prop
  | initial : Reached P initial
  | step {S : LockSystem} (e : Event) : Reached P S → S.Enabled e → P S e → Reached P (S.next e)

variable {S}

structure Entered (T : ImplFileLocks) (lock : ℕ) : Prop where
  live : T.live lock = true
  entry : T.file_locks (T.object lock).name_ = some lock

structure Sound (S : LockSystem) : Prop where
  entry : ∀ {name lock}, S.table.file_locks name = some lock →
    S.table.live lock = true ∧ (S.table.object lock).name_ = name
  linked : ∀ {lock file}, S.table.live lock = true →
    file ∈ (S.table.object lock).first.map Prod.fst →
      S.table.file_lock file = some lock ∧ ¬S.InFlight file
  handle : ∀ {file lock}, S.table.file_lock file = some lock → ¬S.InFlight file →
    Entered S.table lock ∧ file ∈ (S.table.object lock).first.map Prod.fst
  opening : ∀ {t lock file handle access_mode},
    S.thread t = .opening lock file handle access_mode →
      Entered S.table lock ∧ S.table.file_lock file = some lock
  alone : ∀ {t t' lock lock' file handle handle' access_mode access_mode'},
    S.thread t = .opening lock file handle access_mode →
      S.thread t' = .opening lock' file handle' access_mode' → t = t'
  removing : ∀ {t lock}, S.thread t = .removing lock → S.table.live lock = true

lemma Sound.initial : Sound initial where
  entry h := by cases h
  linked h := by cases h
  handle h := by cases h
  opening h := by cases h
  alone h := by cases h
  removing h := by cases h

lemma Sound.entered (hS : Sound S) {name : Bytes} {lock : ℕ}
    (h : S.table.file_locks name = some lock) : Entered S.table lock :=
  ⟨(hS.entry h).1, by rw [(hS.entry h).2, h]⟩

lemma Sound.entry_ne (hS : Sound S) {name name' : Bytes} {lock lock' : ℕ}
    (h : S.table.file_locks name = some lock) (h' : S.table.file_locks name' = some lock')
    (hne : name ≠ name') : lock ≠ lock' := by
  rintro rfl
  exact hne ((hS.entry h).2.symm.trans (hS.entry h').2)

lemma thread_cases {t t' : ℕ} {state state' : ThreadState}
    (h : update S.thread t state t' = state') : t' = t ∧ state = state' ∨
      t' ≠ t ∧ S.thread t' = state' := by
  by_cases ht : t' = t
  · subst ht
    exact .inl ⟨rfl, by rwa [update_self] at h⟩
  · exact .inr ⟨ht, by rwa [update_of_ne ht] at h⟩

lemma opening_of_update {t t' lock file : ℕ} {handle : ImplFileHandle} {access_mode : UInt32}
    {state : ThreadState} (h : update S.thread t state t' = .opening lock file handle access_mode)
    (hstate : ∀ lock handle access_mode, state ≠ .opening lock file handle access_mode) :
    S.thread t' = .opening lock file handle access_mode := by
  rcases thread_cases h with ⟨-, h⟩ | ⟨-, h⟩
  · exact absurd h (hstate lock handle access_mode)
  · exact h

lemma removing_of_update {t t' lock : ℕ} {state : ThreadState}
    (h : update S.thread t state t' = .removing lock) (hstate : state ≠ .removing lock) :
    S.thread t' = .removing lock := by
  rcases thread_cases h with ⟨-, h⟩ | ⟨-, h⟩
  · exact absurd h hstate
  · exact h

lemma InFlight.of_update {T : ImplFileLocks} {t file : ℕ} {state : ThreadState}
    (h : InFlight ⟨T, update S.thread t state⟩ file)
    (hstate : ∀ lock handle access_mode, state ≠ .opening lock file handle access_mode) :
    S.InFlight file := by
  obtain ⟨t', lock, handle, access_mode, h⟩ := h
  exact ⟨t', lock, handle, access_mode, opening_of_update h hstate⟩

lemma InFlight.moved {T : ImplFileLocks} {t file : ℕ} {state : ThreadState} (h : S.InFlight file)
    (ht : ∀ lock handle access_mode, S.thread t ≠ .opening lock file handle access_mode) :
    InFlight ⟨T, update S.thread t state⟩ file := by
  obtain ⟨t', lock, handle, access_mode, h⟩ := h
  have hne : t' ≠ t := by
    rintro rfl
    exact ht lock handle access_mode h
  exact ⟨t', lock, handle, access_mode, (update_of_ne hne _ _).trans h⟩

lemma Sound.pick_found (hS : Sound S) {t file lock : ℕ} {name : Bytes} {handle : ImplFileHandle}
    {access_mode : UInt32} (ht : S.thread t = .idle) (hfile : S.table.file_lock file = none)
    (hname : S.table.file_locks name = some lock) :
    Sound ⟨{ S.table with file_lock := update S.table.file_lock file (some lock) },
      update S.thread t (.opening lock file handle access_mode)⟩ where
  entry h := hS.entry h
  linked {l f} hl hf := by
    obtain ⟨hlock, hflight⟩ := hS.linked hl hf
    have hne : f ≠ file := by
      rintro rfl
      rw [hfile] at hlock
      cases hlock
    refine ⟨(update_of_ne hne _ _).trans hlock, fun h => hflight (h.of_update fun _ _ _ heq => ?_)⟩
    cases heq
    exact hne rfl
  handle {f l} h hflight := by
    have hne : f ≠ file := by
      rintro rfl
      exact hflight ⟨t, lock, handle, access_mode, update_self _ _ _⟩
    have hlock : S.table.file_lock f = some l := (update_of_ne hne _ _).symm.trans h
    obtain ⟨hentered, hmem⟩ := hS.handle hlock fun hf => hflight (hf.moved (by simp [ht]))
    exact ⟨⟨hentered.live, hentered.entry⟩, hmem⟩
  opening {t' l f h a} hopening := by
    rcases thread_cases hopening with ⟨-, heq⟩ | ⟨-, hopening⟩
    · cases heq
      obtain ⟨hlive, hentry⟩ := hS.entered hname
      exact ⟨⟨hlive, hentry⟩, update_self _ _ _⟩
    · obtain ⟨⟨hlive, hentry⟩, hlock⟩ := hS.opening hopening
      have hne : f ≠ file := by
        rintro rfl
        rw [hfile] at hlock
        cases hlock
      exact ⟨⟨hlive, hentry⟩, (update_of_ne hne _ _).trans hlock⟩
  alone {t₁ t₂ l₁ l₂ f h₁ h₂ a₁ a₂} hone htwo := by
    have hfresh {t' l h a} (h' : S.thread t' = .opening l file h a) : False := by
      rw [(hS.opening h').2] at hfile
      cases hfile
    rcases thread_cases hone with ⟨hone, heq⟩ | ⟨-, hone'⟩
    · rcases thread_cases htwo with ⟨htwo, -⟩ | ⟨-, htwo'⟩
      · rw [hone, htwo]
      · cases heq
        exact (hfresh htwo').elim
    · rcases thread_cases htwo with ⟨-, heq⟩ | ⟨-, htwo'⟩
      · cases heq
        exact (hfresh hone').elim
      · exact hS.alone hone' htwo'
  removing h := hS.removing (removing_of_update h (by simp))

section PickNew

variable {file new : ℕ} {name : Bytes} (handle : ImplFileHandle)

def newLock (T : ImplFileLocks) (name : Bytes) (file : ℕ) (handle : ImplFileHandle) (new : ℕ) :
    ImplFileLocks where
  file_locks := update T.file_locks name (some new)
  object := update T.object new ((ImplFileLock.mk name []).addFileUnlocked file handle)
  live := update T.live new true
  file_lock := update T.file_lock file (some new)

lemma ne_new (hnew : S.table.live new = false) {lock : ℕ} (hlive : S.table.live lock = true) :
    lock ≠ new := by
  rintro rfl
  rw [hnew] at hlive
  cases hlive

lemma Sound.opening_ne (hS : Sound S) (hfile : S.table.file_lock file = none) {t lock f : ℕ}
    {handle : ImplFileHandle} {access_mode : UInt32}
    (h : S.thread t = .opening lock f handle access_mode) : f ≠ file := by
  rintro rfl
  rw [(hS.opening h).2] at hfile
  cases hfile

lemma entered_new (T : ImplFileLocks) : Entered (newLock T name file handle new) new := by
  refine ⟨update_self _ _ _, ?_⟩
  simp only [newLock, update_self]
  exact update_self _ _ _

lemma Entered.pick_new {lock : ℕ} (h : Entered S.table lock) (hnew : S.table.live new = false)
    (hname : S.table.file_locks name = none) :
    Entered (newLock S.table name file handle new) lock := by
  have hne : (S.table.object lock).name_ ≠ name := by
    intro heq
    have hentry := h.entry
    rw [heq, hname] at hentry
    cases hentry
  have hlock := ne_new hnew h.live
  refine ⟨(update_of_ne hlock _ _).trans h.live, ?_⟩
  simp only [newLock, update_of_ne hlock, update_of_ne hne]
  exact h.entry

lemma Sound.pick_new_linked (hS : Sound S) (hfile : S.table.file_lock file = none) {lock f : ℕ}
    (hlive : (newLock S.table name file handle new).live lock = true)
    (hf : f ∈ ((newLock S.table name file handle new).object lock).first.map Prod.fst) :
    (newLock S.table name file handle new).file_lock f = some lock ∧ ¬S.InFlight f := by
  simp only [newLock] at hlive hf ⊢
  by_cases hlock : lock = new
  · subst hlock
    rw [update_self] at hf
    cases List.mem_singleton.mp hf
    refine ⟨update_self _ _ _, ?_⟩
    rintro ⟨t, l, h, a, ht⟩
    exact hS.opening_ne hfile ht rfl
  · rw [update_of_ne hlock] at hlive hf
    have hne : f ≠ file := by
      rintro rfl
      rw [(hS.linked hlive hf).1] at hfile
      cases hfile
    rw [update_of_ne hne]
    exact hS.linked hlive hf

lemma Sound.pick_new_handle (hS : Sound S) (hnew : S.table.live new = false)
    (hname : S.table.file_locks name = none) {f lock : ℕ}
    (h : (newLock S.table name file handle new).file_lock f = some lock) (hflight : ¬S.InFlight f) :
    Entered (newLock S.table name file handle new) lock ∧
      f ∈ ((newLock S.table name file handle new).object lock).first.map Prod.fst := by
  simp only [newLock] at h
  by_cases hf : f = file
  · subst hf
    rw [update_self] at h
    cases h
    refine ⟨entered_new handle S.table, ?_⟩
    simp only [newLock, update_self]
    exact List.mem_cons_self
  · rw [update_of_ne hf] at h
    obtain ⟨hlock, hmem⟩ := hS.handle h hflight
    refine ⟨hlock.pick_new handle hnew hname, ?_⟩
    simp only [newLock, update_of_ne (ne_new hnew hlock.live)]
    exact hmem

lemma Sound.pick_new (hS : Sound S) (hfile : S.table.file_lock file = none)
    (hnew : S.table.live new = false) (hname : S.table.file_locks name = none) :
    Sound { S with table := newLock S.table name file handle new } where
  entry {n lock} h := by
    simp only [newLock] at h ⊢
    by_cases hn : n = name
    · subst hn
      rw [update_self] at h
      cases h
      rw [update_self, update_self]
      exact ⟨rfl, rfl⟩
    · rw [update_of_ne hn] at h
      obtain ⟨hlive, hname⟩ := hS.entry h
      rw [update_of_ne (ne_new hnew hlive), update_of_ne (ne_new hnew hlive)]
      exact ⟨hlive, hname⟩
  linked := hS.pick_new_linked handle hfile
  handle := hS.pick_new_handle handle hnew hname
  opening {t lock f handle' access_mode} ht := by
    obtain ⟨hlock, hf⟩ := hS.opening ht
    exact ⟨hlock.pick_new handle hnew hname,
      (update_of_ne (hS.opening_ne hfile ht) _ _).trans hf⟩
  alone := hS.alone
  removing ht := by
    have hlive := hS.removing ht
    exact (update_of_ne (ne_new hnew hlive) _ _).trans hlive

end PickNew

lemma Sound.landed (hS : Sound S) {T : ImplFileLocks} {t lock file f : ℕ} {handle : ImplFileHandle}
    {access_mode : UInt32} (ht : S.thread t = .opening lock file handle access_mode)
    (h : InFlight ⟨T, update S.thread t .idle⟩ f) : S.InFlight f ∧ f ≠ file := by
  refine ⟨h.of_update (by simp), ?_⟩
  rintro rfl
  obtain ⟨t', lock', handle', access_mode', h⟩ := h
  rcases thread_cases h with ⟨-, heq⟩ | ⟨hne, h⟩
  · cases heq
  · exact hne (hS.alone h ht)

lemma InFlight.stays {T : ImplFileLocks} {t lock file f : ℕ} {handle : ImplFileHandle}
    {access_mode : UInt32} (h : S.InFlight f)
    (ht : S.thread t = .opening lock file handle access_mode) (hne : f ≠ file) : InFlight ⟨T, update S.thread t .idle⟩ f := by
  apply h.moved
  intro lock' handle' access_mode' heq
  rw [ht] at heq
  cases heq
  exact hne rfl

lemma Sound.refused (hS : Sound S) {t lock file : ℕ} {handle : ImplFileHandle}
    {access_mode : UInt32} (ht : S.thread t = .opening lock file handle access_mode) :
    Sound ⟨{ S.table with file_lock := update S.table.file_lock file none },
      update S.thread t .idle⟩ where
  entry h := hS.entry h
  linked {l f} hl hf := by
    obtain ⟨hlock, hflight⟩ := hS.linked hl hf
    have hne : f ≠ file := by
      rintro rfl
      exact hflight ⟨t, lock, handle, access_mode, ht⟩
    exact ⟨(update_of_ne hne _ _).trans hlock, fun h => hflight (hS.landed ht h).1⟩
  handle {f l} h hflight := by
    dsimp only at h
    by_cases hf : f = file
    · subst hf
      rw [update_self] at h
      cases h
    · rw [update_of_ne hf] at h
      obtain ⟨⟨hlive, hentry⟩, hmem⟩ := hS.handle h fun hfly => hflight (hfly.stays ht hf)
      exact ⟨⟨hlive, hentry⟩, hmem⟩
  opening {t' l f h a} hopening := by
    rcases thread_cases hopening with ⟨-, heq⟩ | ⟨hne, hopening'⟩
    · cases heq
    · obtain ⟨⟨hlive, hentry⟩, hlock⟩ := hS.opening hopening'
      have hf : f ≠ file := by
        rintro rfl
        exact hne (hS.alone hopening' ht)
      exact ⟨⟨hlive, hentry⟩, (update_of_ne hf _ _).trans hlock⟩
  alone hone htwo :=
    hS.alone (opening_of_update hone (by simp)) (opening_of_update htwo (by simp))
  removing h := hS.removing (removing_of_update h (by simp))

lemma Entered.of_list {T T' : ImplFileLocks} {lock lock' : ℕ} {first : List (ℕ × ImplFileHandle)}
    (h : Entered T lock) (hlocks : T'.file_locks = T.file_locks) (hlive : T'.live = T.live)
    (hobject : T'.object = update T.object lock' { T.object lock' with first := first }) :
    Entered T' lock := by
  refine ⟨hlive ▸ h.live, ?_⟩
  rw [hlocks, hobject]
  by_cases hlock : lock = lock'
  · subst hlock
    rw [update_self]
    exact h.entry
  · rw [update_of_ne hlock]
    exact h.entry

lemma Sound.admitted (hS : Sound S) {t lock file : ℕ} {handle : ImplFileHandle}
    {access_mode : UInt32} (ht : S.thread t = .opening lock file handle access_mode) :
    Sound ⟨{ S.table with
        object := update S.table.object lock ((S.table.object lock).addFileUnlocked file handle) },
      update S.thread t .idle⟩ where
  entry {name l} h := by
    dsimp only at h ⊢
    by_cases hl : l = lock
    · subst hl
      rw [update_self]
      exact hS.entry h
    · rw [update_of_ne hl]
      exact hS.entry h
  linked {l f} hl hf := by
    dsimp only at hl hf ⊢
    obtain rfl | hne := eq_or_ne f file
    · refine ⟨?_, fun h => (hS.landed ht h).2 rfl⟩
      by_cases hlock : l = lock
      · rw [hlock]
        exact (hS.opening ht).2
      · rw [update_of_ne hlock] at hf
        exact absurd ⟨t, lock, handle, access_mode, ht⟩ (hS.linked hl hf).2
    · have hmem : f ∈ (S.table.object l).first.map Prod.fst := by
        by_cases hlock : l = lock
        · subst hlock
          rw [update_self] at hf
          exact List.mem_of_ne_of_mem hne hf
        · rwa [update_of_ne hlock] at hf
      obtain ⟨hfile, hflight⟩ := hS.linked hl hmem
      exact ⟨hfile, fun h => hflight (hS.landed ht h).1⟩
  handle {f l} h hflight := by
    dsimp only at h ⊢
    obtain rfl | hne := eq_or_ne f file
    · obtain ⟨hentered, hfile⟩ := hS.opening ht
      have hl : l = lock := Option.some.inj (h.symm.trans hfile)
      subst hl
      refine ⟨hentered.of_list rfl rfl rfl, ?_⟩
      rw [update_self]
      exact List.mem_cons_self
    · obtain ⟨hentered, hmem⟩ := hS.handle h fun hfly => hflight (hfly.stays ht hne)
      refine ⟨hentered.of_list rfl rfl rfl, ?_⟩
      by_cases hlock : l = lock
      · subst hlock
        rw [update_self]
        exact List.mem_cons_of_mem _ hmem
      · rwa [update_of_ne hlock]
  opening {t' l f h a} hopening := by
    obtain ⟨hentered, hfile⟩ := hS.opening (opening_of_update hopening (by simp))
    exact ⟨hentered.of_list rfl rfl rfl, hfile⟩
  alone hone htwo :=
    hS.alone (opening_of_update hone (by simp)) (opening_of_update htwo (by simp))
  removing h := hS.removing (removing_of_update h (by simp))

lemma Sound.unlinked (hS : Sound S) {t lock file : ℕ} {state : ThreadState}
    (ht : S.thread t = .idle) (hopen : S.IsOpen file)
    (hlock : S.table.file_lock file = some lock) (hstate : state = .idle ∨ state = .removing lock) :
    Sound ⟨(S.table.unlinkFile lock file).2, update S.thread t state⟩ := by
  have hnot {l f h a} : state ≠ .opening l f h a := by
    rcases hstate with rfl | rfl <;> simp
  have hflight {T : ImplFileLocks} {f : ℕ} (h : S.InFlight f) :
      InFlight ⟨T, update S.thread t state⟩ f :=
    h.moved (by simp [ht])
  have hmem {l f : ℕ} (hf : f ∈ (((S.table.unlinkFile lock file).2.object l).first.map Prod.fst)) :
      f ∈ (S.table.object l).first.map Prod.fst ∧ (l = lock → f ≠ file) := by
    dsimp only [ImplFileLocks.unlinkFile, ImplFileLock.unlinkFile] at hf
    by_cases hl : l = lock
    · subst hl
      rw [update_self] at hf
      obtain ⟨i, hi, rfl⟩ := List.mem_map.mp hf
      rw [List.mem_filter, decide_eq_true_eq] at hi
      exact ⟨List.mem_map_of_mem hi.1, fun _ => hi.2⟩
    · rw [update_of_ne hl] at hf
      exact ⟨hf, fun h => absurd h hl⟩
  have hkeep {l f : ℕ} (hf : f ∈ (S.table.object l).first.map Prod.fst) (hne : f ≠ file) :
      f ∈ ((S.table.unlinkFile lock file).2.object l).first.map Prod.fst := by
    dsimp only [ImplFileLocks.unlinkFile, ImplFileLock.unlinkFile]
    by_cases hl : l = lock
    · subst hl
      rw [update_self]
      obtain ⟨i, hi, rfl⟩ := List.mem_map.mp hf
      exact List.mem_map_of_mem (List.mem_filter.mpr ⟨hi, decide_eq_true hne⟩)
    · rwa [update_of_ne hl]
  refine ⟨?table, ?linked, ?handle, ?opening, ?alone, ?removing⟩
  case table =>
    intro name l h
    dsimp only [ImplFileLocks.unlinkFile, ImplFileLock.unlinkFile] at h ⊢
    by_cases hl : l = lock
    · subst hl
      rw [update_self]
      exact hS.entry h
    · rw [update_of_ne hl]
      exact hS.entry h
  case linked =>
    intro l f hl hf
    obtain ⟨hold, hne⟩ := hmem hf
    obtain ⟨hfile, hfly⟩ := hS.linked hl hold
    have hf' : f ≠ file := by
      rintro rfl
      rw [hlock] at hfile
      exact hne (Option.some.inj hfile).symm rfl
    exact ⟨(update_of_ne hf' _ _).trans hfile, fun h => hfly (h.of_update fun _ _ _ => hnot)⟩
  case handle =>
    intro f l h hfly
    dsimp only [ImplFileLocks.unlinkFile] at h
    by_cases hf : f = file
    · subst hf
      rw [update_self] at h
      cases h
    · rw [update_of_ne hf] at h
      obtain ⟨hentered, hold⟩ := hS.handle h fun h' => hfly (hflight h')
      exact ⟨hentered.of_list rfl rfl rfl, hkeep hold hf⟩
  case opening =>
    intro t' l f h a hopening
    have hopening' := opening_of_update hopening fun _ _ _ => hnot
    obtain ⟨hentered, hfile⟩ := hS.opening hopening'
    have hf : f ≠ file := by
      rintro rfl
      exact hopen.2 ⟨t', l, h, a, hopening'⟩
    exact ⟨hentered.of_list rfl rfl rfl, (update_of_ne hf _ _).trans hfile⟩
  case alone =>
    intro t₁ t₂ l₁ l₂ f h₁ h₂ a₁ a₂ hone htwo
    have hone' := opening_of_update hone fun _ _ _ => hnot
    exact hS.alone hone' (opening_of_update htwo fun _ _ _ => hnot)
  case removing =>
    intro t' l hremoving
    rcases thread_cases hremoving with ⟨-, heq⟩ | ⟨-, hremoving'⟩
    · rcases hstate with rfl | rfl
      · cases heq
      · cases heq
        exact (hS.handle hlock hopen.2).1.live
    · exact hS.removing hremoving'

lemma Sound.retired (hS : Sound S) {t lock : ℕ} (ht : S.thread t = .removing lock) :
    Sound ⟨S.table, update S.thread t .idle⟩ where
  entry h := hS.entry h
  linked hl hf := ⟨(hS.linked hl hf).1, fun h => (hS.linked hl hf).2 (h.of_update (by simp))⟩
  handle h hflight := hS.handle h fun h' => hflight (h'.moved (by simp [ht]))
  opening h := hS.opening (opening_of_update h (by simp))
  alone hone htwo :=
    hS.alone (opening_of_update hone (by simp)) (opening_of_update htwo (by simp))
  removing h := hS.removing (removing_of_update h (by simp))

lemma Sound.deleted (hS : Sound S) {name : Bytes} {lock : ℕ}
    (hname : S.table.file_locks name = some lock) (hempty : (S.table.object lock).first = [])
    (hfree : S.Free lock) (hremoving : ∀ t, S.thread t ≠ .removing lock) :
    Sound { S with table := { S.table with
      file_locks := update S.table.file_locks name none
      live := update S.table.live lock false } } := by
  have hentered {l : ℕ} (h : Entered S.table l) (hne : l ≠ lock) : Entered { S.table with
      file_locks := update S.table.file_locks name none
      live := update S.table.live lock false } l := by
    refine ⟨(update_of_ne hne _ _).trans h.live, ?_⟩
    have hn : (S.table.object l).name_ ≠ name := by
      intro heq
      have hentry := h.entry
      rw [heq, hname] at hentry
      exact hne (Option.some.inj hentry).symm
    exact (update_of_ne hn _ _).trans h.entry
  have hlive {l : ℕ} (h : update S.table.live lock false l = true) :
      l ≠ lock ∧ S.table.live l = true := by
    by_cases hl : l = lock
    · subst hl
      rw [update_self] at h
      cases h
    · exact ⟨hl, by rwa [update_of_ne hl] at h⟩
  refine ⟨?table, ?linked, ?handle, ?opening, hS.alone, ?removing⟩
  case table =>
    intro n l h
    dsimp only at h ⊢
    by_cases hn : n = name
    · subst hn
      rw [update_self] at h
      cases h
    · rw [update_of_ne hn] at h
      rw [update_of_ne (hS.entry_ne h hname hn)]
      exact hS.entry h
  case linked =>
    intro l f hl hf
    exact hS.linked (hlive hl).2 hf
  case handle =>
    intro f l h hflight
    obtain ⟨hl, hmem⟩ := hS.handle h hflight
    refine ⟨hentered hl ?_, hmem⟩
    rintro rfl
    rw [hempty] at hmem
    cases hmem
  case opening =>
    intro t l f h a hopening
    obtain ⟨hl, hfile⟩ := hS.opening hopening
    refine ⟨hentered hl ?_, hfile⟩
    rintro rfl
    exact hfree t f h a hopening
  case removing =>
    intro t l h
    have hl : l ≠ lock := by
      rintro rfl
      exact hremoving t h
    exact (update_of_ne hl _ _).trans (hS.removing h)

lemma Sound.renamed (hS : Sound S) {name new_name : Bytes} {lock : ℕ} (hne : name ≠ new_name)
    (hname : S.table.file_locks name = some lock)
    (hover : ∀ m, S.table.file_locks new_name = some m →
      (S.table.object m).first = [] ∧ S.Free m) :
    Sound { S with table := { S.table with
      object := update S.table.object lock { S.table.object lock with name_ := new_name }
      file_locks := update (update S.table.file_locks new_name (some lock)) name none } } := by
  have hfirst (l : ℕ) : (update S.table.object lock { S.table.object lock with name_ := new_name }
      l).first = (S.table.object l).first := by
    by_cases hl : l = lock
    · subst hl
      rw [update_self]
    · rw [update_of_ne hl]
  -- An object keeps its entry unless the renamed one takes it.
  have hentered {l : ℕ} (h : Entered S.table l) (hused : (S.table.object l).first ≠ [] ∨ ¬S.Free l) :
      Entered { S.table with
        object := update S.table.object lock { S.table.object lock with name_ := new_name }
        file_locks := update (update S.table.file_locks new_name (some lock)) name none } l := by
    refine ⟨h.live, ?_⟩
    dsimp only
    by_cases hl : l = lock
    · subst hl
      rw [update_self, update_of_ne hne.symm, update_self]
    · have hentry := h.entry
      have hold : (S.table.object l).name_ ≠ name := by
        intro heq
        rw [heq, hname] at hentry
        exact hl (Option.some.inj hentry).symm
      have hnew : (S.table.object l).name_ ≠ new_name := by
        intro heq
        rw [heq] at hentry
        obtain ⟨hempty, hfree⟩ := hover l hentry
        exact hused.elim (fun h => h hempty) (fun h => h hfree)
      rw [update_of_ne hl, update_of_ne hold, update_of_ne hnew, hentry]
  refine ⟨?table, ?linked, ?handle, ?opening, hS.alone, hS.removing⟩
  case table =>
    intro n l h
    dsimp only at h ⊢
    by_cases hn : n = name
    · subst hn
      rw [update_self] at h
      cases h
    · rw [update_of_ne hn] at h
      by_cases hn' : n = new_name
      · subst hn'
        rw [update_self] at h
        cases h
        rw [update_self]
        exact ⟨(hS.entry hname).1, rfl⟩
      · rw [update_of_ne hn'] at h
        rw [update_of_ne (hS.entry_ne h hname hn)]
        exact hS.entry h
  case linked =>
    intro l f hl hf
    dsimp only at hf
    rw [hfirst] at hf
    exact hS.linked hl hf
  case handle =>
    intro f l h hflight
    obtain ⟨hl, hmem⟩ := hS.handle h hflight
    dsimp only
    rw [hfirst]
    refine ⟨hentered hl (.inl ?_), hmem⟩
    intro hempty
    rw [hempty] at hmem
    cases hmem
  case opening =>
    intro t l f h a hopening
    obtain ⟨hl, hfile⟩ := hS.opening hopening
    exact ⟨hentered hl (.inr fun hfree => hfree t f h a hopening), hfile⟩

lemma Sound.next (hS : Sound S) {e : Event} (hen : S.Enabled e) (hcareful : S.Careful e) :
    Sound (S.next e) := by
  cases e with
  | pick t name is_dir access_mode shared_mode file new =>
    obtain ⟨ht, -, hfile, hnew⟩ := hen
    rw [LockSystem.next]
    cases hname : S.table.file_locks name with
    | some lock =>
      simp only [ImplFileLocks.pickLock, hname]
      exact hS.pick_found ht hfile hname
    | none =>
      simp only [ImplFileLocks.pickLock, hname]
      exact hS.pick_new _ hfile hnew hname
  | link t lock file handle access_mode =>
    rw [LockSystem.next, ImplFileLocks.admitFile]
    split
    · exact hS.refused hen
    · exact hS.admitted hen
  | unlink t lock file =>
    obtain ⟨ht, hopen, hlock, -⟩ := hen
    have hstay : update S.thread t .idle = S.thread := by
      rw [← ht, update_eq_self]
    rw [LockSystem.next]
    split
    case h_1 T heq =>
      have hT := hS.unlinked ht hopen hlock (.inr rfl)
      rwa [heq] at hT
    case h_2 T heq =>
      have hT := hS.unlinked ht hopen hlock (.inl rfl)
      rwa [heq, hstay] at hT
  | remove t lock =>
    have hidle := hS.retired hen
    rw [LockSystem.next, ImplFileLocks.removeFile]
    split
    case h_1 m hm =>
      split
      case isTrue hempty =>
        obtain ⟨hfree, hothers⟩ := hcareful m hm (List.isEmpty_iff.mp hempty)
        refine hidle.deleted hm (List.isEmpty_iff.mp hempty) ?_ ?_
        · intro t' f h a hopening
          rcases thread_cases hopening with ⟨-, heq⟩ | ⟨-, hopening'⟩
          · cases heq
          · exact hfree t' f h a hopening'
        · intro t' hremoving
          rcases thread_cases hremoving with ⟨-, heq⟩ | ⟨hne, hremoving'⟩
          · cases heq
          · exact hothers t' hne hremoving'
      case isFalse => exact hidle
    case h_2 => exact hidle
  | rename t name new_name =>
    rw [LockSystem.next, ImplFileLocks.renamedFile]
    split
    · exact hS
    · next hne =>
      split
      case h_1 lock hname =>
        exact hS.renamed hne hname fun m hm => hcareful (by simp [hname]) hne m hm
      case h_2 => exact hS

lemma Reached.sound (h : Reached Careful S) : Sound S := by
  induction h with
  | initial => exact .initial
  | step e _ hen hcareful ih => exact ih.next hen hcareful

/-- If every step is careful, an open handle has the lock object that the table has under its name,
and two handles that are open on one file have the same. -/
theorem locks_live (h : Reached Careful S) :
    (∀ file, S.IsOpen file → ∃ lock, S.table.file_lock file = some lock ∧
      S.table.live lock = true ∧ S.table.file_locks (S.table.object lock).name_ = some lock ∧
      file ∈ (S.table.object lock).first.map Prod.fst) ∧
    ∀ file file' lock lock', S.IsOpen file → S.IsOpen file' →
      S.table.file_lock file = some lock → S.table.file_lock file' = some lock' →
      (S.table.object lock).name_ = (S.table.object lock').name_ → lock = lock' := by
  have hS := h.sound
  constructor
  · intro file hopen
    obtain ⟨lock, hlock⟩ := Option.ne_none_iff_exists'.mp hopen.1
    obtain ⟨⟨hlive, hentry⟩, hmem⟩ := hS.handle hlock hopen.2
    exact ⟨lock, hlock, hlive, hentry, hmem⟩
  · intro file file' lock lock' hopen hopen' hlock hlock' hname
    have hentry := (hS.handle hlock hopen.2).1.entry
    have hentry' := (hS.handle hlock' hopen'.2).1.entry
    rw [hname, hentry'] at hentry
    exact (Option.some.inj hentry).symm

def Quiet (S : LockSystem) : Prop :=
  ∀ t lock file handle access_mode, S.thread t ≠ .opening lock file handle access_mode

lemma Quiet.free (h : S.Quiet) (lock : ℕ) : S.Free lock :=
  fun t => h t lock

lemma Quiet.not_inFlight (h : S.Quiet) (file : ℕ) : ¬S.InFlight file := by
  rintro ⟨t, lock, handle, access_mode, hopening⟩
  exact h t lock file handle access_mode hopening

lemma Quiet.initial : initial.Quiet := by
  intro t lock file handle access_mode h
  cases h

lemma Quiet.moved (h : S.Quiet) (T : ImplFileLocks) (t lock : ℕ) :
    Quiet ⟨T, update S.thread t (.removing lock)⟩ := by
  intro t' lock' file handle access_mode hopening
  rcases thread_cases hopening with ⟨-, heq⟩ | ⟨-, hopening'⟩
  · cases heq
  · exact h t' lock' file handle access_mode hopening'

lemma Quiet.returned (h : S.Quiet) (T : ImplFileLocks) (t : ℕ) (state : ThreadState) :
    Quiet ⟨T, update (update S.thread t state) t .idle⟩ := by
  intro t' lock file handle access_mode hopening
  rw [update_idem] at hopening
  rcases thread_cases hopening with ⟨-, heq⟩ | ⟨-, hopening'⟩
  · cases heq
  · exact h t' lock file handle access_mode hopening'

def sharesAll : ImplFileHandle := ⟨false, 7, .empty⟩

def deletedInUse : List Event :=
  [.pick 1 [47, 97] false GENERIC_READ 7 1 100, .unlink 1 100 1,
    .pick 2 [47, 97] false GENERIC_READ 7 2 101, .remove 1 100,
    .link 2 100 2 sharesAll GENERIC_READ]

def renamedOver : List Event :=
  [.pick 1 [47, 97] false GENERIC_READ 7 1 100, .pick 1 [47, 98] false GENERIC_READ 7 2 101,
    .rename 1 [47, 97] [47, 98]]

theorem not_locks_live :
    (Reached (fun _ _ => True) (deletedInUse.foldl next initial) ∧
      (deletedInUse.foldl next initial).IsOpen 2 ∧
      (deletedInUse.foldl next initial).table.file_lock 2 = some 100 ∧
      (deletedInUse.foldl next initial).table.live 100 = false) ∧
    Reached (fun _ _ => True) (renamedOver.foldl next initial) ∧
      (renamedOver.foldl next initial).IsOpen 2 ∧
      (renamedOver.foldl next initial).table.file_lock 2 = some 101 ∧
      (renamedOver.foldl next initial).table.file_locks
        ((renamedOver.foldl next initial).table.object 101).name_ = some 100 := by
  have hone : Reached (fun _ _ => True)
      (initial.next (.pick 1 [47, 97] false GENERIC_READ 7 1 100)) :=
    .step _ .initial ⟨rfl, fun _ _ => Quiet.initial.free _, rfl, rfl⟩ trivial
  have hquiet : Quiet (initial.next (.pick 1 [47, 97] false GENERIC_READ 7 1 100)) := Quiet.initial
  constructor
  · have hunlink := hone.step (.unlink 1 100 1)
      ⟨rfl, ⟨by decide, hquiet.not_inFlight 1⟩, by decide, hquiet.free 100⟩ trivial
    have hpick := hunlink.step (.pick 2 [47, 97] false GENERIC_READ 7 2 101)
      ⟨rfl, fun _ _ => (hquiet.moved _ 1 100).free _, by decide, by decide⟩ trivial
    have hremove := hpick.step (.remove 1 100) rfl trivial
    refine ⟨hremove.step (.link 2 100 2 sharesAll GENERIC_READ) rfl trivial, ⟨by decide, ?_⟩,
      by decide, by decide⟩
    rintro ⟨t, lock, handle, access_mode, h⟩
    rcases thread_cases h with ⟨-, heq⟩ | ⟨hne, h⟩
    · cases heq
    · rcases thread_cases h with ⟨-, heq⟩ | ⟨-, h⟩
      · cases heq
      · rcases thread_cases h with ⟨rfl, -⟩ | ⟨-, h⟩
        · exact hne rfl
        · exact (hquiet.moved _ 1 100).not_inFlight 2 ⟨t, lock, handle, access_mode, h⟩
  · have htwo := hone.step (.pick 1 [47, 98] false GENERIC_READ 7 2 101)
      ⟨rfl, fun _ _ => hquiet.free _, by decide, by decide⟩ trivial
    exact ⟨htwo.step (.rename 1 [47, 97] [47, 98]) ⟨rfl, fun _ _ => hquiet.free _⟩ trivial,
      ⟨by decide, hquiet.not_inFlight 2⟩, by decide, by decide⟩

def secondOpen : List Event :=
  [.pick 1 [47, 97] false GENERIC_READ 7 1 100, .pick 2 [47, 97] false GENERIC_READ 7 2 101,
    .link 2 100 2 sharesAll GENERIC_READ]

theorem locks_live_secondOpen :
    (secondOpen.foldl next initial).IsOpen 2 ∧
      ∃ lock, (secondOpen.foldl next initial).table.file_lock 2 = some lock ∧
        (secondOpen.foldl next initial).table.live lock = true ∧
        (secondOpen.foldl next initial).table.file_locks
          ((secondOpen.foldl next initial).table.object lock).name_ = some lock ∧
        2 ∈ ((secondOpen.foldl next initial).table.object lock).first.map Prod.fst := by
  have hquiet : Quiet (initial.next (.pick 1 [47, 97] false GENERIC_READ 7 1 100)) := Quiet.initial
  have hone : Reached Careful (initial.next (.pick 1 [47, 97] false GENERIC_READ 7 1 100)) :=
    .step _ .initial ⟨rfl, fun _ _ => Quiet.initial.free _, rfl, rfl⟩ trivial
  have htwo := hone.step (.pick 2 [47, 97] false GENERIC_READ 7 2 101)
    ⟨rfl, fun _ _ => hquiet.free _, by decide, by decide⟩ trivial
  have hopen : (secondOpen.foldl next initial).IsOpen 2 :=
    ⟨by decide, (hquiet.returned _ 2 _).not_inFlight 2⟩
  exact ⟨hopen, (locks_live (htwo.step (.link 2 100 2 sharesAll GENERIC_READ) rfl trivial)).1 2 hopen⟩

end LockSystem

end EncFS.Fuse4Win
