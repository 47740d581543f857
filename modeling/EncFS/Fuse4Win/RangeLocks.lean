import EncFS.Fuse4Win.FileLock
import Mathlib.Order.CompletePartialOrder
import Mathlib.Order.Interval.Set.Disjoint

set_option autoImplicit false

namespace EncFS.Fuse4Win

def bytesOf (range : ℤ × ℤ) : Set ℤ :=
  Set.Ico range.1 (range.1 + range.2)

structure ValidRange (range : ℤ × ℤ) : Prop where
  start_nonneg : 0 ≤ range.1
  start_le : range.1 ≤ LONGLONG_MAX
  len_pos : 1 ≤ range.2
  len_le : range.2 ≤ LONGLONG_MAX

lemma disjoint_iff {r s : ℤ × ℤ} (hr : ValidRange r) (hs : ValidRange s) :
    Disjoint (bytesOf r) (bytesOf s) ↔ r.1 + r.2 ≤ s.1 ∨ s.1 + s.2 ≤ r.1 := by
  have := hr.len_pos
  have := hs.len_pos
  rw [bytesOf, bytesOf, Set.Ico_disjoint_Ico, min_le_iff, le_max_iff, le_max_iff]
  omega

lemma subLongLong_eq {x y : ℤ} (hx : 0 ≤ x) (hx' : x ≤ LONGLONG_MAX) (hy : 0 ≤ y)
    (hy' : y ≤ LONGLONG_MAX) : subLongLong x y = some (x - y) := by
  rw [LONGLONG_MAX] at hx' hy'
  rw [subLongLong, if_pos]
  rw [LONGLONG_MIN, LONGLONG_MAX]
  omega

structure DisjointLocks (locks : Locks) : Prop where
  valid : ∀ r ∈ locks.entries, ValidRange r
  disjoint : ∀ r ∈ locks.entries, ∀ s ∈ locks.entries, r ≠ s → Disjoint (bytesOf r) (bytesOf s)

lemma DisjointLocks.ends_before {locks : Locks} (h : DisjointLocks locks) {r s : ℤ × ℤ}
    (hr : r ∈ locks.entries) (hs : s ∈ locks.entries) (hlt : r.1 < s.1) : r.1 + r.2 ≤ s.1 := by
  have hne : r ≠ s := by
    rintro rfl
    exact lt_irrefl _ hlt
  have hlen := (h.valid s hs).len_pos
  rcases (disjoint_iff (h.valid r hr) (h.valid s hs)).mp (h.disjoint r hr s hs hne) with h | h
  · exact h
  · omega

section Neighbours

variable {locks : Locks} (h : DisjointLocks locks) {start len : ℤ}
include h

lemma DisjointLocks.reaches_iff {i : ℤ × ℤ} (hi : i ∈ locks.entries) (hlt : i.1 < start)
    (hmax : ∀ r ∈ locks.entries, r.1 < start → r.1 ≤ i.1) :
    (∃ r ∈ locks.entries, r.1 < start ∧ start < r.1 + r.2) ↔ start - i.1 < i.2 := by
  constructor
  · rintro ⟨r, hr, hrlt, hreach⟩
    rcases Int.lt_or_eq_of_le (hmax r hr hrlt) with hlt' | heq
    · have := h.ends_before hr hi hlt'
      omega
    · rw [OrderedMap.eq_of_key hr hi heq] at hreach
      omega
  · intro hreach
    exact ⟨i, hi, hlt, by omega⟩

lemma DisjointLocks.meets_iff (hrange : ValidRange (start, len)) :
    (∃ r ∈ locks.entries, ¬Disjoint (bytesOf r) (bytesOf (start, len))) ↔
      (∃ r ∈ locks.entries, start ≤ r.1 ∧ r.1 < start + len) ∨
        ∃ r ∈ locks.entries, r.1 < start ∧ start < r.1 + r.2 := by
  rw [← exists_or]
  apply exists_congr
  intro r
  rw [← and_or_left]
  apply and_congr_right
  intro hr
  have := (h.valid r hr).len_pos
  have hlen : 1 ≤ len := hrange.len_pos
  rw [disjoint_iff (h.valid r hr) hrange, not_or, not_le, not_le]
  dsimp only
  omega

lemma holdsPart_spec (hrange : ValidRange (start, len)) :
    ∃ locked, holdsPart locks start len = some locked ∧
      (locked = true ↔ ∃ r ∈ locks.entries, ¬Disjoint (bytesOf r) (bytesOf (start, len))) := by
  have hsub {r : ℤ × ℤ} (hr : r ∈ locks.entries) :
      subLongLong r.1 start = some (r.1 - start) ∧ subLongLong start r.1 = some (start - r.1) := by
    have hv := h.valid r hr
    exact ⟨subLongLong_eq hv.start_nonneg hv.start_le hrange.start_nonneg hrange.start_le,
      subLongLong_eq hrange.start_nonneg hrange.start_le hv.start_nonneg hv.start_le⟩
  rw [h.meets_iff hrange, holdsPart]
  cases hnext : locks.lowerBound start with
  | none =>
    have hall := OrderedMap.lowerBound_eq_none hnext
    have hnone : ¬∃ r ∈ locks.entries, start ≤ r.1 ∧ r.1 < start + len := by
      rintro ⟨r, hr, hle, -⟩
      exact absurd (hall r hr) (not_lt.mpr hle)
    cases hlast : locks.last with
    | none =>
      refine ⟨false, rfl, ?_⟩
      simp [OrderedMap.last_eq_none hlast]
    | some i =>
      obtain ⟨hi, hmax⟩ := OrderedMap.last_eq_some hlast
      refine ⟨decide (start - i.1 < i.2), by simp [hsub hi], ?_⟩
      rw [h.reaches_iff hi (hall i hi) fun r hr _ => hmax r hr, decide_eq_true_eq]
      exact (or_iff_right hnone).symm
  | some j =>
    obtain ⟨hj, hstart, hmin⟩ := OrderedMap.lowerBound_eq_some hnext
    have hwithin : (∃ r ∈ locks.entries, start ≤ r.1 ∧ r.1 < start + len) ↔ j.1 - start < len := by
      constructor
      · rintro ⟨r, hr, hle, hlt⟩
        have := hmin r hr hle
        omega
      · intro hlt
        exact ⟨j, hj, hstart, by omega⟩
    rw [hwithin]
    cases hprev : locks.beforeLowerBound start with
    | none =>
      have hall := OrderedMap.beforeLowerBound_eq_none hprev
      refine ⟨decide (j.1 - start < len), by simp [hsub hj], ?_⟩
      rw [decide_eq_true_eq]
      refine (or_iff_left ?_).symm
      rintro ⟨r, hr, hlt, -⟩
      exact absurd (hall r hr) (not_le.mpr hlt)
    | some i =>
      obtain ⟨hi, hlt, hmax⟩ := OrderedMap.beforeLowerBound_eq_some hprev
      refine ⟨decide (j.1 - start < len) || decide (start - i.1 < i.2),
        by simp [hsub hj, hsub hi], ?_⟩
      rw [h.reaches_iff hi hlt hmax, Bool.or_eq_true, decide_eq_true_eq, decide_eq_true_eq]

end Neighbours

namespace ImplFileLock

variable (L : ImplFileLock)

def files : List ℕ :=
  L.first.map Prod.fst

def held : List (ℕ × ℤ × ℤ) :=
  L.first.flatMap fun i => i.2.locks.entries.map fun r => (i.1, r)

structure RangesDisjoint : Prop where
  nodup : L.files.Nodup
  valid : ∀ r ∈ L.held, ValidRange r.2
  disjoint : ∀ r ∈ L.held, ∀ s ∈ L.held, r ≠ s → Disjoint (bytesOf r.2) (bytesOf s.2)

variable {L}

lemma mem_held {file : ℕ} {range : ℤ × ℤ} :
    (file, range) ∈ L.held ↔ ∃ handle, (file, handle) ∈ L.first ∧ range ∈ handle.locks.entries := by
  simp only [held, List.mem_flatMap, List.mem_map, Prod.mk.injEq, Prod.exists]
  constructor
  · rintro ⟨file', handle, hmem, r, s, hr, rfl, rfl⟩
    exact ⟨handle, hmem, hr⟩
  · rintro ⟨handle, hmem, hr⟩
    exact ⟨file, handle, hmem, range.1, range.2, hr, rfl, rfl⟩

lemma exists_handle {file : ℕ} (h : file ∈ L.files) : ∃ handle, (file, handle) ∈ L.first := by
  simpa [files] using h

lemma RangesDisjoint.locks (h : L.RangesDisjoint) {i : ℕ × ImplFileHandle} (hi : i ∈ L.first) :
    DisjointLocks i.2.locks := by
  have hmem {r : ℤ × ℤ} (hr : r ∈ i.2.locks.entries) : (i.1, r) ∈ L.held :=
    mem_held.mpr ⟨i.2, hi, hr⟩
  refine ⟨fun r hr => h.valid _ (hmem hr), fun r hr s hs hne => ?_⟩
  exact h.disjoint _ (hmem hr) _ (hmem hs) fun heq => hne (Prod.mk.inj heq).2

lemma anyHoldsPart_spec {start len : ℤ} (hrange : ValidRange (start, len)) (mark : Bool) (file : ℕ)
    {handles : List (ℕ × ImplFileHandle)} (h : ∀ i ∈ handles, DisjointLocks i.2.locks) :
    ∃ locked, anyHoldsPart mark file start len handles = some locked ∧
      (locked = true ↔ ∃ i ∈ handles, (mark = true ∨ i.1 ≠ file) ∧
        ∃ r ∈ i.2.locks.entries, ¬Disjoint (bytesOf r) (bytesOf (start, len))) := by
  induction handles with
  | nil => exact ⟨false, rfl, by simp⟩
  | cons i rest ih =>
    obtain ⟨locked', hrest, hiff'⟩ := ih fun j hj => h j (List.mem_cons_of_mem i hj)
    rw [anyHoldsPart]
    by_cases hskip : mark = false ∧ i.1 = file
    · rw [if_pos (by simp [hskip])]
      refine ⟨locked', hrest, ?_⟩
      rw [hiff', List.exists_mem_cons_iff]
      refine (or_iff_right ?_).symm
      rintro ⟨hmark | hne, -⟩
      · rw [hskip.1] at hmark
        cases hmark
      · exact hne hskip.2
    · obtain ⟨locked, hi, hiff⟩ := holdsPart_spec (h i List.mem_cons_self) hrange
      have hlook : mark = true ∨ i.1 ≠ file := by
        cases mark <;> simp_all
      rw [if_neg (by simpa using hskip)]
      refine ⟨locked || locked', by simp [hi, hrest], ?_⟩
      rw [List.exists_mem_cons_iff, Bool.or_eq_true, hiff, hiff']
      simp only [hlook, true_and]

lemma mem_held_setLocks {file g : ℕ} {f : Locks → Locks} {r : ℤ × ℤ} :
    (g, r) ∈ (L.setLocks file f).held ↔ ∃ handle, (g, handle) ∈ L.first ∧
      r ∈ (if g = file then f handle.locks else handle.locks).entries := by
  rw [mem_held]
  constructor
  · rintro ⟨handle, hmem, hr⟩
    obtain ⟨i, hi, heq⟩ := List.mem_map.mp hmem
    split at heq
    case isTrue hfile =>
      obtain ⟨rfl, rfl⟩ := Prod.mk.inj heq
      exact ⟨i.2, hi, by rwa [if_pos hfile]⟩
    case isFalse hfile =>
      subst heq
      exact ⟨_, hi, by rwa [if_neg hfile]⟩
  · rintro ⟨handle, hmem, hr⟩
    split at hr
    case isTrue hfile =>
      refine ⟨{ handle with locks := f handle.locks }, List.mem_map.mpr ⟨_, hmem, ?_⟩, hr⟩
      simp [hfile]
    case isFalse hfile =>
      refine ⟨handle, List.mem_map.mpr ⟨_, hmem, ?_⟩, hr⟩
      simp [hfile]

lemma setLocks_files (file : ℕ) (f : Locks → Locks) : (L.setLocks file f).files = L.files := by
  simp only [files, setLocks, List.map_map]
  apply List.map_congr_left
  intro i _
  dsimp only [Function.comp]
  split <;> rfl

lemma RangesDisjoint.handle_eq (h : L.RangesDisjoint) {file : ℕ} {x y : ImplFileHandle}
    (hx : (file, x) ∈ L.first) (hy : (file, y) ∈ L.first) : x = y := by
  have hnodup := h.nodup
  exact (Prod.mk.inj (List.inj_on_of_nodup_map hnodup hx hy rfl)).2

lemma RangesDisjoint.locksOf_eq (h : L.RangesDisjoint) {file : ℕ} {handle : ImplFileHandle}
    (hmem : (file, handle) ∈ L.first) : L.locksOf file = handle.locks := by
  rw [locksOf]
  cases hfind : L.first.find? (·.1 = file) with
  | none =>
    have := List.find?_eq_none.mp hfind _ hmem
    simp at this
  | some i =>
    have hfile : i.1 = file := by simpa using List.find?_some hfind
    have hi : (file, i.2) ∈ L.first := hfile ▸ List.mem_of_find?_eq_some hfind
    rw [Option.map_some, Option.getD_some, h.handle_eq hi hmem]

section Requests

variable (h : L.RangesDisjoint) {file : ℕ} (hfile : file ∈ L.files) {start len : ℤ}
  (hrange : ValidRange (start, len))
include h hfile hrange

lemma lockFile_spec :
    ∃ res L', L.lockFile file start len true = some (res, L') ∧ L'.files = L.files ∧
      (res = 0 ↔ ∀ r ∈ L.held, Disjoint (bytesOf r.2) (bytesOf (start, len))) ∧
      ∀ r, r ∈ L'.held ↔ r ∈ L.held ∨ res = 0 ∧ r = (file, start, len) := by
  have hvalid : ¬(start < 0 ∨ len ≤ 0) := by
    have := hrange.start_nonneg
    have := hrange.len_pos
    dsimp only at *
    omega
  obtain ⟨locked, hloop, hiff⟩ := anyHoldsPart_spec hrange true file fun i hi => h.locks hi
  have hfree : locked = false ↔ ∀ r ∈ L.held, Disjoint (bytesOf r.2) (bytesOf (start, len)) := by
    rw [← Bool.not_eq_true, hiff]
    push Not
    constructor
    · rintro hall ⟨g, r⟩ hr
      obtain ⟨handle, hmem, hr⟩ := mem_held.mp hr
      exact hall (g, handle) hmem (.inl rfl) r hr
    · intro hall i hi _ r hr
      exact hall (i.1, r) (mem_held.mpr ⟨i.2, hi, hr⟩)
  rw [lockFile, if_neg hvalid, hloop]
  cases hlocked : locked with
  | true =>
    refine ⟨-EACCES, L, rfl, rfl, ?_, fun r => ?_⟩
    · rw [← hfree, hlocked]
      decide
    · exact ⟨.inl, fun h => h.resolve_right fun h => absurd h.1 (by decide)⟩
  | false =>
    have hdisjoint := hfree.mp hlocked
    refine ⟨0, L.setLocks file (·.insert start len), rfl, setLocks_files _ _,
      ⟨fun _ => hdisjoint, fun _ => rfl⟩, ?_⟩
    rintro ⟨g, r⟩
    rw [mem_held_setLocks, mem_held]
    by_cases hg : g = file
    · subst hg
      have hother {handle : ImplFileHandle} (hmem : (g, handle) ∈ L.first) :
          ∀ x ∈ handle.locks.entries, x.1 ≠ start := by
        intro x hx heq
        have hx' : (g, x) ∈ L.held := mem_held.mpr ⟨handle, hmem, hx⟩
        have hlen := (h.valid _ hx').len_pos
        have hlen' : 1 ≤ len := hrange.len_pos
        rcases (disjoint_iff (h.valid _ hx') hrange).mp (hdisjoint _ hx') with hle | hle
        · dsimp only at hle hlen
          omega
        · dsimp only at hle
          omega
      simp only [if_true, OrderedMap.mem_insert, Prod.mk.injEq, true_and]
      constructor
      · rintro ⟨handle, hmem, hr | hr⟩
        · exact .inr hr
        · exact .inl ⟨handle, hmem, hr.1⟩
      · rintro (⟨handle, hmem, hr⟩ | hr)
        · exact ⟨handle, hmem, .inr ⟨hr, hother hmem r hr⟩⟩
        · obtain ⟨handle, hmem⟩ := exists_handle hfile
          exact ⟨handle, hmem, .inl hr⟩
    · simp [hg]

lemma unlockFile_spec :
    ∃ res L', L.unlockFile file start len = (res, L') ∧ L'.files = L.files ∧
      (res = 0 ↔ (file, start, len) ∈ L.held) ∧
      ∀ r, r ∈ L'.held ↔ r ∈ L.held ∧ ¬(res = 0 ∧ r = (file, start, len)) := by
  have hstart : 0 ≤ start := hrange.start_nonneg
  have hlen : 1 ≤ len := hrange.len_pos
  obtain ⟨handle, hmem⟩ := exists_handle hfile
  have hheld : (file, start, len) ∈ L.held ↔ handle.locks.find start = some len := by
    rw [mem_held, OrderedMap.find_eq_some]
    constructor
    · rintro ⟨handle', hmem', hr⟩
      rwa [h.handle_eq hmem hmem']
    · intro hr
      exact ⟨handle, hmem, hr⟩
  rw [unlockFile, if_neg (by omega), if_neg (by omega), h.locksOf_eq hmem]
  by_cases hfind : handle.locks.find start = some len
  · rw [if_pos hfind]
    refine ⟨0, _, rfl, setLocks_files _ _, ⟨fun _ => hheld.mpr hfind, fun _ => rfl⟩, ?_⟩
    rintro ⟨g, r⟩
    rw [mem_held_setLocks, mem_held]
    by_cases hg : g = file
    · subst hg
      have hkey {handle' : ImplFileHandle} (hmem' : (g, handle') ∈ L.first)
          (hr : r ∈ handle'.locks.entries) : r.1 = start ↔ r = (start, len) := by
        constructor
        · intro heq
          rw [h.handle_eq hmem' hmem] at hr
          exact OrderedMap.eq_of_key hr (OrderedMap.find_eq_some.mp hfind) heq
        · rintro rfl
          rfl
      simp only [if_true, OrderedMap.mem_erase, Prod.mk.injEq, true_and]
      constructor
      · rintro ⟨handle', hmem', hr, hne⟩
        exact ⟨⟨handle', hmem', hr⟩, fun heq => hne ((hkey hmem' hr).mpr heq)⟩
      · rintro ⟨⟨handle', hmem', hr⟩, hne⟩
        exact ⟨handle', hmem', hr, fun heq => hne ((hkey hmem' hr).mp heq)⟩
    · simp [hg]
  · rw [if_neg hfind]
    refine ⟨-EACCES, L, rfl, rfl, ?_, fun r => ?_⟩
    · rw [hheld]
      exact ⟨fun hres => absurd hres (by decide), fun h => absurd h hfind⟩
    · exact ⟨fun hr => ⟨hr, fun hres => absurd hres.1 (by decide)⟩, fun hr => hr.1⟩

end Requests

end ImplFileLock

inductive RangeCall
  | openFile (file : ℕ) (is_dir_ : Bool) (shared_mode_ : UInt32)
  | closeFile (file : ℕ)
  | lockFile (file : ℕ) (start len : ℤ)
  | unlockFile (file : ℕ) (start len : ℤ)

namespace RangeCall

def Valid (L : ImplFileLock) : RangeCall → Prop
  | openFile file _ _ => file ∉ L.files
  | closeFile file => file ∈ L.files
  | lockFile file start len => file ∈ L.files ∧ ValidRange (start, len)
  | unlockFile file start len => file ∈ L.files ∧ ValidRange (start, len)

def perform (L : ImplFileLock) : RangeCall → Option (ℤ × ImplFileLock)
  | openFile file is_dir_ shared_mode_ =>
    pure (0, L.addFileUnlocked file ⟨is_dir_, shared_mode_, .empty⟩)
  | closeFile file => pure (0, L.unlinkFile file)
  | lockFile file start len => L.lockFile file start len true
  | unlockFile file start len => pure (L.unlockFile file start len)

end RangeCall

inductive ReachedRanges : ImplFileLock → Prop
  | fresh (name_ : Bytes) : ReachedRanges ⟨name_, []⟩
  | step {L L' : ImplFileLock} {c : RangeCall} {res : ℤ} : ReachedRanges L → c.Valid L →
      c.perform L = some (res, L') → ReachedRanges L'

namespace ImplFileLock

variable {L L' : ImplFileLock}

lemma addFileUnlocked_held (file : ℕ) (is_dir_ : Bool) (shared_mode_ : UInt32) :
    (L.addFileUnlocked file ⟨is_dir_, shared_mode_, .empty⟩).held = L.held := by
  simp [held, addFileUnlocked, OrderedMap.empty]

lemma mem_held_unlinkFile {file : ℕ} {r : ℕ × ℤ × ℤ} (hr : r ∈ (L.unlinkFile file).held) :
    r ∈ L.held := by
  obtain ⟨g, r⟩ := r
  obtain ⟨handle, hmem, hr⟩ := mem_held.mp hr
  exact mem_held.mpr ⟨handle, (List.mem_filter.mp hmem).1, hr⟩

lemma RangesDisjoint.insert (h : L.RangesDisjoint) (hfiles : L'.files = L.files) {r : ℕ × ℤ × ℤ}
    (hvalid : ValidRange r.2) (hfree : ∀ s ∈ L.held, Disjoint (bytesOf s.2) (bytesOf r.2))
    (hheld : ∀ s ∈ L'.held, s ∈ L.held ∨ s = r) : L'.RangesDisjoint where
  nodup := hfiles ▸ h.nodup
  valid s hs := by
    rcases hheld s hs with hs | rfl
    · exact h.valid s hs
    · exact hvalid
  disjoint s hs t ht hne := by
    rcases hheld s hs with hs | rfl
    · rcases hheld t ht with ht | rfl
      · exact h.disjoint s hs t ht hne
      · exact hfree s hs
    · rcases hheld t ht with ht | rfl
      · exact (hfree t ht).symm
      · exact absurd rfl hne

lemma RangesDisjoint.mono (h : L.RangesDisjoint) (hnodup : L'.files.Nodup)
    (hheld : ∀ s ∈ L'.held, s ∈ L.held) : L'.RangesDisjoint where
  nodup := hnodup
  valid s hs := h.valid s (hheld s hs)
  disjoint s hs t ht hne := h.disjoint s (hheld s hs) t (hheld t ht) hne

lemma RangesDisjoint.step (h : L.RangesDisjoint) {call : RangeCall} {res : ℤ}
    (hvalid : call.Valid L) (hcall : call.perform L = some (res, L')) : L'.RangesDisjoint := by
  cases call with
  | openFile file is_dir_ shared_mode_ =>
    obtain ⟨-, rfl⟩ := Prod.mk.inj (Option.some.inj hcall)
    refine h.mono (List.nodup_cons.mpr ⟨hvalid, h.nodup⟩) fun s hs => ?_
    rwa [addFileUnlocked_held] at hs
  | closeFile file =>
    obtain ⟨-, rfl⟩ := Prod.mk.inj (Option.some.inj hcall)
    refine h.mono ?_ fun s hs => mem_held_unlinkFile hs
    exact h.nodup.sublist (List.filter_sublist.map Prod.fst)
  | lockFile file start len =>
    obtain ⟨res', L'', he, hfiles, hfree, hheld⟩ := lockFile_spec h hvalid.1 hvalid.2
    obtain ⟨rfl, rfl⟩ := Prod.mk.inj (Option.some.inj (he.symm.trans hcall))
    by_cases hres : res' = 0
    · refine h.insert (r := (file, start, len)) hfiles hvalid.2 (hfree.mp hres) fun s hs => ?_
      exact ((hheld s).mp hs).imp_right And.right
    · refine h.mono (hfiles ▸ h.nodup) fun s hs => ?_
      exact ((hheld s).mp hs).resolve_right fun hs => hres hs.1
  | unlockFile file start len =>
    obtain ⟨res', L'', he, hfiles, -, hheld⟩ := unlockFile_spec h hvalid.1 hvalid.2
    obtain ⟨rfl, rfl⟩ := Prod.mk.inj (he.symm.trans (Option.some.inj hcall))
    exact h.mono (hfiles ▸ h.nodup) fun s hs => ((hheld s).mp hs).1

lemma reached_rangesDisjoint (h : ReachedRanges L) : L.RangesDisjoint := by
  induction h with
  | fresh name_ => exact ⟨.nil, by simp [held], by simp [held]⟩
  | step _ hvalid hcall ih => exact ih.step hvalid hcall

/-- In every state reached the ranges are disjoint, no request overflows, and a range is granted, or
given back, just when it should be. -/
theorem range_locks (h : ReachedRanges L) :
    (∀ r ∈ L.held, ∀ s ∈ L.held, r ≠ s → Disjoint (bytesOf r.2) (bytesOf s.2)) ∧
    ∀ file ∈ L.files, ∀ start len, ValidRange (start, len) →
      (∃ res L', L.lockFile file start len true = some (res, L') ∧
        (res = 0 ↔ ∀ r ∈ L.held, Disjoint (bytesOf r.2) (bytesOf (start, len))) ∧
        ∀ r, r ∈ L'.held ↔ r ∈ L.held ∨ res = 0 ∧ r = (file, start, len)) ∧
      ∃ res L', L.unlockFile file start len = (res, L') ∧
        (res = 0 ↔ (file, start, len) ∈ L.held) ∧
        ∀ r, r ∈ L'.held ↔ r ∈ L.held ∧ ¬(res = 0 ∧ r = (file, start, len)) := by
  have hdisjoint := reached_rangesDisjoint h
  refine ⟨hdisjoint.disjoint, fun file hfile start len hrange => ⟨?_, ?_⟩⟩
  · obtain ⟨res, L', he, -, hfree, hheld⟩ := lockFile_spec hdisjoint hfile hrange
    exact ⟨res, L', he, hfree, hheld⟩
  · obtain ⟨res, L', he, -, hfree, hheld⟩ := unlockFile_spec hdisjoint hfile hrange
    exact ⟨res, L', he, hfree, hheld⟩

def twoHandles : ImplFileLock where
  name_ := [47, 97]
  first := [(2, ⟨false, 3, OrderedMap.empty.insert 10 10⟩),
    (1, ⟨false, 3, OrderedMap.empty.insert LONGLONG_MAX 1⟩)]

lemma reached_twoHandles : ReachedRanges twoHandles := by
  have hopen : ReachedRanges ⟨[47, 97], [(1, ⟨false, 3, .empty⟩)]⟩ :=
    .step (c := .openFile 1 false 3) (.fresh [47, 97]) List.not_mem_nil rfl
  have hlast : ReachedRanges ⟨[47, 97], [(1, ⟨false, 3, OrderedMap.empty.insert LONGLONG_MAX 1⟩)]⟩ :=
    .step (c := .lockFile 1 LONGLONG_MAX 1) hopen
      ⟨by decide, by decide, by decide, by decide, by decide⟩ rfl
  have hsecond : ReachedRanges ⟨[47, 97], [(2, ⟨false, 3, .empty⟩),
      (1, ⟨false, 3, OrderedMap.empty.insert LONGLONG_MAX 1⟩)]⟩ :=
    .step (c := .openFile 2 false 3) hlast (by change 2 ∉ [1]; decide) rfl
  exact .step (c := .lockFile 2 10 10) hsecond
    ⟨by decide, by decide, by decide, by decide, by decide⟩ rfl

theorem range_locks_twoHandles :
    (∀ r ∈ twoHandles.held, ∀ s ∈ twoHandles.held, r ≠ s →
        Disjoint (bytesOf r.2) (bytesOf s.2)) ∧
      (∃ res L', twoHandles.lockFile 1 20 LONGLONG_MAX true = some (res, L') ∧
        (res = 0 ↔ ∀ r ∈ twoHandles.held, Disjoint (bytesOf r.2) (bytesOf (20, LONGLONG_MAX))) ∧
        ∀ r, r ∈ L'.held ↔ r ∈ twoHandles.held ∨ res = 0 ∧ r = (1, 20, LONGLONG_MAX)) ∧
      ∃ res L', twoHandles.unlockFile 2 10 10 = (res, L') ∧
        (res = 0 ↔ (2, 10, 10) ∈ twoHandles.held) ∧
        ∀ r, r ∈ L'.held ↔ r ∈ twoHandles.held ∧ ¬(res = 0 ∧ r = (2, 10, 10)) := by
  obtain ⟨hdisjoint, hrequests⟩ := range_locks reached_twoHandles
  exact ⟨hdisjoint,
    (hrequests 1 (by decide) 20 LONGLONG_MAX ⟨by decide, by decide, by decide, by decide⟩).1,
    (hrequests 2 (by decide) 10 10 ⟨by decide, by decide, by decide, by decide⟩).2⟩

end ImplFileLock

end EncFS.Fuse4Win
