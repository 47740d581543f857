import EncFS.MACFileIO.Audit
import EncFS.MemoryPool.Layers
import Mathlib.Algebra.Order.BigOperators.Group.List

set_option autoImplicit false

namespace EncFS

/-- The pool with the blocks that the calls of one file hold, those that others hold, and the state
of the file. -/
structure PoolWorld (σ : Type) where
  pool : MemoryPool
  mine : List MemBlock
  others : List MemBlock
  file : σ

namespace PoolWorld

variable {σ : Type}

def taken (w : PoolWorld σ) : List MemBlock := w.mine ++ w.others

def Sound (w : PoolWorld σ) : Prop := w.pool.Sound w.taken

def allocate (m : Malloc) (size : ℕ) (w : PoolWorld σ) : MemBlock × PoolWorld σ :=
  let r := w.pool.allocate m w.taken size
  (r.1, { w with pool := r.2, mine := r.1 :: w.mine })

def release (mb : MemBlock) (w : PoolWorld σ) : PoolWorld σ :=
  { w with pool := w.pool.release mb, mine := w.mine.erase mb }

def store (mb : MemBlock) (bytes : Bytes) (w : PoolWorld σ) : PoolWorld σ :=
  { w with pool := w.pool.store mb bytes }

/-- What other threads do with the pool in the meantime. -/
inductive Other (m : Malloc) : PoolWorld σ → PoolWorld σ → Prop
  | allocate (w : PoolWorld σ) (size : ℕ) :
      Other m w { w with
        pool := (w.pool.allocate m w.taken size).2
        others := (w.pool.allocate m w.taken size).1 :: w.others }
  | store (w : PoolWorld σ) {mb : MemBlock} (bytes : Bytes) : mb ∈ w.others →
      Other m w { w with pool := w.pool.store mb bytes }
  | release (w : PoolWorld σ) {mb : MemBlock} : mb ∈ w.others →
      Other m w { w with pool := w.pool.release mb, others := w.others.erase mb }

lemma Sound.allocate (m : Malloc) {w : PoolWorld σ} (h : w.Sound) (size : ℕ) :
    (w.allocate m size).2.Sound :=
  MemoryPool.Sound.allocate m h size

lemma Sound.store {w : PoolWorld σ} (h : w.Sound) {mb : MemBlock} (hmb : mb ∈ w.mine)
    (bytes : Bytes) : (w.store mb bytes).Sound :=
  MemoryPool.Sound.store h (List.mem_append_left _ hmb) bytes

lemma Sound.release {w : PoolWorld σ} (h : w.Sound) {mb : MemBlock} (hmb : mb ∈ w.mine) :
    (w.release mb).Sound := by
  have hrelease := MemoryPool.Sound.release h (List.mem_append_left w.others hmb)
  rwa [taken, List.erase_append_left _ hmb] at hrelease

lemma Sound.other {m : Malloc} {w w' : PoolWorld σ} (h : w.Sound) (ho : Other m w w') :
    w'.Sound := by
  cases ho with
  | allocate size =>
    exact (MemoryPool.Sound.allocate m h size).perm List.perm_middle.symm
  | store bytes hmb => exact MemoryPool.Sound.store h (List.mem_append_right _ hmb) bytes
  | release hmb =>
    refine (MemoryPool.Sound.release h (List.mem_append_right w.mine hmb)).perm ?_
    refine ((@List.perm_append_comm _ w.mine w.others).erase _).trans ?_
    rw [List.erase_append_left _ hmb]
    exact List.perm_append_comm

end PoolWorld

namespace Borrowing

variable {σ α γ : Type}

def next (m : Malloc) : Pooled σ α → PoolWorld σ → Option (Pooled σ α) × PoolWorld σ
  | ret _, w => (none, w)
  | raise _ _, w => (none, w)
  | call _ x k, w =>
    match x w.file with
    | .ok c s => (some (k c), { w with file := s })
    | .error _ s => (none, { w with file := s })
  | attempt _ x k, w =>
    match x w.file with
    | .ok c s => (some (k c), { w with file := s })
    | .error _ s => (none, { w with file := s })
  | take size k, w =>
    let r := w.allocate m size
    (some (k r.1), r.2)
  | write b bytes k, w => (some k, w.store b bytes)
  | give b k, w => (some k, w.release b)

def steps (m : Malloc) :
    ℕ → Option (Pooled σ α) → PoolWorld σ → Option (Pooled σ α) × PoolWorld σ
  | 0, c, w => (c, w)
  | _ + 1, none, w => (none, w)
  | n + 1, some p, w => steps m n (p.next m w).1 (p.next m w).2

lemma next_denotes {m : Malloc} {g : α → γ} {p : Pooled σ α} {x : Action σ γ} {w : PoolWorld σ}
    (h : p.Denotes g x) :
    (∃ q y, (p.next m w).1 = some q ∧ q.Denotes g y ∧ x w.file = y (p.next m w).2.file) ∨
      (p.next m w).1 = none ∧ (p.next m w).2.file = finalState x w.file := by
  cases p with
  | ret a =>
    cases h
    exact .inr ⟨rfl, rfl⟩
  | raise place e =>
    cases h
    exact .inr ⟨rfl, rfl⟩
  | call place y k =>
    obtain ⟨f, rfl, hf⟩ := h
    rw [next]
    cases hy : y w.file with
    | ok c s => exact .inl ⟨k c, f c, rfl, hf c, Action.bind_ok hy⟩
    | error e s =>
      refine .inr ⟨rfl, ?_⟩
      rw [finalState, Action.bind_error hy]
  | attempt place y k =>
    obtain ⟨f, rfl, hf⟩ := h
    rw [next]
    cases hy : y w.file with
    | ok c s => exact .inl ⟨k c, f c, rfl, hf c, Action.bind_ok hy⟩
    | error e s =>
      refine .inr ⟨rfl, ?_⟩
      rw [finalState, Action.bind_error hy]
  | take size k => exact .inl ⟨_, x, rfl, h _, rfl⟩
  | write b bytes k => exact .inl ⟨k, x, rfl, h, rfl⟩
  | give b k => exact .inl ⟨k, x, rfl, h, rfl⟩

lemma steps_none (m : Malloc) (n : ℕ) (w : PoolWorld σ) :
    steps m n (none : Option (Pooled σ α)) w = (none, w) := by
  cases n <;> rfl

lemma steps_denotes {m : Malloc} {g : α → γ} (n : ℕ) {p : Pooled σ α} {x : Action σ γ}
    {w : PoolWorld σ} (h : p.Denotes g x) (hend : (steps m n (some p) w).1 = none) :
    (steps m n (some p) w).2.file = finalState x w.file := by
  induction n generalizing p x w with
  | zero => cases hend
  | succ n ih =>
    rw [steps] at hend ⊢
    obtain ⟨q, y, hq, hy, hsame⟩ | ⟨hnone, hfile⟩ := next_denotes (m := m) (w := w) h
    · rw [hq] at hend ⊢
      rw [ih hy hend, finalState, finalState, hsame]
    · rw [hnone, steps_none]
      exact hfile

def Held (place : List Site) : Prop :=
  ∃ s ∈ place, s.Holds

/-- An error is raised at a place where a layer has a block of its own, or there are no random bytes
for a block that `MACFileIO` writes. -/
def Loses : Pooled σ α → PoolWorld σ → Prop
  | raise place _, _ => Held place
  | call place x _, w => Held place ∧ ∃ e s, x w.file = .error e s
  | attempt place x _, w =>
    (Held place ∧ ∃ e s, x w.file = .error e s) ∨ ∃ s, x w.file = .ok none s
  | _, _ => False

end Borrowing

def PooledFile.perform {σ : Type} (F : PooledFile σ) : Operation → Pooled σ PUnit
  | .request (.read offset dataLen) => do
    let _ ← F.read offset dataLen
    pure ⟨⟩
  | .request (.write offset data) => do
    let _ ← F.write offset data
    pure ⟨⟩
  | .truncate size => do
    let _ ← F.truncate size
    pure ⟨⟩

def FileIO.perform {σ : Type} (F : FileIO σ) : Operation → Action σ PUnit
  | .request (.read offset dataLen) => do
    let _ ← F.read offset dataLen
    pure ⟨⟩
  | .request (.write offset data) => do
    let _ ← F.write offset data
    pure ⟨⟩
  | .truncate size => do
    let _ ← F.truncate size
    pure ⟨⟩

lemma PooledFile.perform_denotes {σ : Type} (F : PooledFile σ) (op : Operation) :
    (F.perform op).Denotes id (F.plain.perform op) := by
  cases op with
  | request q =>
    cases q with
    | read offset n => exact .bind (F.read_denotes offset n) fun _ => .pure _
    | write offset data => exact .bind (F.write_denotes offset data) fun _ => .pure _
  | truncate size => exact .bind (F.truncate_denotes size) fun _ => .pure _

lemma PooledFile.perform_file {σ : Type} (F : PooledFile σ) {m : Malloc} (op : Operation) (n : ℕ)
    {w : PoolWorld σ} (hend : (Borrowing.steps m n (some (F.perform op)) w).1 = none) :
    (Borrowing.steps m n (some (F.perform op)) w).2.file =
      finalState (F.plain.perform op) w.file :=
  Borrowing.steps_denotes n (F.perform_denotes op) hend

/-- What is reached by calls of `F` that hold nothing at first, with the call that is going on. The
flag tells that a step has been one that loses a block. -/
inductive Reached {σ : Type} (m : Malloc) (F : PooledFile σ) :
    Bool → Option (Pooled σ PUnit) → PoolWorld σ → Prop
  | start {w : PoolWorld σ} : w.mine = [] → w.Sound → Reached m F false none w
  | called {lost : Bool} {w : PoolWorld σ} (op : Operation) : Reached m F lost none w →
      Reached m F lost (some (F.perform op)) w
  | kept {lost : Bool} {p : Pooled σ PUnit} {w : PoolWorld σ} : Reached m F lost (some p) w →
      ¬p.Loses w → Reached m F lost (p.next m w).1 (p.next m w).2
  | lost {lost : Bool} {p : Pooled σ PUnit} {w : PoolWorld σ} : Reached m F lost (some p) w →
      p.Loses w → Reached m F true (p.next m w).1 (p.next m w).2
  | other {lost : Bool} {c : Option (Pooled σ PUnit)} {w w' : PoolWorld σ} : Reached m F lost c w →
      PoolWorld.Other m w w' → Reached m F lost c w'

namespace Borrowing

variable {σ α γ : Type}

def UsesMine : Pooled σ α → PoolWorld σ → Prop
  | write b _ _, w => b ∈ w.mine
  | give b _, w => b ∈ w.mine
  | _, _ => True

def Bound (lost : Bool) : Option (Pooled σ α) → PoolWorld σ → Prop
  | some p, w => p.Tidy Site.Holds lost w.mine fun _ lost' h => lost' = true ↔ h ≠ 0
  | none, w => lost = true ↔ (w.mine : Multiset MemBlock) ≠ 0

lemma usesMine_of_bound {lost : Bool} {p : Pooled σ α} {w : PoolWorld σ}
    (h : Bound lost (some p) w) : p.UsesMine w := by
  cases p with
  | write b bytes k => exact h.1
  | give b k => exact h.1
  | _ => trivial

section

variable {m : Malloc} {lost : Bool} {w : PoolWorld σ} {place : List Site}

lemma bound_left (h : Agrees Site.Holds lost (w.mine : Multiset MemBlock) place)
    (hnot : ¬Held place) (s : σ) :
    Bound lost (none : Option (Pooled σ α)) { w with file := s } := by
  cases lost with
  | true => exact iff_of_true rfl h
  | false => exact iff_of_false (by decide) fun hmine => hnot (h.mpr hmine)

lemma bound_lost (h : Agrees Site.Holds lost (w.mine : Multiset MemBlock) place)
    (hheld : Held place) (s : σ) : Bound true (none : Option (Pooled σ α)) { w with file := s } := by
  cases lost with
  | true => exact iff_of_true rfl h
  | false => exact iff_of_true rfl (h.mp hheld)

lemma bound_kept {p : Pooled σ α} (h : Bound lost (some p) w) (hkept : ¬p.Loses w) :
    Bound lost (p.next m w).1 (p.next m w).2 := by
  cases p with
  | ret a => exact h
  | raise place e => exact bound_left h hkept w.file
  | call place x k =>
    rw [next]
    cases hx : x w.file with
    | ok c s => exact h.2 c
    | error e s => exact bound_left h.1 (fun hheld => hkept ⟨hheld, e, s, hx⟩) s
  | attempt place x k =>
    rw [next]
    cases hx : x w.file with
    | ok c s =>
      cases c with
      | some c => exact h.2.2.1 c
      | none => exact absurd (.inr ⟨s, hx⟩) hkept
    | error e s => exact bound_left h.1 (fun hheld => hkept (.inl ⟨hheld, e, s, hx⟩)) s
  | take size k => exact h _
  | write b bytes k => exact h.2
  | give b k =>
    have hgive := h.2
    rw [Multiset.coe_erase] at hgive
    exact hgive

lemma bound_loses {p : Pooled σ α} (h : Bound lost (some p) w) (hloses : p.Loses w) :
    Bound true (p.next m w).1 (p.next m w).2 := by
  cases p with
  | raise place e => exact bound_lost h hloses w.file
  | call place x k =>
    obtain ⟨hheld, e, s, hx⟩ := hloses
    rw [next, hx]
    exact bound_lost h.1 hheld s
  | attempt place x k =>
    obtain ⟨hheld, e, s, hx⟩ | ⟨s, hx⟩ := hloses
    · rw [next, hx]
      exact bound_lost h.1 hheld s
    · rw [next, hx]
      exact h.2.2.2
  | _ => exact absurd hloses id

lemma sound_next {p : Pooled σ α} (h : Bound lost (some p) w) (hs : w.Sound) :
    (p.next m w).2.Sound := by
  cases p with
  | ret a => exact hs
  | raise place e => exact hs
  | call place x k =>
    rw [next]
    cases x w.file <;> exact hs
  | attempt place x k =>
    rw [next]
    cases x w.file <;> exact hs
  | take size k => exact hs.allocate m size
  | write b bytes k => exact hs.store h.1 bytes
  | give b k => exact hs.release h.1

end

lemma bound_call {lost : Bool} {w : PoolWorld σ} {p : Pooled σ α} (hp : p.Keeps Site.Holds)
    (h : Bound lost (none : Option (Pooled σ α)) w) : Bound lost (some p) w := by
  refine (hp lost w.mine h).mono ?_
  rintro a lost' h' ⟨h'', hsame, hlost⟩
  obtain rfl : h' = h'' := hsame
  exact hlost

end Borrowing

lemma PooledFile.perform_keeps {σ : Type} (F : PooledFile σ) (op : Operation) :
    (F.perform op).Keeps Site.Holds := by
  cases op with
  | request q =>
    cases q with
    | read offset n => exact .bind (F.read_keeps offset n) fun _ => .pure _ rfl
    | write offset data => exact .bind (F.write_keeps offset data) fun _ => .pure _ rfl
  | truncate size => exact .bind (F.truncate_keeps size) fun _ => .pure _ rfl

lemma Reached.bound {σ : Type} {m : Malloc} {F : PooledFile σ} {lost : Bool}
    {c : Option (Pooled σ PUnit)} {w : PoolWorld σ} (h : Reached m F lost c w) :
    w.Sound ∧ Borrowing.Bound lost c w := by
  induction h with
  | start hmine hs => exact ⟨hs, iff_of_false (by decide) fun hne => hne (hmine ▸ rfl)⟩
  | called op _ ih => exact ⟨ih.1, Borrowing.bound_call (F.perform_keeps op) ih.2⟩
  | kept _ hkept ih => exact ⟨Borrowing.sound_next ih.2 ih.1, Borrowing.bound_kept ih.2 hkept⟩
  | lost _ hloses ih => exact ⟨Borrowing.sound_next ih.2 ih.1, Borrowing.bound_loses ih.2 hloses⟩
  | @other lost c w w' _ ho ih =>
    refine ⟨ih.1.other ho, ?_⟩
    cases c <;> cases ho <;> exact ih.2

/-- Whatever is done, no two blocks share memory and only what is held is used. When a call has
ended, all that was taken is back in the pool just when no step has lost a block. -/
theorem blocks_returned {σ : Type} (L : Layer σ) {m : Malloc} {lost : Bool}
    {c : Option (Pooled σ PUnit)} {w : PoolWorld σ} (h : Reached m L.file lost c w) :
    w.Sound ∧ (∀ p, c = some p → p.UsesMine w) ∧ (c = none → (w.mine = [] ↔ lost = false)) := by
  obtain ⟨hs, hbound⟩ := h.bound
  refine ⟨hs, ?_, ?_⟩
  · rintro p rfl
    exact Borrowing.usesMine_of_bound hbound
  · rintro rfl
    have hlost : lost = true ↔ ¬w.mine = [] :=
      hbound.trans (not_congr (Multiset.coe_eq_zero w.mine))
    rw [← not_iff_not, ← hlost, Bool.not_eq_false]

def bump : Malloc where
  address live _ := (live.map fun b => b.data + b.size + 1).sum
  fresh {live b} size hb := by
    have hle : b.data + b.size + 1 ≤ (live.map fun b => b.data + b.size + 1).sum :=
      List.single_le_sum (fun _ _ => Nat.zero_le _) _ (List.mem_map_of_mem hb)
    refine ⟨?_, fun a ha hb => ?_⟩
    · dsimp only
      omega
    · have := ha.1
      have := hb.2
      dsimp only at *
      omega

def emptyPool : MemoryPool := ⟨[], [], fun _ => 0⟩

def unused {σ : Type} (file : σ) : PoolWorld σ := ⟨emptyPool, [], [], file⟩

lemma unused_sound {σ : Type} (file : σ) : (unused file).Sound :=
  ⟨.nil, .nil, fun _ h => absurd h List.not_mem_nil, fun _ h => absurd h List.not_mem_nil⟩

def maskLayer : Layer (Cached (MACFile Bytes)) := .mac MACFileIO.maskTags (.base plainFile)

lemma Reached.steps {σ : Type} {m : Malloc} {F : PooledFile σ} (n : ℕ) {lost : Bool}
    {c : Option (Pooled σ PUnit)} {w : PoolWorld σ} (h : Reached m F lost c w) :
    ∃ lost', Reached m F lost' (Borrowing.steps m n c w).1 (Borrowing.steps m n c w).2 := by
  induction n generalizing lost c w with
  | zero => exact ⟨lost, h⟩
  | succ n ih =>
    cases c with
    | none => exact ⟨lost, h⟩
    | some p =>
      by_cases hloses : p.Loses w
      · exact ih (.lost h hloses)
      · exact ih (.kept h hloses)

def forged : PoolWorld (Cached (MACFile Bytes)) := unused ⟨.empty, ⟨[9, 9, 9, 9], 0⟩⟩

theorem blocks_returned_maskLayer :
    (∃ lost w, Reached bump maskLayer.file lost none w ∧
        w.file = finalState (maskLayer.file.plain.perform (.request (.read 0 1))) forged.file ∧
        w.mine = [] ∧ lost = false) ∧
      ∃ lost w, Reached bump maskLayer.file lost none w ∧
        w.file = finalState (maskLayer.file.plain.perform (.request (.read 1 1))) forged.file ∧
        w.mine ≠ [] ∧ lost = true := by
  have hstart : Reached bump maskLayer.file false none forged := .start rfl (unused_sound _)
  constructor
  · obtain ⟨lost, h⟩ := (hstart.called (.request (.read 0 1))).steps 40
    have hmine : (Borrowing.steps bump 40
        (some (maskLayer.file.perform (.request (.read 0 1)))) forged).2.mine = [] := by decide
    exact ⟨lost, _, h, maskLayer.file.perform_file _ 40 rfl, hmine,
      ((blocks_returned maskLayer h).2.2 rfl).mp hmine⟩
  · obtain ⟨lost, h⟩ := (hstart.called (.request (.read 1 1))).steps 40
    have hmine : (Borrowing.steps bump 40
        (some (maskLayer.file.perform (.request (.read 1 1)))) forged).2.mine ≠ [] := by decide
    refine ⟨lost, _, h, maskLayer.file.perform_file _ 40 rfl, hmine, ?_⟩
    have hended := (blocks_returned maskLayer h).2.2 rfl
    exact Bool.not_eq_false _ ▸ fun hlost => hmine (hended.mpr hlost)

def lateSource : RandomSource where
  randomize i n := if i = 0 then none else some (List.replicate n 1)
  randomize_length {i n buf} h := by
    split at h
    · cases h
    · rw [← Option.some.inj h, List.length_replicate]
  not_null i := ⟨i + 1, Nat.le_succ i, rfl⟩

def lateLayer : Layer (Cached (MACFile Bytes)) :=
  .mac { MACFileIO.maskTags with random := lateSource } (.base plainFile)

theorem not_blocks_returned :
    (∃ lost w, Reached bump maskLayer.file lost none w ∧ w.mine ≠ []) ∧
      ∃ lost w, Reached bump lateLayer.file lost none w ∧ w.mine ≠ [] := by
  constructor
  · have hstart : Reached bump maskLayer.file false none forged := .start rfl (unused_sound _)
    obtain ⟨lost, h⟩ := (hstart.called (.request (.read 1 1))).steps 40
    exact ⟨lost, _, h, by decide⟩
  · have hstart : Reached bump lateLayer.file false none (unused ⟨.empty, ⟨[], 0⟩⟩) :=
      .start rfl (unused_sound _)
    obtain ⟨lost, h⟩ := (hstart.called (.request (.write 0 [1, 2]))).steps 40
    exact ⟨lost, _, h, by decide⟩

end EncFS
