import Mathlib.Data.Set.Card
import Mathlib.Tactic.Lemma

/-! Condition variables over an event that is reset by hand. A section on `waiters_count_lock_` is one
step, and between the steps of a thread those of all others come in any order. -/

set_option autoImplicit false

namespace EncFS.CondVar

inductive Phase
  | outside
  | waiting (timed : Bool) (myGeneration : BitVec 32)
  | woken (timed : Bool) (myGeneration : BitVec 32)
  | leaving (released : Bool)
  | resetting
  deriving DecidableEq, Repr

def Phase.Inside : Phase → Prop
  | waiting _ _ | woken _ _ | leaving _ => True
  | outside | resetting => False

def Phase.Leaves : Phase → Prop
  | leaving _ => True
  | outside | waiting _ _ | woken _ _ | resetting => False

structure State (τ : Type) where
  waitersCount : ℤ
  releaseCount : ℤ
  waitGenerationCount : BitVec 32
  event : Bool
  phase : τ → Phase
  issued : ℤ
  released : ℤ

inductive Event (τ : Type)
  | enter (t : τ) (timed : Bool)
  | wake (t : τ)
  | check (t : τ) (late : Bool)
  | exit (t : τ)
  | reset (t : τ)
  | signal
  | broadcast
  deriving DecidableEq, Repr

namespace State

variable {τ : Type}

def init : State τ := ⟨0, 0, 0, false, fun _ => .outside, 0, 0⟩

variable (s : State τ)

def signal : State τ :=
  if s.releaseCount < s.waitersCount then
    { s with
      event := true
      releaseCount := s.releaseCount + 1
      waitGenerationCount := s.waitGenerationCount + 1
      issued := s.issued + 1 }
  else
    s

def broadcast : State τ :=
  if 0 < s.waitersCount then
    { s with
      event := true
      releaseCount := s.waitersCount
      waitGenerationCount := s.waitGenerationCount + 1
      issued := s.issued + (s.waitersCount - s.releaseCount) }
  else
    s

variable [DecidableEq τ]

def put (t : τ) (p : Phase) : State τ := { s with phase := Function.update s.phase t p }

def enter (t : τ) (timed : Bool) : State τ :=
  { s.put t (.waiting timed s.waitGenerationCount) with waitersCount := s.waitersCount + 1 }

def check (t : τ) (timed : Bool) (myGeneration : BitVec 32) (late : Bool) : State τ :=
  if 0 < s.releaseCount ∧ s.waitGenerationCount ≠ myGeneration then
    s.put t (.leaving true)
  else if timed ∧ late then
    s.put t (.leaving false)
  else
    s.put t (.waiting timed myGeneration)

def exit (t : τ) (released : Bool) : State τ :=
  { s.put t (if s.releaseCount - 1 = 0 then .resetting else .outside) with
    waitersCount := s.waitersCount - 1
    releaseCount := s.releaseCount - 1
    released := if released then s.released + 1 else s.released }

def step : Event τ → Option (State τ)
  | .enter t timed =>
    match s.phase t with
    | .outside => some (s.enter t timed)
    | _ => none
  | .wake t =>
    match s.phase t with
    | .waiting timed myGeneration =>
      if s.event then some (s.put t (.woken timed myGeneration)) else none
    | _ => none
  | .check t late =>
    match s.phase t with
    | .woken timed myGeneration => some (s.check t timed myGeneration late)
    | _ => none
  | .exit t =>
    match s.phase t with
    | .leaving released => some (s.exit t released)
    | _ => none
  | .reset t =>
    match s.phase t with
    | .resetting => some { s.put t .outside with event := false }
    | _ => none
  | .signal => some s.signal
  | .broadcast => some s.broadcast

inductive Does (s : State τ) : Event τ → State τ → Prop
  | enter {t : τ} (timed : Bool) : s.phase t = .outside → s.Does (.enter t timed) (s.enter t timed)
  | wake {t : τ} {timed : Bool} {myGeneration : BitVec 32} :
      s.phase t = .waiting timed myGeneration → s.Does (.wake t) (s.put t (.woken timed myGeneration))
  | check {t : τ} {timed : Bool} {myGeneration : BitVec 32} (late : Bool) :
      s.phase t = .woken timed myGeneration →
        s.Does (.check t late) (s.check t timed myGeneration late)
  | exit {t : τ} {released : Bool} : s.phase t = .leaving released →
      s.Does (.exit t) (s.exit t released)
  | reset {t : τ} : s.phase t = .resetting →
      s.Does (.reset t) { s.put t .outside with event := false }
  | signal : s.Does .signal s.signal
  | broadcast : s.Does .broadcast s.broadcast

lemma does_of_step {s s' : State τ} {e : Event τ} (h : s.step e = some s') : s.Does e s' := by
  cases e with
  | enter t timed =>
    cases hphase : s.phase t <;> simp only [step, hphase] at h
    all_goals cases h
    exact .enter timed hphase
  | wake t =>
    cases hphase : s.phase t <;> simp only [step, hphase] at h
    case waiting timed myGeneration =>
      split at h
      · cases h
        exact .wake hphase
      · cases h
    all_goals cases h
  | check t late =>
    cases hphase : s.phase t <;> simp only [step, hphase] at h
    all_goals cases h
    exact .check late hphase
  | exit t =>
    cases hphase : s.phase t <;> simp only [step, hphase] at h
    all_goals cases h
    exact .exit hphase
  | reset t =>
    cases hphase : s.phase t <;> simp only [step, hphase] at h
    all_goals cases h
    exact .reset hphase
  | signal =>
    cases h
    exact .signal
  | broadcast =>
    cases h
    exact .broadcast

end State

variable {τ : Type} [DecidableEq τ]

/-- What is reached by steps that all are as `P` demands of them. -/
inductive Reached (P : Event τ → State τ → Prop) : State τ → Prop
  | init : Reached P .init
  | step {s s' : State τ} (e : Event τ) : Reached P s → P e s → s.step e = some s' → Reached P s'

def State.threads (s : State τ) (P : Phase → Prop) : Set τ := {t | P (s.phase t)}

/-- A thread leaves the loop only if there are more releases than threads that have left it and did
not decrease `release_count_` yet. One that passes the check has seen a release; so for it that matters
only if there are such threads. -/
def Fair : Event τ → State τ → Prop
  | .check t late, s => ∀ timed myGeneration, s.phase t = .woken timed myGeneration →
      if 0 < s.releaseCount ∧ s.waitGenerationCount ≠ myGeneration then
        s.threads Phase.Leaves = ∅ ∨ (s.threads Phase.Leaves).ncard < s.releaseCount
      else timed = true ∧ late = true → (s.threads Phase.Leaves).ncard < s.releaseCount
  | _, _ => True

structure Counted (s : State τ) : Prop where
  finite : (s.threads Phase.Inside).Finite
  waitersCount : s.waitersCount = (s.threads Phase.Inside).ncard
  releaseCount_le : s.releaseCount ≤ s.waitersCount
  released_le : s.released ≤ s.issued - s.releaseCount

namespace State

variable {s : State τ} {t : τ} {p : Phase} {P : Phase → Prop}

lemma threads_stays (h : P (s.phase t) ↔ P p) : (s.put t p).threads P = s.threads P := by
  ext x
  by_cases hx : x = t
  · subst hx
    simp [threads, put, h]
  · simp [threads, put, hx]

lemma threads_enters (hp : P p) : (s.put t p).threads P = insert t (s.threads P) := by
  ext x
  by_cases hx : x = t
  · subst hx
    simp [threads, put, hp]
  · simp [threads, put, hx]

lemma threads_leaves (hp : ¬P p) : (s.put t p).threads P = s.threads P \ {t} := by
  ext x
  by_cases hx : x = t
  · subst hx
    simp [threads, put, hp]
  · simp [threads, put, hx]

end State

namespace Counted

variable {s : State τ} (h : Counted s) {t : τ}

include h

lemma put {p : Phase} (hp : (s.phase t).Inside ↔ p.Inside) : Counted (s.put t p) := by
  have hsame := State.threads_stays hp
  exact ⟨hsame ▸ h.finite, hsame ▸ h.waitersCount, h.releaseCount_le, h.released_le⟩

lemma check (ht : (s.phase t).Inside) (timed : Bool) (myGeneration : BitVec 32) (late : Bool) :
    Counted (s.check t timed myGeneration late) := by
  rw [State.check]
  split
  · exact h.put (iff_of_true ht trivial)
  · split
    · exact h.put (iff_of_true ht trivial)
    · exact h.put (iff_of_true ht trivial)

lemma enter (ht : ¬(s.phase t).Inside) (timed : Bool) : Counted (s.enter t timed) := by
  have hinside : (s.enter t timed).threads Phase.Inside = insert t (s.threads Phase.Inside) :=
    State.threads_enters trivial
  refine ⟨hinside ▸ h.finite.insert t, ?_, ?_, h.released_le⟩
  · have hnot : t ∉ s.threads Phase.Inside := ht
    rw [hinside, Set.ncard_insert_of_notMem hnot h.finite, Nat.cast_add, ← h.waitersCount]
    rfl
  · exact h.releaseCount_le.trans (Int.le_add_one (Int.le_refl _))

lemma exit (ht : (s.phase t).Inside) (released : Bool) : Counted (s.exit t released) := by
  have hinside : (s.exit t released).threads Phase.Inside = s.threads Phase.Inside \ {t} := by
    apply State.threads_leaves
    split <;> exact id
  have hcard : (s.threads Phase.Inside \ {t}).ncard + 1 = (s.threads Phase.Inside).ncard :=
    Set.ncard_sdiff_singleton_add_one ht h.finite
  have hwaiters := h.waitersCount
  have hrelease := h.releaseCount_le
  have hreleased := h.released_le
  refine ⟨hinside ▸ h.finite.sdiff, ?_, ?_, ?_⟩
  · rw [hinside]
    change s.waitersCount - 1 = _
    omega
  · change s.releaseCount - 1 ≤ s.waitersCount - 1
    omega
  · change (if released then s.released + 1 else s.released) ≤ s.issued - (s.releaseCount - 1)
    split <;> omega

omit [DecidableEq τ] in
lemma signal : Counted s.signal := by
  rw [State.signal]
  split
  · next hlt =>
    have hreleased := h.released_le
    exact ⟨h.finite, h.waitersCount, hlt, by dsimp only; omega⟩
  · exact h

omit [DecidableEq τ] in
lemma broadcast : Counted s.broadcast := by
  rw [State.broadcast]
  split
  · have hreleased := h.released_le
    exact ⟨h.finite, h.waitersCount, Int.le_refl _, by dsimp only; omega⟩
  · exact h

lemma step {s' : State τ} {e : Event τ} (hs : s.step e = some s') : Counted s' := by
  cases State.does_of_step hs with
  | enter timed hphase => exact h.enter (by simp [hphase, Phase.Inside]) timed
  | wake hphase => exact h.put (by simp [hphase, Phase.Inside])
  | check late hphase => exact h.check (by simp [hphase, Phase.Inside]) _ _ late
  | exit hphase => exact h.exit (by simp [hphase, Phase.Inside]) _
  | @reset t hphase =>
    have hput := h.put (t := t) (p := .outside) (by simp [hphase, Phase.Inside])
    exact ⟨hput.finite, hput.waitersCount, hput.releaseCount_le, hput.released_le⟩
  | signal => exact h.signal
  | broadcast => exact h.broadcast

end Counted

omit [DecidableEq τ] in
lemma counted_init : Counted (.init : State τ) := by
  have hinside : (State.init : State τ).threads Phase.Inside = ∅ := by
    ext t
    simp [State.threads, State.init, Phase.Inside]
  refine ⟨hinside ▸ Set.finite_empty, ?_, Int.le_refl 0, Int.le_refl 0⟩
  rw [hinside, Set.ncard_empty]
  rfl

lemma Reached.counted {P : Event τ → State τ → Prop} {s : State τ} (h : Reached P s) :
    Counted s := by
  induction h with
  | init => exact counted_init
  | step e _ _ hs ih => exact ih.step hs

/-- No more threads are about to leave than there are releases for. -/
def Spared (s : State τ) : Prop :=
  (s.threads Phase.Leaves).ncard ≤ s.releaseCount

omit [DecidableEq τ] in
lemma leaves_subset (s : State τ) : s.threads Phase.Leaves ⊆ s.threads Phase.Inside := by
  intro t ht
  change (s.phase t).Leaves at ht
  change (s.phase t).Inside
  cases hphase : s.phase t <;> simp_all [Phase.Leaves, Phase.Inside]

namespace Spared

variable {s : State τ} (h : Spared s)
include h

omit [DecidableEq τ] in
lemma signal : Spared s.signal := by
  rw [State.signal]
  split
  · exact h.trans (Int.le_add_one (Int.le_refl _))
  · exact h

lemma put {t : τ} {p : Phase} (ht : ¬(s.phase t).Leaves) (hp : ¬p.Leaves) :
    Spared (s.put t p) := by
  rw [Spared, State.threads_stays (iff_of_false ht hp)]
  exact h

end Spared

namespace Counted

variable {s s' : State τ} (h : Counted s) {t : τ}
include h

omit [DecidableEq τ] in
lemma finite_leaves : (s.threads Phase.Leaves).Finite :=
  h.finite.subset (leaves_subset s)

lemma put_leaving (ht : ¬(s.phase t).Leaves) (released : Bool) :
    Spared (s.put t (.leaving released)) ↔ (s.threads Phase.Leaves).ncard < s.releaseCount := by
  have hnot : t ∉ s.threads Phase.Leaves := ht
  rw [Spared, State.threads_enters trivial, Set.ncard_insert_of_notMem hnot h.finite_leaves]
  change ((_ + 1 : ℕ) : ℤ) ≤ s.releaseCount ↔ _
  omega

lemma check_spared {timed : Bool} {myGeneration : BitVec 32}
    (hphase : s.phase t = .woken timed myGeneration) (hs : Spared s) (late : Bool) :
    Spared (s.check t timed myGeneration late) ↔ Fair (.check t late) s := by
  have hout : ¬(s.phase t).Leaves := by simp [hphase, Phase.Leaves]
  have hfair : Fair (.check t late) s ↔
      if 0 < s.releaseCount ∧ s.waitGenerationCount ≠ myGeneration then
        s.threads Phase.Leaves = ∅ ∨ (s.threads Phase.Leaves).ncard < s.releaseCount
      else timed = true ∧ late = true → (s.threads Phase.Leaves).ncard < s.releaseCount := by
    refine ⟨fun hf => hf timed myGeneration hphase, fun hf timed' myGeneration' hphase' => ?_⟩
    obtain ⟨rfl, rfl⟩ := Phase.woken.inj (hphase.symm.trans hphase')
    exact hf
  rw [hfair, State.check]
  by_cases hpass : 0 < s.releaseCount ∧ s.waitGenerationCount ≠ myGeneration
  · rw [if_pos hpass, if_pos hpass, h.put_leaving hout]
    refine ⟨.inr, fun hfew => hfew.elim (fun hnone => ?_) id⟩
    rw [hnone, Set.ncard_empty]
    exact hpass.1
  · rw [if_neg hpass, if_neg hpass]
    by_cases hlate : timed = true ∧ late = true
    · rw [if_pos hlate, h.put_leaving hout, forall_prop_of_true hlate]
    · rw [if_neg hlate]
      refine iff_of_true ?_ fun hlate' => absurd hlate' hlate
      exact hs.put hout id

lemma ncard_exit {released : Bool} (hphase : s.phase t = .leaving released) :
    ((s.exit t released).threads Phase.Leaves).ncard + 1 = (s.threads Phase.Leaves).ncard := by
  have hleaves : (s.exit t released).threads Phase.Leaves = s.threads Phase.Leaves \ {t} := by
    apply State.threads_leaves
    split <;> exact id
  have ht : t ∈ s.threads Phase.Leaves := by
    change (s.phase t).Leaves
    rw [hphase]
    trivial
  rw [hleaves]
  exact Set.ncard_sdiff_singleton_add_one ht h.finite_leaves

omit [DecidableEq τ] in
lemma broadcast_spared (hs : Spared s) : Spared s.broadcast := by
  rw [State.broadcast]
  split
  · exact hs.trans h.releaseCount_le
  · exact hs

lemma step_spared (hs : Spared s) {e : Event τ} (hstep : s.step e = some s') :
    Spared s' ↔ Fair e s := by
  cases State.does_of_step hstep with
  | enter timed hphase =>
    refine iff_of_true ?_ trivial
    exact hs.put (p := .waiting timed _) (by simp [hphase, Phase.Leaves]) id
  | wake hphase =>
    exact iff_of_true (hs.put (by simp [hphase, Phase.Leaves]) id) trivial
  | check late hphase => exact h.check_spared hphase hs late
  | @exit t released hphase =>
    have hleaves := h.ncard_exit hphase
    refine iff_of_true ?_ trivial
    change ((s.exit t released).threads Phase.Leaves).ncard ≤ s.releaseCount - 1
    rw [Spared] at hs
    omega
  | reset hphase =>
    refine iff_of_true ?_ trivial
    exact hs.put (p := .outside) (by simp [hphase, Phase.Leaves]) id
  | signal => exact iff_of_true (hs.signal) trivial
  | broadcast => exact iff_of_true (h.broadcast_spared hs) trivial

end Counted

lemma Reached.spared {s : State τ} (h : Reached Fair s) : Spared s := by
  induction h with
  | init =>
    have hnone : (State.init : State τ).threads Phase.Leaves = ∅ := by
      ext t
      simp [State.threads, State.init, Phase.Leaves]
    rw [Spared, hnone, Set.ncard_empty]
    exact Int.le_refl 0
  | step e hr hf hs ih => exact (hr.counted.step_spared ih hs).mpr hf

def State.run (s : State τ) : List (Event τ) → Option (State τ)
  | [] => some s
  | e :: es => (s.step e).bind fun s' => s'.run es

lemma Counted.overdrawn {s : State τ} (h : Counted s) (hs : ¬Spared s) :
    ∃ es s', s.run es = some s' ∧ s'.releaseCount < 0 := by
  generalize hn : (s.threads Phase.Leaves).ncard = n
  induction n generalizing s with
  | zero =>
    rw [Spared, hn] at hs
    exact ⟨[], s, rfl, Int.not_le.mp hs⟩
  | succ n ih =>
    obtain ⟨t, ht⟩ := Set.nonempty_of_ncard_ne_zero (by omega : (s.threads Phase.Leaves).ncard ≠ 0)
    obtain ⟨released, hphase⟩ : ∃ released, s.phase t = .leaving released := by
      change (s.phase t).Leaves at ht
      cases hphase : s.phase t <;> simp_all [Phase.Leaves]
    have hstep : s.step (.exit t) = some (s.exit t released) := by
      rw [State.step, hphase]
    have hleaves := h.ncard_exit hphase
    have hover : ¬Spared (s.exit t released) := by
      change ¬(((s.exit t released).threads Phase.Leaves).ncard ≤ s.releaseCount - 1)
      rw [Spared] at hs
      omega
    obtain ⟨es, s', hrun, hneg⟩ := ih (h.step hstep) hover (by omega)
    exact ⟨.exit t :: es, s', by rw [State.run, hstep]; exact hrun, hneg⟩

/-- While all threads leave the loop fairly the counts are right. After the first that does not the
count of releases is negative when it and those about to leave have left. -/
theorem counters_kept {s : State τ} (h : Reached Fair s) :
    0 ≤ s.releaseCount ∧ s.releaseCount ≤ s.waitersCount ∧
      s.waitersCount = (s.threads Phase.Inside).ncard ∧ s.released ≤ s.issued ∧
      ∀ e s', s.step e = some s' → ¬Fair e s → ∃ es s'', s'.run es = some s'' ∧
        s''.releaseCount < 0 := by
  have hc := h.counted
  have hspared := h.spared
  have h0 : 0 ≤ s.releaseCount := (Int.natCast_nonneg _).trans hspared
  have hreleased := hc.released_le
  refine ⟨h0, hc.releaseCount_le, hc.waitersCount, by omega, fun e s' hs hf => ?_⟩
  exact (hc.step hs).overdrawn fun hs' => hf ((hc.step_spared hspared hs).mp hs')

def oneReleased : State ℕ :=
  ((((State.init.enter 0 false).signal).put 0 (.woken false 0)).check 0 false 0 false).exit 0 true

lemma oneReleased_reached : Reached Fair oneReleased := by
  have henter : Reached Fair (State.init.enter 0 false) := .step (.enter 0 false) .init trivial rfl
  have hwake := (henter.step .signal trivial rfl).step (.wake 0) trivial rfl
  have hcheck : Fair (.check 0 false) (((State.init.enter 0 false).signal).put 0 (.woken false 0)) := by
    rintro timed myGeneration hphase
    obtain ⟨-, rfl⟩ := Phase.woken.inj hphase.symm
    rw [if_pos (by decide)]
    left
    rw [Set.eq_empty_iff_forall_notMem]
    intro t ht
    by_cases h0 : t = 0
    · subst h0
      exact ht
    · have hphase : (((State.init.enter 0 false).signal).put 0 (.woken false 0)).phase t =
          .outside := by simp [State.put, State.signal, State.enter, State.init, h0]
      change Phase.Leaves _ at ht
      rw [hphase] at ht
      exact ht
  exact (hwake.step (.check 0 false) hcheck rfl).step (.exit 0) trivial rfl

theorem counters_kept_oneReleased :
    0 ≤ oneReleased.releaseCount ∧ oneReleased.releaseCount ≤ oneReleased.waitersCount ∧
      oneReleased.waitersCount = (oneReleased.threads Phase.Inside).ncard ∧
      oneReleased.released ≤ oneReleased.issued ∧
      ∀ e s', oneReleased.step e = some s' → ¬Fair e oneReleased →
        ∃ es s'', s'.run es = some s'' ∧ s''.releaseCount < 0 :=
  counters_kept oneReleased_reached

lemma Reached.run {P : Event τ → State τ → Prop} {s s' : State τ} {es : List (Event τ)}
    (h : Reached P s) (hP : ∀ e s, P e s) (hs : s.run es = some s') : Reached P s' := by
  induction es generalizing s with
  | nil =>
    cases hs
    exact h
  | cons e es ih =>
    obtain ⟨s₁, hstep, hrun⟩ := Option.bind_eq_some_iff.mp hs
    exact ih (h.step e (hP e s) hstep) hrun

theorem not_counters_kept :
    ∃ s : State ℕ, Reached (fun _ _ => True) s ∧ s.releaseCount < 0 ∧ s.issued < s.released := by
  have hrun : ∃ s, (State.init : State ℕ).run [.enter 0 false, .enter 1 false, .signal, .wake 0,
      .wake 1, .check 0 false, .check 1 false, .exit 0, .exit 1] = some s ∧
      s.releaseCount < 0 ∧ s.issued < s.released := ⟨_, rfl, by decide, by decide⟩
  obtain ⟨s, hs, hcounts⟩ := hrun
  exact ⟨s, Reached.init.run (fun _ _ => trivial) hs, hcounts⟩

end EncFS.CondVar
