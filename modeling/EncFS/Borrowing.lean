import Mathlib.Algebra.Order.Group.Multiset
import Mathlib.Tactic.Lemma

/-! Programs that take resources and give them back, between calls that may raise. -/

set_option autoImplicit false

namespace EncFS

/-- The resources are of type `β`, and the calls change a state. An `attempt` may also fail. What
may raise an error has the places in which that would be, the outermost one first. -/
inductive Borrowing (π ε σ β α : Type) : Type 1
  | ret (a : α)
  | raise (place : List π) (e : ε)
  | call {γ : Type} (place : List π) (x : EStateM ε σ γ) (k : γ → Borrowing π ε σ β α)
  | attempt {γ : Type} (place : List π) (x : EStateM ε σ (Option γ))
      (k : Option γ → Borrowing π ε σ β α)
  | take (size : ℕ) (k : β → Borrowing π ε σ β α)
  | write (b : β) (data : List UInt8) (k : Borrowing π ε σ β α)
  | give (b : β) (k : Borrowing π ε σ β α)

namespace Borrowing

variable {π ε σ σ' β α α' γ : Type}

def bind : Borrowing π ε σ β α → (α → Borrowing π ε σ β α') → Borrowing π ε σ β α'
  | ret a, f => f a
  | raise place e, _ => raise place e
  | call place x k, f => call place x fun c => (k c).bind f
  | attempt place x k, f => attempt place x fun c => (k c).bind f
  | take size k, f => take size fun b => (k b).bind f
  | write b data k, f => write b data (k.bind f)
  | give b k, f => give b (k.bind f)

instance : Monad (Borrowing π ε σ β) where
  pure := ret
  bind := bind

def within (s : π) : Borrowing π ε σ β α → Borrowing π ε σ β α
  | ret a => ret a
  | raise place e => raise (s :: place) e
  | call place x k => call (s :: place) x fun c => (k c).within s
  | attempt place x k => attempt (s :: place) x fun c => (k c).within s
  | take size k => take size fun b => (k b).within s
  | write b data k => write b data (k.within s)
  | give b k => give b (k.within s)

end Borrowing

section

variable {π ε σ β α : Type}

def raiseOf (e : ε) : Borrowing π ε σ β α := .raise [] e

def callOf (x : EStateM ε σ α) : Borrowing π ε σ β α := .call [] x .ret

def attemptOf (x : EStateM ε σ (Option α)) : Borrowing π ε σ β (Option α) := .attempt [] x .ret

def takeOf (size : ℕ) : Borrowing π ε σ β β := .take size .ret

def writeTo (b : β) (data : List UInt8) : Borrowing π ε σ β PUnit := .write b data (.ret ⟨⟩)

def giveBack (b : β) : Borrowing π ε σ β PUnit := .give b (.ret ⟨⟩)

end

namespace Borrowing

variable {π ε σ σ' β α α' γ : Type}

def carry (mb : Option β) (h : Multiset β) : Multiset β :=
  match mb with
  | none => h
  | some b => b ::ₘ h

lemma bind_bind {δ : Type} (p : Borrowing π ε σ β α) (f : α → Borrowing π ε σ β α')
    (f' : α' → Borrowing π ε σ β δ) : p >>= f >>= f' = p >>= fun a => f a >>= f' := by
  induction p with
  | ret a => rfl
  | raise place e => rfl
  | call place x k ih => exact congrArg (call place x) (funext ih)
  | attempt place x k ih => exact congrArg (attempt place x) (funext ih)
  | take size k ih => exact congrArg (take size) (funext ih)
  | write b data k ih => exact congrArg (write b data) ih
  | give b k ih => exact congrArg (give b) ih

section Tidy

variable [DecidableEq β] (holds : π → Prop)

def Agrees (lost : Bool) (h : Multiset β) (place : List π) : Prop :=
  if lost then h ≠ 0 else ((∃ s ∈ place, holds s) ↔ h ≠ 0)

/-- Only what is held is written to or given back. `lost` tells that an attempt has failed, and `h`
is what is held. -/
def Tidy : Borrowing π ε σ β α → Bool → Multiset β → (α → Bool → Multiset β → Prop) → Prop
  | ret a, lost, h, Q => Q a lost h
  | raise place _, lost, h, _ => Agrees holds lost h place
  | call place _ k, lost, h, Q => Agrees holds lost h place ∧ ∀ c, (k c).Tidy lost h Q
  | attempt place _ k, lost, h, Q => Agrees holds lost h place ∧ h ≠ 0 ∧
      (∀ c, (k (some c)).Tidy lost h Q) ∧ (k none).Tidy true h Q
  | take _ k, lost, h, Q => ∀ b, (k b).Tidy lost (b ::ₘ h) Q
  | write b _ k, lost, h, Q => b ∈ h ∧ k.Tidy lost h Q
  | give b k, lost, h, Q => b ∈ h ∧ k.Tidy lost (h.erase b) Q

variable {holds} {p : Borrowing π ε σ β α} {f : α → Borrowing π ε σ β α'} {lost : Bool}
  {h g : Multiset β} {s : π}

omit [DecidableEq β] in
lemma Agrees.within {place : List π} (hs : holds s ↔ g ≠ 0) (ha : Agrees holds lost h place) :
    Agrees holds lost (g + h) (s :: place) := by
  have hsum : g + h ≠ 0 ↔ g ≠ 0 ∨ h ≠ 0 := by
    simp only [Ne, ← Multiset.card_eq_zero, Multiset.card_add, Nat.add_eq_zero_iff, not_and_or]
  cases lost with
  | true => exact hsum.mpr (.inr ha)
  | false =>
    change (∃ s' ∈ s :: place, holds s') ↔ _
    rw [List.exists_mem_cons_iff, hsum, hs]
    exact or_congr_right ha

lemma Tidy.mono {Q Q' : α → Bool → Multiset β → Prop} (hp : p.Tidy holds lost h Q)
    (hq : ∀ a lost' h', Q a lost' h' → Q' a lost' h') : p.Tidy holds lost h Q' := by
  induction p generalizing lost h with
  | ret a => exact hq a lost h hp
  | raise place e => exact hp
  | call place x k ih => exact ⟨hp.1, fun c => ih c (hp.2 c)⟩
  | attempt place x k ih => exact ⟨hp.1, hp.2.1, fun c => ih _ (hp.2.2.1 c), ih _ hp.2.2.2⟩
  | take size k ih => exact fun b => ih b (hp b)
  | write b data k ih => exact ⟨hp.1, ih hp.2⟩
  | give b k ih => exact ⟨hp.1, ih hp.2⟩

lemma Tidy.bind {Q : α' → Bool → Multiset β → Prop}
    (hp : p.Tidy holds lost h fun a lost' h' => (f a).Tidy holds lost' h' Q) :
    (p >>= f).Tidy holds lost h Q := by
  induction p generalizing lost h with
  | ret a => exact hp
  | raise place e => exact hp
  | call place x k ih => exact ⟨hp.1, fun c => ih c (hp.2 c)⟩
  | attempt place x k ih => exact ⟨hp.1, hp.2.1, fun c => ih _ (hp.2.2.1 c), ih _ hp.2.2.2⟩
  | take size k ih => exact fun b => ih b (hp b)
  | write b data k ih => exact ⟨hp.1, ih hp.2⟩
  | give b k ih => exact ⟨hp.1, ih hp.2⟩

lemma Tidy.within (hs : holds s ↔ g ≠ 0) {Q : α → Bool → Multiset β → Prop}
    (hp : p.Tidy holds lost h Q) :
    (p.within s).Tidy holds lost (g + h) fun a lost' h' => ∃ h'', h' = g + h'' ∧ Q a lost' h'' := by
  induction p generalizing lost h with
  | ret a => exact ⟨h, rfl, hp⟩
  | raise place e => exact Agrees.within hs hp
  | call place x k ih => exact ⟨hp.1.within hs, fun c => ih c (hp.2 c)⟩
  | attempt place x k ih =>
    refine ⟨hp.1.within hs, fun h0 => hp.2.1 (Multiset.le_zero.mp (h0 ▸ Multiset.le_add_left h g)), fun c => ih _ (hp.2.2.1 c), ?_⟩
    exact ih _ hp.2.2.2
  | take size k ih =>
    intro b
    rw [← Multiset.add_cons]
    exact ih b (hp b)
  | write b data k ih => exact ⟨Multiset.mem_add.mpr (.inr hp.1), ih hp.2⟩
  | give b k ih =>
    refine ⟨Multiset.mem_add.mpr (.inr hp.1), ?_⟩
    rw [Multiset.erase_add_right_pos g hp.1]
    exact ih hp.2

variable (holds) in
def Passes (p : Borrowing π ε σ β α) (mb : Option β) (out : α → Option β) : Prop :=
  ∀ lost h, (lost = true ↔ h ≠ 0) → p.Tidy holds lost (carry mb h) fun a lost' h' =>
    ∃ h'', h' = carry (out a) h'' ∧ (lost' = true ↔ h'' ≠ 0)

variable (holds) in
def Keeps (p : Borrowing π ε σ β α) : Prop := p.Passes holds none fun _ => none

omit [DecidableEq β] in
lemma agrees_nil (hh : lost = true ↔ h ≠ 0) : Agrees holds lost h [] := by
  cases lost with
  | true => exact hh.mp rfl
  | false => exact iff_of_false (by simp) fun h0 => Bool.false_ne_true (hh.mpr h0)

omit [DecidableEq β] in
lemma carry_eq (mb : Option β) (h : Multiset β) : carry mb h = carry mb 0 + h := by
  cases mb with
  | none => exact (zero_add h).symm
  | some b => exact (Multiset.singleton_add b h).symm

omit [DecidableEq β] in
lemma carry_zero {mb : Option β} : carry mb 0 ≠ 0 ↔ mb.isSome = true := by
  cases mb with
  | none => simp [carry]
  | some b => simp [carry]

namespace Passes

variable {mb : Option β} {out : α → Option β} {out' : α' → Option β}

lemma pure (a : α) (hout : mb = out a) :
    (Pure.pure a : Borrowing π ε σ β α).Passes holds mb out := by
  rw [hout]
  exact fun lost h hh => ⟨h, rfl, hh⟩

lemma bind (hp : p.Passes holds mb out) (hf : ∀ a, (f a).Passes holds (out a) out') :
    (p >>= f).Passes holds mb out' := by
  intro lost h hh
  refine Tidy.bind ((hp lost h hh).mono ?_)
  rintro a lost' h' ⟨h₁, rfl, hh₁⟩
  exact hf a lost' h₁ hh₁

lemma of_keeps (hp : p.Keeps holds) (hs : holds s ↔ mb.isSome = true) :
    (p.within s).Passes holds mb fun _ => mb := by
  intro lost h hh
  rw [carry_eq]
  refine ((hp lost h hh).within (hs.trans carry_zero.symm)).mono ?_
  rintro a lost' h' ⟨h₁, rfl, h₂, hsame, hh₂⟩
  obtain rfl : h₁ = h₂ := hsame
  exact ⟨h₁, (carry_eq mb h₁).symm, hh₂⟩

lemma ite {c : Prop} [Decidable c] {q : Borrowing π ε σ β α} (hp : p.Passes holds mb out)
    (hq : q.Passes holds mb out) : (if c then p else q).Passes holds mb out := by
  split
  · exact hp
  · exact hq

lemma call (x : EStateM ε σ α) : (callOf x : Borrowing π ε σ β α).Keeps holds :=
  fun _ h hh => ⟨agrees_nil hh, fun _ => ⟨h, rfl, hh⟩⟩

lemma raise (e : ε) (hs : holds s ↔ mb.isSome = true) :
    ((raiseOf e : Borrowing π ε σ β α).within s).Passes holds mb out := by
  intro lost h hh
  rw [carry_eq]
  exact (agrees_nil hh).within (hs.trans carry_zero.symm)

lemma raised (e : ε) : (raiseOf e : Borrowing π ε σ β α).Keeps holds :=
  fun _ _ hh => agrees_nil hh

lemma take (size : ℕ) : (takeOf size : Borrowing π ε σ β β).Passes holds none some :=
  fun _ h hh _ => ⟨h, rfl, hh⟩

lemma write (b : β) (data : List UInt8) :
    (writeTo b data : Borrowing π ε σ β PUnit).Passes holds (some b) fun _ => some b :=
  fun _ h hh => ⟨Multiset.mem_cons_self b h, h, rfl, hh⟩

lemma give (b : β) :
    (giveBack b : Borrowing π ε σ β PUnit).Passes holds (some b) fun _ => none :=
  fun _ h hh => ⟨Multiset.mem_cons_self b h, h, Multiset.erase_cons_head b h, hh⟩

lemma attempt {b : β} {x : EStateM ε σ (Option γ)} {k : Option γ → Borrowing π ε σ β α} (a : α)
    (hs : holds s) (hnone : k none = Pure.pure a)
    (hsome : ∀ c, (k (some c)).Passes holds (some b) fun _ => none) :
    ((attemptOf x).within s >>= k).Passes holds (some b) fun _ => none := by
  intro lost h hh
  have hcons : b ::ₘ h ≠ 0 := Multiset.cons_ne_zero
  have hagrees : Agrees holds lost (b ::ₘ h) [s] := by
    cases lost with
    | true => exact hcons
    | false => exact iff_of_true ⟨s, List.mem_cons_self, hs⟩ hcons
  refine ⟨hagrees, hcons, fun c => hsome c lost h hh, ?_⟩
  change (k none).Tidy holds true (b ::ₘ h) _
  rw [hnone]
  exact ⟨b ::ₘ h, rfl, iff_of_true rfl hcons⟩

end Passes

end Tidy

structure Lens (ε σ σ' : Type) where
  lift {γ : Type} : EStateM ε σ γ → EStateM ε σ' γ
  lift_pure {γ : Type} (a : γ) : lift (Pure.pure a) = Pure.pure a
  lift_throw {γ : Type} (e : ε) : lift (throw e : EStateM ε σ γ) = throw e
  lift_bind {γ δ : Type} (x : EStateM ε σ γ) (f : γ → EStateM ε σ δ) :
    lift (x >>= f) = lift x >>= fun c => lift (f c)

def lift (l : Lens ε σ σ') : Borrowing π ε σ β α → Borrowing π ε σ' β α
  | ret a => .ret a
  | raise place e => .raise place e
  | call place x k => .call place (l.lift x) fun c => (k c).lift l
  | attempt place x k => .attempt place (l.lift x) fun c => (k c).lift l
  | take size k => .take size fun b => (k b).lift l
  | write b data k => .write b data (k.lift l)
  | give b k => .give b (k.lift l)

lemma Tidy.lift [DecidableEq β] {holds : π → Prop} (l : Lens ε σ σ') {p : Borrowing π ε σ β α}
    {lost : Bool} {h : Multiset β} {Q : α → Bool → Multiset β → Prop}
    (hp : p.Tidy holds lost h Q) : (p.lift l).Tidy holds lost h Q := by
  induction p generalizing lost h with
  | ret a => exact hp
  | raise place e => exact hp
  | call place x k ih => exact ⟨hp.1, fun c => ih c (hp.2 c)⟩
  | attempt place x k ih => exact ⟨hp.1, hp.2.1, fun c => ih _ (hp.2.2.1 c), ih _ hp.2.2.2⟩
  | take size k ih => exact fun b => ih b (hp b)
  | write b data k ih => exact ⟨hp.1, ih hp.2⟩
  | give b k ih => exact ⟨hp.1, ih hp.2⟩

lemma Passes.lift [DecidableEq β] {holds : π → Prop} (l : Lens ε σ σ') {p : Borrowing π ε σ β α}
    {mb : Option β} {out : α → Option β} (hp : p.Passes holds mb out) :
    (p.lift l).Passes holds mb out :=
  fun lost h hh => (hp lost h hh).lift l

section Denotes

def Denotes (g : α → γ) : Borrowing π ε σ β α → EStateM ε σ γ → Prop
  | ret a, x => x = Pure.pure (g a)
  | raise _ e, x => x = throw e
  | call _ y k, x => ∃ f, x = y >>= f ∧ ∀ c, (k c).Denotes g (f c)
  | attempt _ y k, x => ∃ f, x = y >>= f ∧ ∀ c, (k c).Denotes g (f c)
  | take _ k, x => ∀ b, (k b).Denotes g x
  | write _ _ k, x => k.Denotes g x
  | give _ k, x => k.Denotes g x

namespace Denotes

variable {δ : Type} {g : α → γ} {g' : α' → δ} {p : Borrowing π ε σ β α} {x : EStateM ε σ γ}
  {f : α → Borrowing π ε σ β α'}

lemma bind {k : γ → EStateM ε σ δ} (hp : p.Denotes g x) (hf : ∀ a, (f a).Denotes g' (k (g a))) :
    (p >>= f).Denotes g' (x >>= k) := by
  induction p generalizing x with
  | ret a =>
    cases hp
    exact hf a
  | raise place e =>
    cases hp
    rfl
  | call place y q ih =>
    obtain ⟨m, rfl, hm⟩ := hp
    exact ⟨fun c => m c >>= k, bind_assoc y m k, fun c => ih c (hm c)⟩
  | attempt place y q ih =>
    obtain ⟨m, rfl, hm⟩ := hp
    exact ⟨fun c => m c >>= k, bind_assoc y m k, fun c => ih c (hm c)⟩
  | take size q ih => exact fun b => ih b (hp b)
  | write b data q ih => exact ih hp
  | give b q ih => exact ih hp

lemma last {g' : α' → γ} (hp : p.Denotes g x) (hf : ∀ a, (f a).Denotes g' (Pure.pure (g a))) :
    (p >>= f).Denotes g' x := by
  rw [← bind_pure x]
  exact bind hp hf

lemma pure (a : α) : (Pure.pure a : Borrowing π ε σ β α).Denotes g (Pure.pure (g a)) := rfl

lemma call (x : EStateM ε σ α) : (callOf x : Borrowing π ε σ β α).Denotes id x :=
  ⟨Pure.pure, (bind_pure x).symm, fun _ => rfl⟩

lemma raise (e : ε) : (raiseOf e : Borrowing π ε σ β α).Denotes g (throw e) := rfl

lemma attempt (x : EStateM ε σ (Option α)) :
    (attemptOf x : Borrowing π ε σ β (Option α)).Denotes id x :=
  ⟨Pure.pure, (bind_pure x).symm, fun _ => rfl⟩

lemma ite {c : Prop} [Decidable c] {q : Borrowing π ε σ β α} {y : EStateM ε σ γ}
    (hp : p.Denotes g x) (hq : q.Denotes g y) :
    (if c then p else q).Denotes g (if c then x else y) := by
  split
  · exact hp
  · exact hq

lemma lift (l : Lens ε σ σ') (hp : p.Denotes g x) : (p.lift l).Denotes g (l.lift x) := by
  induction p generalizing x with
  | ret a =>
    cases hp
    exact l.lift_pure (g a)
  | raise place e =>
    cases hp
    exact l.lift_throw e
  | call place y q ih =>
    obtain ⟨m, rfl, hm⟩ := hp
    exact ⟨fun c => l.lift (m c), l.lift_bind y m, fun c => ih c (hm c)⟩
  | attempt place y q ih =>
    obtain ⟨m, rfl, hm⟩ := hp
    exact ⟨fun c => l.lift (m c), l.lift_bind y m, fun c => ih c (hm c)⟩
  | take size q ih => exact fun b => ih b (hp b)
  | write b data q ih => exact ih hp
  | give b q ih => exact ih hp

lemma within (s : π) (hp : p.Denotes g x) : (p.within s).Denotes g x := by
  induction p generalizing x with
  | ret a => exact hp
  | raise place e => exact hp
  | call place y q ih =>
    obtain ⟨m, rfl, hm⟩ := hp
    exact ⟨m, rfl, fun c => ih c (hm c)⟩
  | attempt place y q ih =>
    obtain ⟨m, rfl, hm⟩ := hp
    exact ⟨m, rfl, fun c => ih c (hm c)⟩
  | take size q ih => exact fun b => ih b (hp b)
  | write b data q ih => exact ih hp
  | give b q ih => exact ih hp

lemma silent {x : EStateM ε σ δ} (hp : p.Denotes (fun _ => PUnit.unit) (Pure.pure PUnit.unit))
    (hf : ∀ a, (f a).Denotes g' x) : (p >>= f).Denotes g' x :=
  bind (k := fun _ => x) hp hf

end Denotes

end Denotes

end Borrowing

end EncFS
