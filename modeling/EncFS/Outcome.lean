import Mathlib.Tactic.Lemma

/-! Postconditions of programs with a state and exceptions, one for each kind of outcome. -/

set_option autoImplicit false

namespace EncFS

variable {ε σ α β : Type}

/-- From the state `s` the program `x` returns with `Q` or raises an error with `E`. -/
def Yields (x : EStateM ε σ α) (s : σ) (Q : α → σ → Prop) (E : ε → σ → Prop) : Prop :=
  match x s with
  | .ok a s' => Q a s'
  | .error e s' => E e s'

def finalState (x : EStateM ε σ α) (s : σ) : σ :=
  match x s with
  | .ok _ s' => s'
  | .error _ s' => s'

lemma finalState_ok {x : EStateM ε σ α} {s t : σ} {a : α} (h : x s = .ok a t) :
    finalState x s = t := by
  rw [finalState, h]

namespace Yields

variable {x : EStateM ε σ α} {f : α → EStateM ε σ β} {s : σ}

section

variable {Q Q' : α → σ → Prop} {E E' : ε → σ → Prop}

lemma of_ok {a : α} {t : σ} (h : x s = .ok a t) (hq : Q a t) : Yields x s Q E := by
  rw [Yields, h]
  exact hq

lemma of_error {e : ε} {t : σ} (h : x s = .error e t) (he : E e t) : Yields x s Q E := by
  rw [Yields, h]
  exact he

lemma ok {a : α} {s' : σ} (hx : Yields x s Q E) (h : x s = .ok a s') : Q a s' := by
  rw [Yields, h] at hx
  exact hx

lemma error {e : ε} {s' : σ} (hx : Yields x s Q E) (h : x s = .error e s') : E e s' := by
  rw [Yields, h] at hx
  exact hx

lemma mono (hx : Yields x s Q E) (hq : ∀ a s', Q a s' → Q' a s') (he : ∀ e s', E e s' → E' e s') :
    Yields x s Q' E' := by
  cases h : x s with
  | ok a s' => exact of_ok h (hq a s' (hx.ok h))
  | error e s' => exact of_error h (he e s' (hx.error h))

lemma final {P : σ → Prop} (hx : Yields x s (fun _ => P) fun _ => P) : P (finalState x s) := by
  cases h : x s with
  | ok a s' =>
    rw [finalState, h]
    exact hx.ok h
  | error e s' =>
    rw [finalState, h]
    exact hx.error h

lemma pure {a : α} (h : Q a s) : Yields (Pure.pure a) s Q E := h

lemma any : Yields x s (fun _ _ => True) fun _ _ => True := by
  cases h : x s with
  | ok a s' => exact of_ok h trivial
  | error e s' => exact of_error h trivial

end

section

variable {Q : β → σ → Prop} {E : ε → σ → Prop}

lemma bind (hx : Yields x s (fun a s' => Yields (f a) s' Q E) E) : Yields (x >>= f) s Q E := by
  cases h : x s with
  | ok a s' =>
    have hf := hx.ok h
    cases h' : f a s' with
    | ok b s'' =>
      refine of_ok (a := b) (t := s'') ?_ (hf.ok h')
      simp only [Bind.bind, EStateM.bind, h, h']
    | error e s'' =>
      refine of_error (e := e) (t := s'') ?_ (hf.error h')
      simp only [Bind.bind, EStateM.bind, h, h']
  | error e s' =>
    refine of_error (e := e) (t := s') ?_ (hx.error h)
    simp only [Bind.bind, EStateM.bind, h]

lemma after (hf : ∀ a s', Yields (f a) s' Q fun _ _ => True) :
    Yields (x >>= f) s Q fun _ _ => True :=
  bind (any.mono (fun a s' _ => hf a s') fun _ _ h => h)

lemma get {f : σ → EStateM ε σ β} (h : Yields (f s) s Q E) :
    Yields (MonadState.get >>= f) s Q E := h

lemma set {s' : σ} {f : PUnit → EStateM ε σ β} (h : Yields (f ⟨⟩) s' Q E) :
    Yields (MonadStateOf.set s' >>= f) s Q E := h

lemma modify {g : σ → σ} {f : PUnit → EStateM ε σ β} (h : Yields (f ⟨⟩) (g s) Q E) :
    Yields (modifyThe σ g >>= f) s Q E := h

end

end Yields

def Preserves (I : σ → Prop) (x : EStateM ε σ α) : Prop :=
  ∀ s, I s → Yields x s (fun _ => I) fun _ => I

namespace Preserves

variable {I : σ → Prop} {x : EStateM ε σ α} {f : α → EStateM ε σ β}

lemma final (h : Preserves I x) {s : σ} (hs : I s) : I (finalState x s) :=
  (h s hs).final

lemma pure (a : α) : Preserves I (Pure.pure a : EStateM ε σ α) :=
  fun _ hs => .pure hs

lemma throw (e : ε) : Preserves I (MonadExcept.throw e : EStateM ε σ α) :=
  fun _ hs => .of_error rfl hs

lemma and {J : σ → Prop} (hi : Preserves I x) (hj : Preserves J x) :
    Preserves (fun s => I s ∧ J s) x := by
  rintro s ⟨hs, hs'⟩
  cases h : x s with
  | ok a s' => exact .of_ok h ⟨(hi s hs).ok h, (hj s hs').ok h⟩
  | error e s' => exact .of_error h ⟨(hi s hs).error h, (hj s hs').error h⟩

lemma bind (hx : Preserves I x) (hf : ∀ a, Preserves I (f a)) : Preserves I (x >>= f) :=
  fun s hs => .bind ((hx s hs).mono (fun a s' hs' => hf a s' hs') fun _ _ hs' => hs')

lemma get {f : σ → EStateM ε σ β} (hf : ∀ s, I s → Yields (f s) s (fun _ => I) fun _ => I) :
    Preserves I (MonadState.get >>= f) :=
  fun s hs => .get (hf s hs)

lemma ite {c : Prop} [Decidable c] {y : EStateM ε σ α} (hx : c → Preserves I x)
    (hy : ¬c → Preserves I y) : Preserves I (if c then x else y) := by
  by_cases h : c
  · rw [if_pos h]
    exact hx h
  · rw [if_neg h]
    exact hy h

end Preserves

/-- The same value or the same error, and states that `S` relates. -/
inductive SameResult (S : σ → σ → Prop) : EStateM.Result ε σ α → EStateM.Result ε σ α → Prop
  | ok {a : α} {s t : σ} (h : S s t) : SameResult S (.ok a s) (.ok a t)
  | error {e : ε} {s t : σ} (h : S s t) : SameResult S (.error e s) (.error e t)

/-- From states that `S` relates the program gives the same, and `S` relates the states after it. -/
def Respects (S : σ → σ → Prop) (x : EStateM ε σ α) : Prop :=
  ∀ s t, S s t → SameResult S (x s) (x t)

namespace SameResult

variable {S : σ → σ → Prop} {x : EStateM ε σ α} {f : α → EStateM ε σ β} {s t : σ}

lemma of_ok {a : α} {s' t' : σ} (hs : x s = .ok a s') (ht : x t = .ok a t') (h : S s' t') :
    SameResult S (x s) (x t) := by
  rw [hs, ht]
  exact .ok h

lemma of_error {e : ε} {s' t' : σ} (hs : x s = .error e s') (ht : x t = .error e t') (h : S s' t') :
    SameResult S (x s) (x t) := by
  rw [hs, ht]
  exact .error h

lemma runs (h : SameResult S (x s) (x t)) :
    (∃ a s' t', x s = .ok a s' ∧ x t = .ok a t' ∧ S s' t') ∨
      ∃ e s' t', x s = .error e s' ∧ x t = .error e t' ∧ S s' t' := by
  generalize x s = r at h
  generalize x t = r' at h
  cases h with
  | ok h => exact .inl ⟨_, _, _, rfl, rfl, h⟩
  | error h => exact .inr ⟨_, _, _, rfl, rfl, h⟩

lemma bind (hx : SameResult S (x s) (x t))
    (hf : ∀ a s' t', x s = .ok a s' → x t = .ok a t' → S s' t' → SameResult S (f a s') (f a t')) :
    SameResult S ((x >>= f) s) ((x >>= f) t) := by
  rcases hx.runs with ⟨a, s', t', hs, ht, h⟩ | ⟨e, s', t', hs, ht, h⟩
  · simp only [Bind.bind, EStateM.bind, hs, ht]
    exact hf a s' t' hs ht h
  · simp only [Bind.bind, EStateM.bind, hs, ht]
    exact .error h

end SameResult

namespace Respects

variable {S : σ → σ → Prop} {x : EStateM ε σ α} {f : α → EStateM ε σ β}

lemma pure (a : α) : Respects S (Pure.pure a : EStateM ε σ α) :=
  fun _ _ h => .ok h

lemma throw (e : ε) : Respects S (MonadExcept.throw e : EStateM ε σ α) :=
  fun _ _ h => .error h

lemma bind (hx : Respects S x) (hf : ∀ a, Respects S (f a)) : Respects S (x >>= f) :=
  fun s t h => (hx s t h).bind fun a s' t' _ _ h' => hf a s' t' h'

lemma get {f : σ → EStateM ε σ β} (hf : ∀ s t, S s t → SameResult S (f s s) (f t t)) :
    Respects S (MonadState.get >>= f) :=
  hf

lemma modify {g : σ → σ} (hg : ∀ s t, S s t → S (g s) (g t)) :
    Respects S (modifyThe σ g : EStateM ε σ PUnit) :=
  fun s t h => .ok (hg s t h)

lemma ite {c : Prop} [Decidable c] {y : EStateM ε σ α} (hx : Respects S x) (hy : Respects S y) :
    Respects S (if c then x else y) := by
  by_cases h : c
  · rwa [if_pos h]
  · rwa [if_neg h]

end Respects

end EncFS
