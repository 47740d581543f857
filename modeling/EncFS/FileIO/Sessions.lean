import EncFS.RawFileIO

/-! A raw file that is opened again and again, each time by a fresh object. -/

set_option autoImplicit false

namespace EncFS

open FlatArray

/-- A kind of file objects over raw files: `made` is the object that was just made, and `base` the
raw file under an object. What an object starts with besides is of type `ι`. -/
structure FileObject (τ ι : Type) where
  State : Type
  accessors : Accessors State
  openFile : ℕ → Action State ℤ
  made : ι → τ → State
  base : State → τ

structure Session (ι : Type) where
  start : ι
  flags : ℕ
  requests : List Request

def Session.Valid {ι : Type} (w : Session ι) : Prop :=
  (w.flags &&& O_RDWR ≠ 0 ∨ w.flags &&& O_WRONLY ≠ 0) ∧ ∀ q ∈ w.requests, q.Valid

def FlatFile.runAll (c : Bytes) : List (List Request) → List (List Answer) × Bytes
  | [] => ([], c)
  | qs :: rest =>
    let (as, c') := run c qs
    let (ass, c'') := runAll c' rest
    (as :: ass, c'')

lemma RawFileIO.openFile_fresh (raw : Bytes) {flags : ℕ}
    (h : flags &&& O_RDWR ≠ 0 ∨ flags &&& O_WRONLY ≠ 0) :
    ∃ f, RawFileIO.fileIO.openFile flags (.fresh raw) = .ok 3 f ∧ Opened f raw := by
  have hrequest : (!decide (flags &&& O_RDWR = 0) || !decide (flags &&& O_WRONLY = 0)) = true := by
    simpa [not_and_or] using h
  have hfd : (0 : ℤ) ≤ 3 := by decide
  refine ⟨{ RawFile.fresh raw with fd := 3, canWrite := true }, ?_, rfl, hfd, rfl,
    fun h => by cases h⟩
  simp only [openFile, RawFileIO.fileIO, Action.get_bind, RawFile.fresh, SystemCalls.whole]
  simp [hrequest]

namespace FileObject

variable {ι : Type}

def session (O : FileObject RawFile ι) (w : Session ι) (raw : Bytes) :
    Option (List Answer × Bytes) :=
  match O.openFile w.flags (O.made w.start (.fresh raw)) with
  | .error _ _ => none
  | .ok res o =>
    if res < 0 then none
    else
      match O.accessors.run w.requests o with
      | .ok as o => some (as, (O.base o).raw)
      | .error _ _ => none

/-- `P raw c` reads: whatever object opens a raw file with these bytes, the content is `c`. -/
def Keeps (O : FileObject RawFile ι) (P : Bytes → Bytes → Prop) : Prop :=
  ∀ (raw c : Bytes) (w : Session ι), w.Valid → P raw c →
    ∃ raw', O.session w raw = some ((FlatFile.run c w.requests).1, raw') ∧
      P raw' (FlatFile.run c w.requests).2

lemma keeps_of_refinesFlat {O : FileObject RawFile ι} {P : Bytes → Bytes → Prop}
    (h : ∀ (w : Session ι) {raw c : Bytes}, w.Valid → P raw c →
      ∃ (Q : O.State → Bytes → Prop) (o : O.State),
        O.openFile w.flags (O.made w.start (.fresh raw)) = .ok 3 o ∧ O.accessors.RefinesFlat Q ∧
          Q o c ∧ ∀ {o c'}, Q o c' → P (O.base o).raw c') :
    O.Keeps P := by
  intro raw c w hw hraw
  obtain ⟨Q, o, hopen, hflat, hopened, hclosed⟩ := h w hw hraw
  obtain ⟨o', hrun, hQ⟩ := hflat.run hopened w.requests hw.2
  refine ⟨(O.base o').raw, ?_, hclosed hQ⟩
  rw [FileObject.session, hopen]
  simp only [hrun]
  rfl

end FileObject

def sessionsOf {τ ω α : Type} (session : ω → τ → Option (α × τ)) :
    List ω → τ → Option (List α × τ)
  | [], s => some ([], s)
  | w :: ws, s => do
    let (a, s) ← session w s
    let (as, s) ← sessionsOf session ws s
    some (a :: as, s)

/-- The answers of sessions with what they are about, `Q` says what one does. -/
inductive Sessions {γ ω α : Type} (Q : ω → γ → α → γ → Prop) :
    List ω → γ → List α → γ → Prop
  | nil (c : γ) : Sessions Q [] c [] c
  | cons {w : ω} {ws : List ω} {c c₁ c₂ : γ} {a : α} {as : List α} (first : Q w c a c₁)
      (rest : Sessions Q ws c₁ as c₂) : Sessions Q (w :: ws) c (a :: as) c₂

lemma Sessions.imp {γ ω α : Type} {Q Q' : ω → γ → α → γ → Prop}
    (hQ : ∀ {w c a c'}, Q w c a c' → Q' w c a c') {ws : List ω} {c c' : γ} {as : List α}
    (h : Sessions Q ws c as c') : Sessions Q' ws c as c' := by
  induction h with
  | nil c => exact .nil c
  | cons first _ ih => exact .cons (hQ first) ih

lemma sessionsOf_refines {τ γ ω α : Type} {session : ω → τ → Option (α × τ)} {P : τ → γ → Prop}
    {Q : ω → γ → α → γ → Prop} {ws : List ω}
    (h : ∀ w ∈ ws, ∀ {s c}, P s c → ∃ a s' c', session w s = some (a, s') ∧ Q w c a c' ∧ P s' c')
    {s : τ} {c : γ} (hs : P s c) :
    ∃ as s' c', sessionsOf session ws s = some (as, s') ∧ Sessions Q ws c as c' ∧ P s' c' := by
  induction ws generalizing s c with
  | nil => exact ⟨[], s, c, rfl, .nil c, hs⟩
  | cons w ws ih =>
    obtain ⟨a, s₁, c₁, h₁, hQ, hs₁⟩ := h w List.mem_cons_self hs
    obtain ⟨as, s₂, c₂, h₂, hrest, hs₂⟩ := ih (fun w' hw' => h w' (List.mem_cons_of_mem w hw')) hs₁
    refine ⟨a :: as, s₂, c₂, ?_, .cons hQ hrest, hs₂⟩
    rw [sessionsOf, h₁]
    dsimp only [Option.bind_eq_bind, Option.bind_some]
    rw [h₂]
    rfl

lemma Sessions.runAll {ω : Type} {requests : ω → List Request} {ws : List ω} {c c' : Bytes}
    {as : List (List Answer)}
    (h : Sessions (fun w c a c' => (a, c') = FlatFile.run c (requests w)) ws c as c') :
    (as, c') = FlatFile.runAll c (ws.map requests) := by
  induction h with
  | nil c => rfl
  | cons first _ ih =>
    rw [List.map_cons, FlatFile.runAll, ← first]
    dsimp only
    rw [← ih]

end EncFS
