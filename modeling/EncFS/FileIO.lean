import EncFS.FlatArray
import Mathlib.Algebra.GroupWithZero.Nat

/-! The file interface of the stack, and the flat byte array that each of its layers should be. -/

set_option autoImplicit false

namespace EncFS

open FlatArray

abbrev Bytes := List UInt8

inductive RlogError
  | assertFailed
  | noRandomIV
  | macMismatch
  | invalidBlockSize
  | nameTooSmall
  | invalidPadding
  | checksumMismatch
  | nameChangeFailed
  | undefined
  deriving DecidableEq, Repr

abbrev Action (σ α : Type) := EStateM RlogError σ α

namespace Action

variable {σ α β : Type}

lemma bind_ok {x : Action σ α} {f : α → Action σ β} {s s' : σ} {a : α}
    (h : x s = .ok a s') : (x >>= f) s = f a s' := by
  simp only [bind, EStateM.bind, h]

lemma bind_error {x : Action σ α} {f : α → Action σ β} {s s' : σ} {e : RlogError}
    (h : x s = .error e s') : (x >>= f) s = .error e s' := by
  simp only [bind, EStateM.bind, h]

@[simp] lemma pure_run (a : α) (s : σ) : (pure a : Action σ α) s = .ok a s := rfl

@[simp] lemma get_bind (f : σ → Action σ β) (s : σ) : (get >>= f) s = f s s := rfl

@[simp] lemma set_bind (s' : σ) (f : PUnit → Action σ β) (s : σ) :
    (set s' >>= f) s = f ⟨⟩ s' := rfl

@[simp] lemma modify_bind (g : σ → σ) (f : PUnit → Action σ β) (s : σ) :
    (modify g >>= f) s = f ⟨⟩ (g s) := rfl

@[simp] lemma pure_bind_run (a : α) (f : α → Action σ β) (s : σ) : (pure a >>= f) s = f a s := rfl

end Action

def O_RDONLY : ℕ := 0
def O_WRONLY : ℕ := 1
def O_RDWR : ℕ := 2
def EISDIR : ℤ := 21

lemma or_O_RDWR (flags : ℕ) : (flags ||| O_RDWR) &&& O_RDWR ≠ 0 := by
  rw [Nat.and_or_distrib_right, Nat.and_self]
  exact fun h => absurd (Nat.or_eq_zero_iff.mp h).2 (by decide)

structure Accessors (σ : Type) where
  getSize : Action σ ℤ
  read : (offset dataLen : ℕ) → Action σ (Option Bytes)
  write : (offset : ℕ) → (data : Bytes) → Action σ Bool

structure FileIO (σ : Type) extends Accessors σ where
  openFile : ℕ → Action σ ℤ
  setIV : UInt64 → Action σ Bool
  truncate : ℕ → Action σ ℤ
  isWritable : Action σ Bool

inductive Request
  | read (offset dataLen : ℕ)
  | write (offset : ℕ) (data : Bytes)
  deriving DecidableEq, Repr

inductive Answer
  | bytes (result : Option Bytes)
  | done (ok : Bool)
  deriving DecidableEq, Repr

def Request.Valid : Request → Prop
  | .read _ _ => True
  | .write _ data => data ≠ []

inductive Operation
  | request (q : Request)
  | truncate (size : ℕ)
  deriving DecidableEq, Repr

def Operation.Valid : Operation → Prop
  | .request q => q.Valid
  | .truncate _ => True

namespace FlatFile

def serve (c : Bytes) : Request → Answer × Bytes
  | .read offset dataLen => (.bytes (some (slice c offset dataLen)), c)
  | .write offset data => (.done true, splice 0 c offset data)

def run (c : Bytes) : List Request → List Answer × Bytes
  | [] => ([], c)
  | q :: qs =>
    let (a, c') := serve c q
    let (as, c'') := run c' qs
    (a :: as, c'')

def apply (c : Bytes) : Operation → Bytes
  | .request q => (serve c q).2
  | .truncate size => resize 0 c size

def applyAll (c : Bytes) (ops : List Operation) : Bytes :=
  ops.foldl apply c

end FlatFile

namespace Accessors

variable {σ : Type}

def serve (A : Accessors σ) : Request → Action σ Answer
  | .read offset dataLen => do
    let result ← A.read offset dataLen
    pure (.bytes result)
  | .write offset data => do
    let ok ← A.write offset data
    pure (.done ok)

def run (A : Accessors σ) : List Request → Action σ (List Answer)
  | [] => pure []
  | q :: qs => do
    let a ← A.serve q
    let as ← A.run qs
    pure (a :: as)

/-- `R s c` reads: a file object in state `s` stands for the flat byte array `c`. -/
structure ReadsFlat (A : Accessors σ) (R : σ → Bytes → Prop) : Prop where
  getSize {s c} : R s c → ∃ s', A.getSize s = .ok c.length s' ∧ R s' c
  read {s c} (offset dataLen : ℕ) : R s c →
    ∃ s', A.read offset dataLen s = .ok (some (slice c offset dataLen)) s' ∧ R s' c

structure RefinesFlat (A : Accessors σ) (R : σ → Bytes → Prop) : Prop extends A.ReadsFlat R where
  write {s c} (offset : ℕ) {data : Bytes} : R s c → data ≠ [] →
    ∃ s', A.write offset data s = .ok true s' ∧ R s' (splice 0 c offset data)

def readAll (A : Accessors σ) : (offset : ℕ) → List ℕ → Action σ Bytes
  | _, [] => pure []
  | offset, n :: ns => do
    match ← A.read offset n with
    | none => pure []
    | some result => do
      let rest ← A.readAll (offset + n) ns
      pure (result ++ rest)

variable {A : Accessors σ} {R : σ → Bytes → Prop}

lemma ReadsFlat.unique (h : A.ReadsFlat R) {s : σ} {c c' : Bytes} (hc : R s c) (hc' : R s c') :
    c = c' := by
  obtain ⟨s₁, h₁, -⟩ := h.getSize hc
  obtain ⟨s₂, h₂, -⟩ := h.getSize hc'
  have hlen : c.length = c'.length := by
    have hsame := h₁.symm.trans h₂
    injection hsame with hlen
    exact Int.ofNat_inj.mp hlen
  obtain ⟨s₃, h₃, -⟩ := h.read 0 c.length hc
  obtain ⟨s₄, h₄, -⟩ := h.read 0 c.length hc'
  have hsame := h₃.symm.trans h₄
  injection hsame with hbytes
  rw [← slice_zero_length c, Option.some.inj hbytes, slice_all (Nat.le_of_eq hlen.symm)]

lemma ReadsFlat.readAll (h : A.ReadsFlat R) {s : σ} {c : Bytes} (hs : R s c) (offset : ℕ)
    (ns : List ℕ) :
    ∃ s', A.readAll offset ns s = .ok (slice c offset ns.sum) s' ∧ R s' c := by
  induction ns generalizing s offset with
  | nil => exact ⟨s, by simp [Accessors.readAll], hs⟩
  | cons n ns ih =>
    obtain ⟨s₁, h₁, hr₁⟩ := h.read offset n hs
    obtain ⟨s₂, h₂, hr₂⟩ := ih hr₁ (offset + n)
    refine ⟨s₂, ?_, hr₂⟩
    rw [Accessors.readAll, Action.bind_ok h₁]
    simp only
    rw [Action.bind_ok h₂, slice_append_slice]
    rfl

lemma ReadsFlat.readAll_content (h : A.ReadsFlat R) {s : σ} {c : Bytes} (hs : R s c)
    {ns : List ℕ} (hn : c.length ≤ ns.sum) : ∃ s', A.readAll 0 ns s = .ok c s' := by
  obtain ⟨s', he, -⟩ := h.readAll hs 0 ns
  exact ⟨s', by rw [he, slice_all hn]⟩

lemma RefinesFlat.serve (h : A.RefinesFlat R) {s : σ} {c : Bytes} (hs : R s c) (q : Request)
    (hq : q.Valid) :
    ∃ s', A.serve q s = .ok (FlatFile.serve c q).1 s' ∧ R s' (FlatFile.serve c q).2 := by
  cases q with
  | read offset dataLen =>
    obtain ⟨s', he, hr⟩ := h.read offset dataLen hs
    exact ⟨s', by rw [Accessors.serve, Action.bind_ok he]; rfl, hr⟩
  | write offset data =>
    obtain ⟨s', he, hr⟩ := h.write offset hs hq
    exact ⟨s', by rw [Accessors.serve, Action.bind_ok he]; rfl, hr⟩

lemma RefinesFlat.run (h : A.RefinesFlat R) {s : σ} {c : Bytes} (hs : R s c) (qs : List Request)
    (hq : ∀ q ∈ qs, q.Valid) :
    ∃ s', A.run qs s = .ok (FlatFile.run c qs).1 s' ∧ R s' (FlatFile.run c qs).2 := by
  induction qs generalizing s c with
  | nil => exact ⟨s, rfl, hs⟩
  | cons q qs ih =>
    obtain ⟨s₁, h₁, hr₁⟩ := h.serve hs q (hq q (by simp))
    obtain ⟨s₂, h₂, hr₂⟩ := ih hr₁ (fun q' hq' => hq q' (by simp [hq']))
    refine ⟨s₂, ?_, hr₂⟩
    rw [Accessors.run, Action.bind_ok h₁, Action.bind_ok h₂]
    rfl

end Accessors

/-- A layer that is open for writing, never fails and keeps its content as a flat byte array. -/
structure FileIO.FlatStore {σ : Type} (F : FileIO σ) (R : σ → Bytes → Prop) : Prop
    extends F.toAccessors.RefinesFlat R where
  openFile {s c} (flags : ℕ) : R s c →
    ∃ res s', F.openFile flags s = .ok res s' ∧ 0 ≤ res ∧ R s' c
  truncate {s c} (size : ℕ) : R s c →
    ∃ s', F.truncate size s = .ok 0 s' ∧ R s' (resize 0 c size)
  isWritable {s c} : R s c → ∃ s', F.isWritable s = .ok true s' ∧ R s' c

def plainFile : FileIO Bytes where
  getSize := fun c => .ok c.length c
  read offset dataLen := fun c => .ok (some (slice c offset dataLen)) c
  write offset data := fun c => .ok true (splice 0 c offset data)
  openFile _ := fun c => .ok 0 c
  setIV _ := fun c => .ok true c
  truncate size := fun c => .ok 0 (resize 0 c size)
  isWritable := fun c => .ok true c

lemma plainFile_flatStore : plainFile.FlatStore (fun s c => s = c) where
  getSize {s c} h := ⟨s, by rw [← h]; rfl, h⟩
  read {s c} offset n h := ⟨s, by rw [← h]; rfl, h⟩
  write {s c} offset data h _ := ⟨_, rfl, by rw [h]⟩
  openFile {s c} flags h := ⟨0, s, rfl, Int.le_refl 0, h⟩
  truncate {s c} size h := ⟨_, rfl, by rw [h]⟩
  isWritable {s c} h := ⟨s, rfl, h⟩

end EncFS
