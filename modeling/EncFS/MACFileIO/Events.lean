import EncFS.BlockFileIO.Model
import EncFS.MACFileIO.Refinement
import EncFS.Outcome

set_option autoImplicit false

namespace EncFS

open FlatArray

inductive Event
  | loaded (offset : ℕ) (raw : Bytes)
  | stored (offset : ℕ) (data : Bytes)
  deriving DecidableEq, Repr

structure Logged (τ : Type) where
  file : τ
  events : List Event
  deriving DecidableEq, Repr

namespace Logged

variable {τ α : Type}

def lift (x : Action τ α) : Action (Logged τ) α := fun l =>
  match x l.file with
  | .ok a s => .ok a { l with file := s }
  | .error e s => .error e { l with file := s }

def record (e : Event) : Action (Logged τ) PUnit :=
  modify fun l => { l with events := e :: l.events }

end Logged

structure FileIO.Bounded {τ : Type} (base : FileIO τ) : Prop where
  read (offset n : ℕ) (s : τ) : Yields (base.read offset n) s
    (fun r _ => ∀ raw, r = some raw → raw.length ≤ n) fun e _ => e ≠ .undefined
  write (offset : ℕ) (data : Bytes) (s : τ) : Yields (base.write offset data) s
    (fun _ _ => True) fun e _ => e ≠ .undefined
  getSize (s : τ) : Yields base.getSize s (fun _ _ => True) fun e _ => e ≠ .undefined

def FileIO.logged {τ : Type} (base : FileIO τ) : FileIO (Logged τ) where
  getSize := Logged.lift base.getSize
  read offset n := do
    match ← Logged.lift (base.read offset n) with
    | none => pure none
    | some raw => do
      Logged.record (.loaded offset raw)
      pure (some raw)
  write offset data := do
    Logged.record (.stored offset data)
    Logged.lift (base.write offset data)
  openFile flags := Logged.lift (base.openFile flags)
  setIV iv := Logged.lift (base.setIV iv)
  truncate size := Logged.lift (base.truncate size)
  isWritable := Logged.lift base.isWritable

namespace MACFileIO

variable {τ : Type} (M : MACFileIO τ)

def audited : MACFileIO (Logged τ) :=
  { M with base := M.base.logged }

def Written (W : List (ℕ × Bytes)) (pos : ℕ) (b : UInt8) : Prop :=
  ∃ w ∈ W, w.1 ≤ pos ∧ w.2[pos - w.1]? = some b

inductive Vouched (L : List Event) (W : List (ℕ × Bytes)) (k i : ℕ) (b : UInt8) : Prop
  | checked {raw : Bytes} (mem : .loaded (k * M.bs) raw ∈ L) (ok : M.macMatches raw = true)
      (byte : raw[M.headerSize + i]? = some b)
  | hole {raw : Bytes} (mem : .loaded (k * M.bs) raw ∈ L) (holes : M.allowHoles = true)
      (zero : raw.all (· == 0) = true) (byte : raw[M.headerSize + i]? = some b)
  | composed {header data : Bytes} (mem : .stored (k * M.bs) (header ++ data) ∈ L)
      (len : header.length = M.headerSize) (byte : data[i]? = some b)
      (source : b = 0 ∨ Written W (k * M.dataBlockSize + i) b)

structure VouchedBlock (L : List Event) (W : List (ℕ × Bytes)) (k : ℕ) (data : Bytes) :
    Prop where
  length_le : data.length ≤ M.dataBlockSize
  byte {i : ℕ} {b : UInt8} : data[i]? = some b → M.Vouched L W k i b

structure Sourced (L : List Event) (W : List (ℕ × Bytes)) (k : ℕ) (data : Bytes) : Prop where
  length_le : data.length ≤ M.dataBlockSize
  byte {i : ℕ} {b : UInt8} : data[i]? = some b →
    (b = 0 ∨ Written W (k * M.dataBlockSize + i) b) ∨ M.Vouched L W k i b

def VouchedFrom (L : List Event) (W : List (ℕ × Bytes)) (offset : ℕ) (out : Bytes) : Prop :=
  ∀ i b, out[i]? = some b →
    M.Vouched L W ((offset + i) / M.dataBlockSize) ((offset + i) % M.dataBlockSize) b

def Passes : Event → Prop
  | .loaded _ raw => raw.length ≤ M.headerSize ∨ M.Accepted raw
  | .stored _ _ => True

variable {M} {L L' : List Event} {W : List (ℕ × Bytes)}

lemma Vouched.mono (hL : L ⊆ L') {k i : ℕ} {b : UInt8} (h : M.Vouched L W k i b) :
    M.Vouched L' W k i b := by
  cases h with
  | checked mem ok byte => exact .checked (hL mem) ok byte
  | hole mem holes zero byte => exact .hole (hL mem) holes zero byte
  | composed mem len byte source => exact .composed (hL mem) len byte source

lemma Vouched.mono_requests {W' : List (ℕ × Bytes)} (hW : W ⊆ W') {k i : ℕ} {b : UInt8}
    (h : M.Vouched L W k i b) : M.Vouched L W' k i b := by
  cases h with
  | checked mem ok byte => exact .checked mem ok byte
  | hole mem holes zero byte => exact .hole mem holes zero byte
  | composed mem len byte source =>
    refine .composed mem len byte (source.imp_right ?_)
    rintro ⟨w, hw, h⟩
    exact ⟨w, hW hw, h⟩

lemma VouchedBlock.nil (k : ℕ) : M.VouchedBlock L W k [] where
  length_le := Nat.zero_le _
  byte {i b} hi := by simp at hi

lemma VouchedBlock.take {k n : ℕ} {data : Bytes} (h : M.VouchedBlock L W k data) :
    M.VouchedBlock L W k (data.take n) where
  length_le := Nat.le_trans (List.length_take_le' n data) h.length_le
  byte {i b} hi := by
    rw [List.getElem?_take] at hi
    split at hi
    · exact h.byte hi
    · cases hi

def Guarded (M : MACFileIO τ) (W : List (ℕ × Bytes)) (o : Cached (MACFile (Logged τ))) : Prop :=
  o.cache.data ≠ [] → ∃ k, o.cache.offset = k * M.dataBlockSize ∧
    M.VouchedBlock o.file.base.events W k o.cache.data

def After (P : Event → Prop) (o o' : MACFile (Logged τ)) : Prop :=
  ∃ new, o'.base.events = new ++ o.base.events ∧ ∀ e ∈ new, P e

lemma After.refl {P : Event → Prop} (o : MACFile (Logged τ)) : After P o o :=
  ⟨[], rfl, fun _ h => by cases h⟩

lemma After.trans {P : Event → Prop} {o₁ o₂ o₃ : MACFile (Logged τ)} (h : After P o₁ o₂)
    (h' : After P o₂ o₃) : After P o₁ o₃ := by
  obtain ⟨new, he, hp⟩ := h
  obtain ⟨new', he', hp'⟩ := h'
  refine ⟨new' ++ new, by rw [he', he, List.append_assoc], fun e hm => ?_⟩
  exact (List.mem_append.mp hm).elim (hp' e) (hp e)

lemma After.weaken {P Q : Event → Prop} {o o' : MACFile (Logged τ)} (h : After P o o')
    (hpq : ∀ e, P e → Q e) : After Q o o' := by
  obtain ⟨new, he, hp⟩ := h
  exact ⟨new, he, fun e hm => hpq e (hp e hm)⟩

lemma After.subset {P : Event → Prop} {o o' : MACFile (Logged τ)} (h : After P o o') :
    o.base.events ⊆ o'.base.events := by
  obtain ⟨new, he, -⟩ := h
  rw [he]
  exact List.subset_append_right new _

section Layers

variable {α : Type}

lemma logged_lift_yields {x : Action τ α} {l : Logged τ} {Q : α → Prop}
    (hx : Yields x l.file (fun a _ => Q a) fun e _ => e ≠ .undefined) :
    Yields (Logged.lift x) l (fun a l' => l'.events = l.events ∧ Q a)
      fun e l' => l'.events = l.events ∧ e ≠ .undefined := by
  cases hrun : x l.file with
  | ok a s =>
    exact Yields.of_ok (t := { l with file := s }) (by rw [Logged.lift, hrun]) ⟨rfl, hx.ok hrun⟩
  | error e s =>
    exact Yields.of_error (t := { l with file := s }) (by rw [Logged.lift, hrun])
      ⟨rfl, hx.error hrun⟩

lemma logged_read_yields {base : FileIO τ} (hbase : base.Bounded) (l : Logged τ) (offset n : ℕ) :
    Yields (base.logged.read offset n) l
      (fun r l' => match r with
        | none => l'.events = l.events
        | some raw => l'.events = .loaded offset raw :: l.events ∧ raw.length ≤ n)
      fun e l' => l'.events = l.events ∧ e ≠ .undefined := by
  refine Yields.bind ((logged_lift_yields (hbase.read offset n l.file)).mono ?_ fun _ _ he => he)
  rintro r l' ⟨he, hr⟩
  cases r with
  | none => exact he
  | some raw => exact Yields.modify (Yields.pure ⟨congrArg (_ :: ·) he, hr raw rfl⟩)

lemma logged_write_yields {base : FileIO τ} (hbase : base.Bounded) (l : Logged τ) (offset : ℕ)
    (data : Bytes) :
    Yields (base.logged.write offset data) l
      (fun _ l' => l'.events = .stored offset data :: l.events)
      fun e l' => l'.events = .stored offset data :: l.events ∧ e ≠ .undefined :=
  Yields.modify ((logged_lift_yields (l := { l with events := .stored offset data :: l.events })
    (hbase.write offset data l.file)).mono (fun _ _ he => he.1) fun _ _ he => he)

end Layers

section Primitives

lemma getSize_yields (hbase : M.base.Bounded) (f : MACFile (Logged τ)) :
    Yields M.audited.getSize f (fun _ f' => After M.Passes f f')
      fun e f' => After M.Passes f f' ∧ e ≠ .undefined := by
  refine Yields.bind (MACFile.lift_yields
    ((logged_lift_yields (hbase.getSize f.base.file)).mono ?_ ?_))
  · rintro size s ⟨he, -⟩
    have hafter : After M.Passes f { f with base := s } := ⟨[], he, fun _ h => by cases h⟩
    by_cases hs : 0 < size
    · rw [if_pos hs]
      exact hafter
    · rw [if_neg hs]
      exact hafter
  · exact fun e s he => ⟨⟨[], he.1, fun _ h => by cases h⟩, he.2⟩

lemma checkBlock_yields (hwarn : M.warnOnly = false) (f : MACFile (Logged τ)) (raw : Bytes) :
    Yields (M.audited.checkBlock raw) f
      (fun r f' => f' = f ∧ (raw.length ≤ M.headerSize ∨ M.Accepted raw) ∧
        (r = some [] ∨ (r = some (raw.drop M.headerSize) ∧ M.Accepted raw)))
      (fun e f' => f' = f ∧ e ≠ .undefined) := by
  change Yields (if M.headerSize < raw.length then
    if M.skipBlock raw = false ∧ M.macMatches raw = false ∧ M.warnOnly = false then
      throw RlogError.macMismatch else pure (some (raw.drop M.headerSize)) else pure (some [])) f _ _
  by_cases hlen : M.headerSize < raw.length
  · rw [if_pos hlen]
    by_cases hbad : M.skipBlock raw = false ∧ M.macMatches raw = false ∧ M.warnOnly = false
    · rw [if_pos hbad]
      exact Yields.of_error rfl ⟨rfl, by decide⟩
    · rw [if_neg hbad]
      have ha : M.Accepted raw := by
        by_contra hno
        simp only [Accepted, not_or, Bool.not_eq_true] at hno
        exact hbad ⟨hno.1, hno.2, hwarn⟩
      exact Yields.pure ⟨rfl, .inr ha, .inr ⟨rfl, ha⟩⟩
  · rw [if_neg hlen]
    exact Yields.pure ⟨rfl, .inl (Nat.not_lt.mp hlen), .inl rfl⟩

variable (hmac : 0 < M.macBytes)
include hmac

lemma vouched_of_accepted {raw : Bytes} {k : ℕ} (hm : .loaded (k * M.bs) raw ∈ L)
    (hlen : raw.length ≤ M.headerSize + M.dataBlockSize) (ha : M.Accepted raw) :
    M.VouchedBlock L W k (raw.drop M.headerSize) where
  length_le := by
    rw [List.length_drop]
    omega
  byte {i b} hi := by
    rw [List.getElem?_drop] at hi
    rcases ha with hskip | hmatch
    · rw [skipBlock] at hskip
      cases hh : M.allowHoles with
      | false =>
        rw [hh, if_neg (by simp), beq_iff_eq] at hskip
        omega
      | true =>
        rw [hh, if_pos rfl] at hskip
        exact .hole hm hh hskip hi
    · exact .checked hm hmatch hi

lemma readOneBlock_yields (hwarn : M.warnOnly = false) (hbase : M.base.Bounded)
    (f : MACFile (Logged τ)) (k : ℕ) :
    Yields (M.audited.readOneBlock (k * M.dataBlockSize) M.dataBlockSize) f
      (fun r f' => After M.Passes f f' ∧ ∀ data, r = some data →
        M.VouchedBlock f'.base.events W k data)
      (fun e f' => After (fun _ => True) f f' ∧ e ≠ .undefined) := by
  have hloc : locWithHeader (k * M.dataBlockSize) M.audited.bs M.audited.headerSize = k * M.bs :=
    locWithHeader_mul M.dataBlockSize_pos k
  rw [readOneBlock, hloc]
  refine Yields.bind (MACFile.lift_yields ((logged_read_yields hbase f.base _ _).mono ?_ ?_))
  · intro r s he
    cases r with
    | none => exact ⟨⟨[], he, fun _ h => by cases h⟩, fun data hd => by cases hd⟩
    | some raw =>
      obtain ⟨he, hraw⟩ := he
      have hmem : Event.loaded (k * M.bs) raw ∈ s.events := by
        rw [he]
        exact List.mem_cons_self
      have hafter {P : Event → Prop} (hp : P (.loaded (k * M.bs) raw)) :
          After P f { f with base := s } :=
        ⟨[.loaded (k * M.bs) raw], he, fun e hm => by rwa [List.mem_singleton.mp hm]⟩
      refine (checkBlock_yields hwarn { f with base := s } raw).mono ?_ ?_
      · rintro r _ ⟨rfl, hpass, hr⟩
        refine ⟨hafter hpass, fun data hd => ?_⟩
        rcases hr with rfl | ⟨rfl, ha⟩
        · rw [← Option.some.inj hd]
          exact .nil k
        · rw [← Option.some.inj hd]
          exact vouched_of_accepted hmac hmem hraw ha
      · rintro e _ ⟨rfl, he⟩
        exact ⟨hafter trivial, he⟩
  · intro e s he
    exact ⟨⟨[], he.1, fun _ h => by cases h⟩, he.2⟩

omit hmac in
lemma randomHeader_yields (f : MACFile (Logged τ)) :
    Yields M.audited.randomHeader f
      (fun r f' => f'.base = f.base ∧ ∀ rand, r = some rand → rand.length = M.randBytes)
      fun _ _ => False := by
  change Yields (if 0 < M.randBytes then _ else _) f _ _
  by_cases hpos : 0 < M.randBytes
  · rw [if_pos hpos]
    exact Yields.of_ok (t := { f with draws := f.draws + 1 }) rfl
      ⟨rfl, fun rand hr => M.random.randomize_length hr⟩
  · rw [if_neg hpos]
    refine Yields.of_ok (t := f) rfl ⟨rfl, fun rand hr => ?_⟩
    rw [← Option.some.inj hr, Nat.eq_zero_of_not_pos hpos]
    rfl

omit hmac in
lemma writeOneBlock_yields (hbase : M.base.Bounded) (f : MACFile (Logged τ)) (k : ℕ)
    (data : Bytes) :
    Yields (M.audited.writeOneBlock (k * M.dataBlockSize) data) f
      (fun ok f' => After M.Passes f f' ∧ (ok = true → ∃ header, header.length = M.headerSize ∧
        .stored (k * M.bs) (header ++ data) ∈ f'.base.events))
      (fun e f' => After M.Passes f f' ∧ (data ≠ [] → ∃ header, header.length = M.headerSize ∧
        .stored (k * M.bs) (header ++ data) ∈ f'.base.events) ∧ e ≠ .undefined) := by
  have hloc : locWithHeader (k * M.dataBlockSize) M.audited.bs M.audited.headerSize = k * M.bs :=
    locWithHeader_mul M.dataBlockSize_pos k
  rw [writeOneBlock, hloc]
  refine Yields.bind ((randomHeader_yields f).mono ?_ fun _ _ h => h.elim)
  rintro r f₁ ⟨hsame, hr⟩
  have hunchanged : After M.Passes f f₁ := ⟨[], by rw [hsame]; rfl, fun _ h => by cases h⟩
  cases r with
  | none => exact Yields.pure ⟨hunchanged, fun h => by cases h⟩
  | some rand =>
    dsimp only
    by_cases hnothing : M.audited.ChecksNothing rand data
    · rw [if_pos hnothing]
      have hnil : data = [] := (List.append_eq_nil_iff.mp hnothing.2.2).2
      exact Yields.of_error rfl ⟨hunchanged, fun hne => absurd hnil hne, by decide⟩
    rw [if_neg hnothing]
    obtain ⟨header, hlen, heq, -⟩ := withHeader_eq M data (hr rand rfl)
    have heq' : M.audited.withHeader rand data = header ++ data := heq
    have hstored {s : Logged τ}
        (he : s.events = .stored (k * M.bs) (M.audited.withHeader rand data) :: f₁.base.events) :
        After M.Passes f { f₁ with base := s } ∧ ∃ header, header.length = M.headerSize ∧
          .stored (k * M.bs) (header ++ data) ∈ s.events := by
      refine ⟨⟨[_], by rw [← hsame]; exact he, fun e hm => ?_⟩, header, hlen, ?_⟩
      · rw [List.mem_singleton.mp hm]
        trivial
      · rw [he, heq']
        exact List.mem_cons_self
    refine MACFile.lift_yields ((logged_write_yields hbase f₁.base _ _).mono ?_ ?_)
    · intro ok s he
      obtain ⟨h₁, h₂⟩ := hstored he
      exact ⟨h₁, fun _ => h₂⟩
    · rintro e s ⟨he, hdefined⟩
      obtain ⟨h₁, h₂⟩ := hstored he
      exact ⟨h₁, fun _ => h₂, hdefined⟩

end Primitives

end MACFileIO

end EncFS
