import EncFS.BlockFileIO.Invariants
import EncFS.CipherFileIO.FaultyBase
import EncFS.CipherFileIO.RawFormat

set_option autoImplicit false

namespace EncFS

open FlatArray CipherFile
open BlockFileIO (OfFile preserves_lift preserves_read preserves_truncate preserves_write)

namespace BaseFile

def called (b : BaseFile) : BaseFile := { b with calls := b.calls + 1 }

lemma read_yields (b : BaseFile) (offset n : ℕ) :
    Yields (read offset n) b
      (fun r b' => b' = b.called ∧ (r = some (slice b.raw offset n) ∨
        r = none ∧ b.faults.read b.calls offset = some .fails))
      fun _ b' => b' = b.called := by
  refine .get (.set ?_)
  cases hfault : b.faults.read b.calls offset with
  | none => exact .pure ⟨rfl, .inl rfl⟩
  | some fault =>
    cases fault with
    | fails => exact .pure ⟨rfl, .inr ⟨rfl, rfl⟩⟩
    | raises => exact .of_error rfl rfl

def Lands (b : BaseFile) (offset : ℕ) (data d : Bytes) : Prop :=
  d = data ∨ ∃ fault n, b.faults.write b.calls offset = some (fault, n) ∧ d = data.take n

def Written (b : BaseFile) (offset : ℕ) (data : Bytes) (b' : BaseFile) : Prop :=
  ∃ d, b.Lands offset data d ∧ b' = { b.called with raw := land b.raw offset d }

lemma write_yields {b : BaseFile} (hcan : b.canWrite = true) (offset : ℕ) (data : Bytes) :
    Yields (write offset data) b (fun _ => b.Written offset data) fun _ => b.Written offset data := by
  refine .get ?_
  rw [if_pos hcan]
  cases hfault : b.faults.write b.calls offset with
  | none => exact .set (.pure ⟨data, .inl rfl, rfl⟩)
  | some stored =>
    obtain ⟨fault, n⟩ := stored
    refine .set ?_
    have hwritten : b.Written offset data
        { b.called with raw := land b.raw offset (data.take n) } :=
      ⟨data.take n, .inr ⟨fault, n, hfault, rfl⟩, rfl⟩
    cases fault with
    | fails => exact .pure hwritten
    | raises => exact .of_error rfl hwritten

lemma write_refused {b : BaseFile} (hcan : b.canWrite = false) (offset : ℕ) (data : Bytes) :
    write offset data b = .error .assertFailed b := by
  simp only [write, Action.get_bind, hcan]
  rfl

lemma requestWrite_or (flags : ℕ) : requestWrite (flags ||| O_RDWR) = true := by
  simp [requestWrite, or_O_RDWR flags]

lemma openFile_yields (b : BaseFile) (flags : ℕ) :
    Yields (openFile flags) b
      (fun res b' => res = b.faults.openFile b.calls ∧ b' = { b.called with
        canWrite := b.canWrite || (decide (0 ≤ res) && requestWrite flags) })
      fun _ _ => False := by
  refine .get ?_
  dsimp only
  by_cases h : 0 ≤ b.faults.openFile b.calls
  · rw [if_pos h]
    refine .set (.pure ⟨rfl, ?_⟩)
    simp [called, h]
  · rw [if_neg h]
    refine .set (.pure ⟨rfl, ?_⟩)
    simp [called, h]

end BaseFile

namespace CipherFileIO

variable (F : CipherFileIO BaseFile)

def Agrees (f : CipherFile BaseFile) : Prop :=
  f.fileIV ≠ 0 → HEADER_SIZE ≤ f.base.raw.length ∧
    ivOfBytes (F.cipher.streamDecode f.externalIV (f.base.raw.take HEADER_SIZE)) = f.fileIV

inductive FileCall
  | openFile (flags : ℕ)
  | request (q : Request)
  | truncate (size : ℕ)
  deriving DecidableEq, Repr

def call : FileCall → Action (Cached (CipherFile BaseFile)) PUnit
  | .openFile flags => do
    let _ ← Cached.lift (F.open' flags)
    pure ⟨⟩
  | .request q => do
    let _ ← F.blockFile.accessors.serve q
    pure ⟨⟩
  | .truncate size => do
    let _ ← F.truncate size
    pure ⟨⟩

def withFaults (faults : BaseFaults) (o : Cached (CipherFile BaseFile)) :
    Cached (CipherFile BaseFile) :=
  { o with file := { o.file with base := { o.file.base with calls := 0, faults := faults } } }

def step (o : Cached (CipherFile BaseFile)) (c : FileCall) (faults : BaseFaults) :
    Cached (CipherFile BaseFile) :=
  finalState (F.call c) (withFaults faults o)

end CipherFileIO

namespace BaseFile

def LoadsHeader (b : BaseFile) : Prop :=
  HEADER_SIZE ≤ b.raw.length → ∀ i, b.faults.read i 0 ≠ some .fails

def StoresHeader (b : BaseFile) : Prop :=
  ∀ i fault n, b.faults.write i 0 = some (fault, n) → HEADER_SIZE ≤ n

def MakesHeader (b : BaseFile) : Prop :=
  b.raw.length < HEADER_SIZE → b.canWrite = true ∧ b.StoresHeader

end BaseFile

namespace CipherFileIO

/-- The calls in which the file IV is found, or made and stored, if that is not done yet. -/
def HeaderSafe (b : BaseFile) : FileCall → Prop
  | .openFile _ => True
  | .request (.read _ _) => b.LoadsHeader
  | .request (.write _ _) => b.LoadsHeader ∧ (b.raw = [] → b.canWrite = true ∧ b.StoresHeader)
  | .truncate _ => b.LoadsHeader ∧ (b.raw.length < HEADER_SIZE →
      (b.canWrite = true ∨ ∀ i, 0 ≤ b.faults.openFile i) ∧ b.StoresHeader)

inductive Reached (F : CipherFileIO BaseFile) (allowed : CipherFile BaseFile → FileCall → Prop) :
    Cached (CipherFile BaseFile) → Prop
  | fresh (raw : Bytes) (externalIV : UInt64) (draws : ℕ) :
      Reached F allowed ⟨.empty, ⟨⟨raw, false, 0, .none⟩, externalIV, 0, 0, draws⟩⟩
  | step {o : Cached (CipherFile BaseFile)} (h : Reached F allowed o) (c : FileCall)
      (faults : BaseFaults) (allow : allowed (withFaults faults o).file c) :
      Reached F allowed (F.step o c faults)

/-- The calls that keep file IV and header together. -/
def Careful (f : CipherFile BaseFile) (c : FileCall) : Prop :=
  f.fileIV = 0 → HeaderSafe f.base c

inductive Mode
  | reading
  | writing
  | ready

def Mode.Safe : Mode → BaseFile → Prop
  | .reading, b => b.LoadsHeader
  | .writing, b => b.LoadsHeader ∧ b.MakesHeader
  | .ready, _ => False

lemma Mode.Safe.called {mode : Mode} {b : BaseFile} (h : mode.Safe b) : mode.Safe b.called := by
  cases mode with
  | reading => exact h
  | writing => exact h
  | ready => exact h

def Inv (F : CipherFileIO BaseFile) (mode : Mode) (f : CipherFile BaseFile) : Prop :=
  F.Agrees f ∧ (f.fileIV = 0 → mode.Safe f.base)

section Primitives

variable {F : CipherFileIO BaseFile} {f : CipherFile BaseFile} {mode : Mode}

lemma Inv.called (h : F.Inv mode f) : F.Inv mode { f with base := f.base.called } :=
  ⟨h.1, fun h0 => (h.2 h0).called⟩

lemma inv_of_ready (h : F.Inv .ready f) : F.Inv mode f :=
  ⟨h.1, fun h0 => (h.2 h0).elim⟩

lemma Inv.agrees_ne (h : F.Inv .ready f) : f.fileIV ≠ 0 := fun h0 => h.2 h0

variable (hF : F.base = BaseFile.fileIO) (hh : F.haveHeader = true)
  (hC : F.cipher.Lawful F.blockSize)
include hF

lemma isWritable_run {f : CipherFile BaseFile} (hcan : f.base.canWrite = true) :
    lift F.base.isWritable f = .ok true f := by
  rw [hF, ← hcan]
  rfl

lemma readHeader_yields (h0 : f.fileIV = 0) (hlen : HEADER_SIZE ≤ f.base.raw.length)
    (hload : f.base.LoadsHeader) {Q : CipherFile BaseFile → Prop}
    (hback : Q { f with base := f.base.called }) :
    Yields F.readHeader f (fun _ => F.Inv .ready) fun _ => Q := by
  rw [readHeader, hF]
  refine .bind (lift_yields ((f.base.read_yields 0 HEADER_SIZE).mono ?_ ?_))
  · rintro r b ⟨rfl, hr⟩
    have hsome : r = some (f.base.raw.take HEADER_SIZE) := by
      rcases hr with rfl | ⟨-, hfail⟩
      · rfl
      · exact (hload hlen _ hfail).elim
    have hbuf : resize 0 (r.getD []) HEADER_SIZE = f.base.raw.take HEADER_SIZE := by
      rw [hsome, Option.getD_some, resize_eq_take 0 (by rw [List.length_take]; omega),
        List.take_take, Nat.min_self]
    refine .get (.set ?_)
    rw [hbuf]
    dsimp only
    generalize hv : ivOfBytes (F.cipher.streamDecode f.externalIV
      (f.base.raw.take HEADER_SIZE)) = v
    by_cases hzero : v = 0
    · rw [if_pos hzero]
      have hsame : ({ f with base := f.base.called, fileIV := v } : CipherFile BaseFile) =
          { f with base := f.base.called } := by
        rw [hzero, ← h0]
      exact .of_error rfl (hsame ▸ hback)
    · rw [if_neg hzero]
      exact .pure ⟨fun _ => ⟨hlen, hv⟩, fun h => (hzero h).elim⟩
  · rintro e b rfl
    exact hback

include hC

lemma createHeader_yields (hlen : f.base.raw.length < HEADER_SIZE) (hmake : f.base.MakesHeader)
    {Q : CipherFile BaseFile → Prop} (hready : ∀ f', F.Inv .ready f' → Q f')
    (hback : ∀ draws, Q { f with draws := draws }) :
    Yields F.createHeader f (fun _ => F.Inv .ready) fun _ => Q := by
  obtain ⟨hcan, hstore⟩ := hmake hlen
  refine .get ?_
  dsimp only
  cases hdraw : F.random.randomize (F.random.firstUsable f.draws) HEADER_SIZE with
  | none => exact .set (.of_error rfl (hback _))
  | some buf =>
    have hne : ivOfBytes buf ≠ 0 := by
      have := F.random.usable_firstUsable f.draws
      rw [hdraw] at this
      simpa [usableIV] using this
    have hbuf := F.random.randomize_length hdraw
    have hcode : (F.cipher.streamEncode f.externalIV buf).length = HEADER_SIZE := by
      rw [hC.streamEncode_length, hbuf]
    have hcode_ne : F.cipher.streamEncode f.externalIV buf ≠ [] :=
      List.ne_nil_of_length_pos (by rw [hcode]; decide)
    have hinv {b : BaseFile}
        (hb : f.base.Written 0 (F.cipher.streamEncode f.externalIV buf) b) :
        F.Inv .ready { f with base := b, fileIV := ivOfBytes buf,
                              draws := F.random.firstUsable f.draws + 1 } := by
      obtain ⟨d, hd, rfl⟩ := hb
      obtain rfl : d = F.cipher.streamEncode f.externalIV buf := by
        rcases hd with rfl | ⟨fault, n, hfault, rfl⟩
        · rfl
        · exact List.take_of_length_le (by rw [hcode]; exact hstore _ _ _ hfault)
      refine ⟨fun _ => ?_, fun h => (hne h).elim⟩
      dsimp only
      rw [land_start hcode_ne (by omega), ← hcode, List.take_length, hC.streamDecode_streamEncode]
      exact ⟨Nat.le_refl _, rfl⟩
    refine .set (.bind (.of_ok (isWritable_run hF hcan) ?_))
    refine .bind (lift_yields ?_)
    rw [hF]
    exact (BaseFile.write_yields hcan 0 _).mono (fun _ b hb => .pure (hinv hb))
      fun _ b hb => hready _ (hinv hb)

lemma initHeader_yields (h0 : f.fileIV = 0) (hload : f.base.LoadsHeader)
    (hmake : f.base.MakesHeader) {Q : CipherFile BaseFile → Prop}
    (hready : ∀ f', F.Inv .ready f' → Q f') (hback : ∀ draws, Q { f with draws := draws })
    (hcalled : Q { f with base := f.base.called }) :
    Yields F.initHeader f (fun _ => F.Inv .ready) fun _ => Q := by
  have hsize : lift F.base.getSize f = .ok f.base.raw.length f := by
    rw [hF]
    exact lift_ok rfl
  refine .bind (.of_ok hsize ?_)
  by_cases hlen : HEADER_SIZE ≤ f.base.raw.length
  · rw [if_pos (Int.ofNat_le.mpr hlen)]
    exact readHeader_yields hF h0 hlen hload hcalled
  · rw [if_neg fun h => hlen (Int.ofNat_le.mp h)]
    exact createHeader_yields hF hC (Nat.not_le.mp hlen) hmake hready hback

include hh

lemma needHeader_yields (h : F.Inv mode f)
    (hmake : f.fileIV = 0 → mode.Safe f.base → f.base.MakesHeader) :
    Yields F.needHeader f (fun _ => F.Inv .ready) fun _ => F.Inv mode := by
  refine .get ?_
  by_cases h0 : f.fileIV = 0
  · rw [if_pos ⟨hh, h0⟩]
    have hsafe := h.2 h0
    have hload : f.base.LoadsHeader := by
      cases mode with
      | reading => exact hsafe
      | writing => exact hsafe.1
      | ready => exact hsafe.elim
    exact initHeader_yields hF hC h0 hload (hmake h0 hsafe) (fun _ => inv_of_ready)
      (fun _ => ⟨h.1, h.2⟩) h.called
  · rw [if_neg fun h => h0 h.2]
    exact .pure ⟨h.1, fun h => (h0 h).elim⟩

omit hC hh in
lemma preserves_getSize : Preserves (F.Inv mode) F.getSize := by
  intro f h
  have hsize : lift F.base.getSize f = .ok f.base.raw.length f := by
    rw [hF]
    exact lift_ok rfl
  refine .bind (.of_ok hsize ?_)
  split
  · split
    · exact .pure h
    · exact .of_error rfl h
  · exact .pure h

lemma preserves_readOneBlock (offset n : ℕ) : Preserves (F.Inv mode) (F.readOneBlock offset n) := by
  intro f h
  rw [readOneBlock, hF]
  refine .bind (lift_yields ((f.base.read_yields (offset + F.headerSize) n).mono ?_ ?_))
  · rintro r b ⟨rfl, hr⟩
    cases r with
    | none => exact .pure h.called
    | some buf =>
      dsimp only
      by_cases hbuf : buf = []
      · rw [if_pos hbuf]
        exact .pure h.called
      rw [if_neg hbuf]
      have hslice : buf = slice f.base.raw (offset + F.headerSize) n := by
        rcases hr with hr | ⟨hr, -⟩
        · exact Option.some.inj hr
        · cases hr
      have hlong : HEADER_SIZE ≤ f.base.raw.length := by
        by_contra hshort
        refine hbuf (hslice.trans (slice_eq_nil ?_))
        rw [headerSize, if_pos hh]
        omega
      refine .bind ((needHeader_yields hF hh hC h.called fun _ _ hlt =>
        absurd hlong (Nat.not_le.mpr hlt)).mono (fun _ f' hf' => ?_) fun _ _ hf' => hf')
      exact .get (.pure (inv_of_ready hf'))
  · rintro e b rfl
    exact h.called

lemma preserves_writeOneBlock (hmode : ∀ b, mode.Safe b → b.MakesHeader) (offset : ℕ)
    (data : Bytes) : Preserves (F.Inv mode) (F.writeOneBlock offset data) := by
  intro f h
  refine .bind ((needHeader_yields hF hh hC h fun _ => hmode f.base).mono
    (fun _ f' hf' => .get ?_) fun _ _ hf' => hf')
  split
  · exact .of_error rfl (inv_of_ready hf')
  refine lift_yields ?_
  rw [hF]
  by_cases hcan : f'.base.canWrite = true
  · have hinv {b : BaseFile} (hb : f'.base.Written (offset + F.headerSize)
        (F.encodeBlock f'.fileIV (offset / F.blockSize) data) b) :
        F.Inv mode { f' with base := b } := by
      obtain ⟨d, -, rfl⟩ := hb
      obtain ⟨hlen, hiv⟩ := hf'.1 hf'.agrees_ne
      have hle : HEADER_SIZE ≤ offset + F.headerSize := by
        rw [headerSize, if_pos hh]
        omega
      obtain ⟨hlen', htake⟩ := land_take (d := d) hle hlen
      refine ⟨fun _ => ⟨hlen', ?_⟩, fun h0 => (hf'.2 h0).elim⟩
      rw [htake]
      exact hiv
    exact (BaseFile.write_yields hcan _ _).mono (fun _ _ hb => hinv hb) fun _ _ hb => hinv hb
  · exact .of_error (BaseFile.write_refused (Bool.eq_false_iff.mpr hcan) _ _) (inv_of_ready hf')

end Primitives

section Calls

variable {F : CipherFileIO BaseFile} (hF : F.base = BaseFile.fileIO) (hh : F.haveHeader = true)
  (hC : F.cipher.Lawful F.blockSize)
include hF

lemma preserves_open (flags : ℕ) : Preserves F.Agrees (F.open' flags) := by
  intro f h
  rw [open', hF]
  refine .bind (lift_yields ((f.base.openFile_yields flags).mono ?_ fun _ _ h => h.elim))
  rintro res b ⟨-, rfl⟩
  split
  · exact .modify (.pure h)
  · exact .pure h

include hC

lemma openForHeader_yields {f : CipherFile BaseFile} (h : F.Agrees f)
    (hsafe : f.fileIV = 0 → f.base.LoadsHeader ∧ (f.base.raw.length < HEADER_SIZE →
      (f.base.canWrite = true ∨ ∀ i, 0 ≤ f.base.faults.openFile i) ∧ f.base.StoresHeader)) :
    Yields F.openForHeader f (fun _ => F.Inv .ready) fun _ => F.Agrees := by
  refine .get ?_
  by_cases h0 : f.fileIV = 0
  · rw [if_pos h0]
    obtain ⟨hload, hmake⟩ := hsafe h0
    have hwritable : lift F.base.isWritable f = .ok f.base.canWrite f := by
      rw [hF]
      exact lift_ok rfl
    refine .bind (.of_ok hwritable ?_)
    cases hcan : f.base.canWrite with
    | true =>
      exact initHeader_yields hF hC h0 hload (fun hlt => ⟨hcan, (hmake hlt).2⟩) (fun _ h => h.1)
        (fun _ => h) h
    | false =>
      dsimp only
      rw [hF]
      refine .bind (lift_yields ((f.base.openFile_yields _).mono ?_ fun _ _ h => h.elim))
      rintro res b ⟨rfl, rfl⟩
      refine initHeader_yields (f := { f with base := { f.base.called with canWrite := _ } }) hF hC
        h0 hload (fun hlt => ⟨?_, (hmake hlt).2⟩) (fun _ h => h.1) (fun _ => h) h
      have hopens := (hmake hlt).1.resolve_left (by simp [hcan])
      simp [hopens, BaseFile.requestWrite_or]
  · rw [if_neg h0]
    exact .pure ⟨h, fun h => (h0 h).elim⟩

omit hC in
lemma preserves_truncateBase (size : ℕ) :
    Preserves (F.Inv .ready) (lift (F.base.truncate (size + HEADER_SIZE))) := by
  intro f h
  refine lift_yields ?_
  rw [hF]
  obtain ⟨hlen, hiv⟩ := h.1 h.agrees_ne
  refine .get ?_
  cases hfault : f.base.faults.truncate f.base.calls with
  | none =>
    refine .set (.pure ⟨fun _ => ?_, h.2⟩)
    dsimp only
    rw [resize_length, ← resize_eq_take 0 (by rw [resize_length]; omega),
      resize_resize 0 _ (.inl (by omega)), resize_eq_take 0 hlen]
    exact ⟨by omega, hiv⟩
  | some fault =>
    refine .set ?_
    cases fault with
    | fails => exact .pure h.called
    | raises => exact .of_error rfl h.called

include hh

lemma call_agrees {o : Cached (CipherFile BaseFile)} (h : F.Agrees o.file) {c : FileCall}
    (hc : Careful o.file c) :
    Yields (F.call c) o (fun _ o' => F.Agrees o'.file) fun _ o' => F.Agrees o'.file := by
  have hdone {α : Type} {x : Action (Cached (CipherFile BaseFile)) α} {I : CipherFile BaseFile → Prop}
      (hI : ∀ f, I f → F.Agrees f)
      (hx : Yields x o (fun _ => BlockFileIO.OfFile I) fun _ => BlockFileIO.OfFile I) :
      Yields (do let _ ← x; pure PUnit.unit) o (fun _ o' => F.Agrees o'.file)
        fun _ o' => F.Agrees o'.file :=
    .bind (hx.mono (fun _ _ h => .pure (hI _ h)) fun _ _ h => hI _ h)
  have hready : o.file.fileIV ≠ 0 → F.Inv .ready o.file := fun hne => ⟨h, fun h0 => (hne h0).elim⟩
  cases c with
  | openFile flags =>
    exact hdone (fun _ h => h) (preserves_lift (preserves_open hF flags) o h)
  | request q =>
    cases q with
    | read offset n =>
      have hinv : F.Inv .reading o.file := ⟨h, hc⟩
      exact hdone (fun _ h => h.1) (.bind ((preserves_read (B := F.blockFile)
        (preserves_readOneBlock hF hh hC) offset n o hinv).mono (fun _ _ h => .pure h) fun _ _ h => h))
    | write offset data =>
      have hserve (mode : Mode) (hmode : ∀ b, mode.Safe b → b.MakesHeader)
          (hinv : F.Inv mode o.file) : Yields (F.call (.request (.write offset data))) o
            (fun _ o' => F.Agrees o'.file) fun _ o' => F.Agrees o'.file :=
        hdone (fun _ h => h.1) (.bind ((preserves_write (B := F.blockFile)
          (preserves_readOneBlock hF hh hC) (preserves_getSize hF)
          (preserves_writeOneBlock hF hh hC hmode) offset data o hinv).mono
            (fun _ _ h => .pure h) fun _ _ h => h))
      by_cases h0 : o.file.fileIV = 0
      · obtain ⟨hload, hmake⟩ := hc h0
        by_cases hlen : o.file.base.raw.length = 0 ∨ HEADER_SIZE ≤ o.file.base.raw.length
        · refine hserve .writing (fun _ h => h.2) ⟨h, fun _ => ⟨hload, fun hlt => ?_⟩⟩
          exact hmake (List.length_eq_zero_iff.mp (hlen.resolve_right (Nat.not_le.mpr hlt)))
        · -- the size of such a file is refused
          have hsize : F.getSize o.file = .error .assertFailed o.file := by
            have hraw : lift F.base.getSize o.file = .ok o.file.base.raw.length o.file := by
              rw [hF]
              exact lift_ok rfl
            rw [getSize, Action.bind_ok hraw, if_pos ⟨hh, by omega⟩, if_neg (by omega)]
            rfl
          exact hdone (fun _ h => h) (.bind (.of_error (Action.bind_error
            (Cached.lift_error hsize)) h))
      · exact hserve .ready (fun _ h => h.elim) (hready h0)
  | truncate size =>
    refine hdone (fun _ h => h) ?_
    rw [truncate, if_pos hh]
    refine .bind (Cached.lift_yields ((openForHeader_yields hF hC h hc).mono (fun _ f hf => ?_)
      fun _ _ h => h))
    have hagrees {α : Type} {x : Action (Cached (CipherFile BaseFile)) α}
        {o : Cached (CipherFile BaseFile)} (ho : F.Inv .ready o.file)
        (hx : Preserves (OfFile (F.Inv .ready)) x) :
        Yields x o (fun _ => BlockFileIO.OfFile F.Agrees) fun _ => BlockFileIO.OfFile F.Agrees :=
      (hx o ho).mono (fun _ _ h => h.1) fun _ _ h => h.1
    have hready : ∀ b, Mode.ready.Safe b → b.MakesHeader := fun _ h => False.elim h
    have hwrite (offset : ℕ) (data : Bytes) : Preserves (F.Inv .ready) (F.writeOneBlock offset data) :=
      preserves_writeOneBlock hF hh hC hready offset data
    refine hagrees hf (.bind (preserves_truncate (B := F.blockFile)
      (preserves_readOneBlock hF hh hC) (preserves_getSize hF) hwrite
      (fun _ h => by cases h) size) fun res => ?_)
    exact .ite (fun _ => .bind (preserves_lift (preserves_truncateBase hF size))
      fun _ => .pure res) fun _ => .pure res

lemma step_agrees {o : Cached (CipherFile BaseFile)} (h : F.Agrees o.file) {c : FileCall}
    {faults : BaseFaults} (hc : Careful (withFaults faults o).file c) :
    F.Agrees (F.step o c faults).file :=
  (call_agrees hF hh hC (o := withFaults faults o) h hc).final

lemma Reached.agrees {o : Cached (CipherFile BaseFile)} (h : F.Reached Careful o) :
    F.Agrees o.file := by
  induction h with
  | fresh raw externalIV draws => exact fun h => (h rfl).elim
  | step _ c faults allow ih => exact step_agrees hF hh hC ih allow

omit hh hC in
lemma Agrees.reopen {f : CipherFile BaseFile} (h : F.Agrees f) (hne : f.fileIV ≠ 0)
    (hfaults : f.base.faults = .none) :
    ∃ f', F.initHeader { f with fileIV := 0 } = .ok ⟨⟩ f' ∧ f'.fileIV = f.fileIV := by
  obtain ⟨hlen, hiv⟩ := h hne
  have hsize : lift F.base.getSize { f with fileIV := 0 } =
      .ok f.base.raw.length { f with fileIV := 0 } := by
    rw [hF]
    exact lift_ok rfl
  have hread : lift (F.base.read 0 HEADER_SIZE) { f with fileIV := 0 } =
      .ok (some (slice f.base.raw 0 HEADER_SIZE)) { f with base := f.base.called, fileIV := 0 } := by
    rw [hF]
    refine lift_ok ?_
    have hnone : f.base.faults.read f.base.calls 0 = none := by
      rw [hfaults]
      rfl
    simp only [BaseFile.read, BaseFile.fileIO, Action.get_bind, Action.set_bind, hnone]
    rfl
  have hbuf : resize 0 (slice f.base.raw 0 HEADER_SIZE) HEADER_SIZE =
      f.base.raw.take HEADER_SIZE := by
    rw [slice, List.drop_zero, resize_eq_take 0 (by rw [List.length_take]; omega), List.take_take,
      Nat.min_self]
  refine ⟨{ f with base := f.base.called }, ?_, rfl⟩
  rw [initHeader, Action.bind_ok hsize, if_pos (Int.ofNat_le.mpr hlen), readHeader, Action.bind_ok hread,
    Action.get_bind]
  simp only [Option.getD_some, hbuf, hiv, if_neg hne]
  rfl

/-- In a run of careful calls the file IV is the one in the header, and is found there again. -/
theorem headers_agree {o : Cached (CipherFile BaseFile)} (h : F.Reached Careful o) :
    F.Agrees o.file ∧ (o.file.fileIV ≠ 0 → ∃ f',
      F.initHeader { (withFaults .none o).file with fileIV := 0 } = .ok ⟨⟩ f' ∧
        f'.fileIV = o.file.fileIV) := by
  have hagrees := h.agrees hF hh hC
  have hcalm : F.Agrees (withFaults .none o).file := hagrees
  exact ⟨hagrees, fun hne => hcalm.reopen hF hne rfl⟩

end Calls

def faultyMask : CipherFileIO BaseFile where
  base := BaseFile.fileIO
  cipher := maskCipher
  random := onesSource
  blockSize := 4
  blockSize_gt := smallBlock_gt
  allowHoles := false
  haveHeader := true
  reverseEncryption := false

def headerLost : BaseFaults :=
  { BaseFaults.none with
    write := fun _ offset => if offset = 0 then some (.fails, 0) else Option.none }

def newFile : Cached (CipherFile BaseFile) :=
  faultyMask.step ⟨.empty, ⟨⟨[], false, 0, .none⟩, 3, 0, 0, 0⟩⟩ (.openFile O_RDWR) .none

theorem not_headers_agree :
    faultyMask.Reached (fun _ _ => True) newFile ∧
      ∃ o', faultyMask.blockFile.write 0 [7] (withFaults headerLost newFile) = .ok true o' ∧
        ¬ faultyMask.Agrees o'.file := by
  refine ⟨.step (.fresh [] 3 0) _ _ trivial, _, rfl, ?_⟩
  intro h
  have := (h (by decide)).2
  revert this
  decide

theorem headers_agree_newFile :
    faultyMask.Agrees (faultyMask.step newFile (.request (.write 0 [7])) .none).file ∧
      ((faultyMask.step newFile (.request (.write 0 [7])) .none).file.fileIV ≠ 0 → ∃ f',
        faultyMask.initHeader { (withFaults .none
          (faultyMask.step newFile (.request (.write 0 [7])) .none)).file with fileIV := 0 } =
            .ok ⟨⟩ f' ∧
          f'.fileIV = (faultyMask.step newFile (.request (.write 0 [7])) .none).file.fileIV) :=
  headers_agree rfl rfl (maskCipher_lawful 4) (.step (.step (.fresh [] 3 0) _ _ fun _ => trivial) _ _
    fun _ => ⟨fun h => absurd h (by decide), fun _ => ⟨rfl, fun _ _ _ h => by cases h⟩⟩)

end CipherFileIO

end EncFS
