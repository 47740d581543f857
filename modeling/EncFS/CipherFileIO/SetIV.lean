import EncFS.CipherFileIO.Headers

set_option autoImplicit false

namespace EncFS

open FlatArray CipherFile

lemma land_zero (raw d : Bytes) : land raw 0 d = d ++ raw.drop d.length := by
  by_cases hd : d = []
  · simp [land, hd]
  · simp [land, hd, splice, resize]

section

variable {σ α : Type} {x : Action σ α} {s t : σ}

lemma run'_ok {a : α} (h : x s = .ok a t) : x.run' s = some a := by
  delta EStateM.run' EStateM.run
  rw [h]

lemma run'_error {e : RlogError} (h : x s = .error e t) : x.run' s = none := by
  delta EStateM.run' EStateM.run
  rw [h]

end

namespace BaseFile

def opened (b : BaseFile) : BaseFile := { b.called with canWrite := true }

variable {b : BaseFile} (hcan : b.canWrite = true) (offset : ℕ) (data : Bytes)
include hcan

lemma write_stores (h : b.faults.write b.calls offset = none) :
    write offset data b = .ok true { b.called with raw := land b.raw offset data } := by
  rw [write, Action.get_bind, if_pos hcan, h]
  rfl

lemma write_fails {n : ℕ} (h : b.faults.write b.calls offset = some (.fails, n)) :
    write offset data b = .ok false { b.called with raw := land b.raw offset (data.take n) } := by
  rw [write, Action.get_bind, if_pos hcan, h]
  rfl

lemma write_raises {n : ℕ} (h : b.faults.write b.calls offset = some (.raises, n)) :
    write offset data b =
      .error .assertFailed { b.called with raw := land b.raw offset (data.take n) } := by
  rw [write, Action.get_bind, if_pos hcan, h]
  rfl

omit hcan in
lemma read_finds (n : ℕ) (h : b.faults.read b.calls offset = none) :
    read offset n b = .ok (some (slice b.raw offset n)) b.called := by
  rw [read, Action.get_bind, Action.set_bind, h]
  rfl

omit hcan in
lemma read_fails (n : ℕ) (h : b.faults.read b.calls offset = some .fails) :
    read offset n b = .ok none b.called := by
  rw [read, Action.get_bind, Action.set_bind, h]
  rfl

omit hcan in
lemma read_raises (n : ℕ) (h : b.faults.read b.calls offset = some .raises) :
    read offset n b = .error .assertFailed b.called := by
  rw [read, Action.get_bind, Action.set_bind, h]
  rfl

omit hcan in
lemma openFile_fails {res : ℤ} (flags : ℕ) (h : b.faults.openFile b.calls = res) (hres : res < 0) :
    openFile flags b = .ok res b.called := by
  subst h
  exact congrFun (if_neg (Int.not_le.mpr hres)) b

omit hcan in
lemma openFile_writes {res : ℤ} (flags : ℕ) (h : b.faults.openFile b.calls = res) (hres : 0 ≤ res) :
    openFile (flags ||| O_RDWR) b = .ok res b.opened := by
  subst h
  refine (congrFun (if_pos hres) b).trans ?_
  rw [requestWrite_or, Bool.or_true]
  rfl

end BaseFile

namespace CipherFileIO

variable (F : CipherFileIO BaseFile)

def header (ext v : UInt64) : Bytes :=
  F.cipher.streamEncode ext (bytesOfIV v)

def headerIV (f : CipherFile BaseFile) : UInt64 :=
  ivOfBytes (F.cipher.streamDecode f.externalIV (f.base.raw.take HEADER_SIZE))

def usedIV (f : CipherFile BaseFile) : UInt64 :=
  if f.fileIV = 0 then F.headerIV f else f.fileIV

def calm (f : CipherFile BaseFile) : CipherFile BaseFile :=
  { f with base := { f.base with faults := .none } }

def SameBlocks (f f' : CipherFile BaseFile) : Prop :=
  ∀ offset n, (F.readOneBlock offset n).run' (calm f') = (F.readOneBlock offset n).run' (calm f)

/-- The header decodes under the new IV to the IV it decoded to before, and so do the blocks. -/
def Kept (f f' : CipherFile BaseFile) (iv : UInt64) : Prop :=
  ∀ v g, F.Headed f.externalIV v f.base.raw g →
    F.Headed iv v f'.base.raw g ∧ F.usedIV f' = F.usedIV f ∧ F.SameBlocks f f'

def Unchanged (f f' : CipherFile BaseFile) : Prop :=
  f'.base.raw = f.base.raw ∧ f'.externalIV = f.externalIV ∧ F.usedIV f' = F.usedIV f

/-- The header is as it was under the new IV after a success, and as it was after a failure. -/
def Atomic (f : CipherFile BaseFile) (iv : UInt64) : Prop :=
  match F.setIV iv f with
  | .ok true f' => F.Kept f f' iv
  | .ok false f' => F.Unchanged f f'
  | .error _ _ => True

def Restores (b : BaseFile) (call : ℕ) (iv w v : UInt64) : Prop :=
  match b.faults.write call 0 with
  | none => w = v
  | some (.fails, n) => (F.header iv w).take n ++ (b.raw.take HEADER_SIZE).drop n = F.header iv v
  | some (.raises, _) => True

/-- With the file IV in memory: the file cannot be opened for writing, the header is not written
without an error, or it is written in full and is that of the file. -/
def RekeysLoaded (f : CipherFile BaseFile) (iv v : UInt64) : Prop :=
  let b := f.base
  let call := if b.canWrite then b.calls else b.calls + 1
  (b.canWrite = false ∧ b.faults.openFile b.calls < 0) ∨
    (∃ n, b.faults.write call 0 = some (.raises, n)) ∨
    (f.fileIV = v ∧ F.Restores b call iv v v)

/-- Without it the header is read before. -/
def RekeysUnloaded (f : CipherFile BaseFile) (iv v : UInt64) : Prop :=
  let b := f.base
  if b.faults.openFile b.calls < 0 then
    b.faults.openFile b.calls = -EISDIR → b.raw.take HEADER_SIZE = F.header iv v
  else
    match b.faults.read (b.calls + 1) 0 with
    | none => v = 0 ∨ F.Restores b (b.calls + 2) iv v v
    | some .fails =>
      let w := ivOfBytes (F.cipher.streamDecode f.externalIV (List.replicate HEADER_SIZE 0))
      w = 0 ∨ F.Restores b (b.calls + 2) iv w v
    | some .raises => True

def Rekeys (f : CipherFile BaseFile) (iv v : UInt64) : Prop :=
  if f.fileIV = 0 then F.RekeysUnloaded f iv v else F.RekeysLoaded f iv v

variable {F} {f f' : CipherFile BaseFile} {iv ext v w : UInt64} {raw g d : Bytes}

section Header

variable (hC : F.cipher.Lawful F.blockSize)
include hC

lemma header_length (ext v : UInt64) : (F.header ext v).length = HEADER_SIZE :=
  hC.streamEncode_length _ _

lemma header_injective {v w : UInt64} (h : F.header ext v = F.header ext w) : v = w := by
  have hdecode := congrArg (fun d => ivOfBytes (F.cipher.streamDecode ext d)) h
  simpa only [header, hC.streamDecode_streamEncode, ivOfBytes_bytesOfIV] using hdecode

lemma header_decode (hd : d.length = HEADER_SIZE) :
    F.header ext (ivOfBytes (F.cipher.streamDecode ext d)) = d := by
  rw [header, bytesOfIV_ivOfBytes (by rw [hC.streamDecode_length, hd]), hC.streamEncode_streamDecode]

lemma headed_iff : F.Headed ext v raw g ↔ raw = F.header ext v ++ g := by
  constructor
  · rintro ⟨d, hlen, rfl, rfl⟩
    rw [header_decode hC hlen]
  · rintro rfl
    refine ⟨F.header ext v, header_length hC ext v, ?_, rfl⟩
    rw [header, hC.streamDecode_streamEncode, ivOfBytes_bytesOfIV]

lemma headerIV_eq (h : f.base.raw = F.header f.externalIV v ++ g) : F.headerIV f = v := by
  rw [headerIV, h, List.take_left' (header_length hC _ _), header, hC.streamDecode_streamEncode,
    ivOfBytes_bytesOfIV]

lemma raw_eq (hlen : HEADER_SIZE ≤ f.base.raw.length) :
    f.base.raw = F.header f.externalIV (F.headerIV f) ++ f.base.raw.drop HEADER_SIZE := by
  rw [headerIV, header_decode hC (by rw [List.length_take, Nat.min_eq_left hlen]),
    List.take_append_drop]

end Header

section Reads

variable (hF : F.base = BaseFile.fileIO) (hh : F.haveHeader = true)
include hF

lemma read_calm (f : CipherFile BaseFile) (offset n : ℕ) :
    lift (F.base.read offset n) (calm f) =
      .ok (some (slice f.base.raw offset n)) (calm { f with base := f.base.called }) := by
  rw [hF]
  exact lift_ok rfl

omit hF in
lemma readHeader_eq {f₁ : CipherFile BaseFile} {r : Option Bytes} {w : UInt64}
    (hread : lift (F.base.read 0 HEADER_SIZE) f = .ok r f₁)
    (hw : ivOfBytes (F.cipher.streamDecode f₁.externalIV (resize 0 (r.getD []) HEADER_SIZE)) = w) :
    F.readHeader f = if w = 0 then .error .assertFailed { f₁ with fileIV := w }
      else .ok ⟨⟩ { f₁ with fileIV := w } := by
  rw [readHeader, Action.bind_ok hread, Action.get_bind, hw]
  by_cases h0 : w = 0
  · rw [if_pos h0, if_pos h0]
    rfl
  · rw [if_neg h0, if_neg h0]
    rfl

omit hF in
lemma slice_header (hlen : HEADER_SIZE ≤ raw.length) :
    resize 0 (slice raw 0 HEADER_SIZE) HEADER_SIZE = raw.take HEADER_SIZE := by
  rw [slice, List.drop_zero, resize_eq_take 0 (by rw [List.length_take]; omega), List.take_take,
    Nat.min_self]

lemma readHeader_calm (hlen : HEADER_SIZE ≤ f.base.raw.length) :
    F.readHeader (calm f) = if F.headerIV f = 0
      then .error .assertFailed (calm { f with base := f.base.called, fileIV := F.headerIV f })
      else .ok ⟨⟩ (calm { f with base := f.base.called, fileIV := F.headerIV f }) := by
  refine readHeader_eq (read_calm hF f 0 HEADER_SIZE) ?_
  rw [Option.getD_some, slice_header hlen]
  rfl

include hh

lemma readOneBlock_calm (f : CipherFile BaseFile) (offset n : ℕ) :
    (F.readOneBlock offset n).run' (calm f) =
      if slice f.base.raw (offset + HEADER_SIZE) n = [] then some (some [])
      else if F.usedIV f = 0 then none
      else some (some (F.decodeBlock (F.usedIV f) (offset / F.blockSize)
        (slice f.base.raw (offset + HEADER_SIZE) n))) := by
  have hsize : F.headerSize = HEADER_SIZE := by rw [headerSize, if_pos hh]
  by_cases hbuf : slice f.base.raw (offset + HEADER_SIZE) n = []
  · rw [if_pos hbuf]
    refine run'_ok (t := calm { f with base := f.base.called }) ?_
    rw [readOneBlock, hsize, Action.bind_ok (read_calm hF f _ n), hbuf]
    rfl
  have hrun : F.readOneBlock offset n (calm f) = (do
      F.needHeader
      let f' ← get
      pure (some (F.decodeBlock f'.fileIV (offset / F.blockSize)
        (slice f.base.raw (offset + HEADER_SIZE) n)))) (calm { f with base := f.base.called }) := by
    rw [readOneBlock, hsize, Action.bind_ok (read_calm hF f _ n)]
    dsimp only
    rw [if_neg hbuf]
  rw [if_neg hbuf]
  have hlen : HEADER_SIZE ≤ f.base.raw.length := by
    by_contra hshort
    exact hbuf (slice_eq_nil (by omega))
  by_cases h0 : f.fileIV = 0
  · have hraw : lift F.base.getSize (calm { f with base := f.base.called }) =
        .ok f.base.raw.length (calm { f with base := f.base.called }) := by
      rw [hF]
      exact lift_ok rfl
    have hneed : F.needHeader (calm { f with base := f.base.called }) =
        F.readHeader (calm { f with base := f.base.called }) := by
      rw [needHeader, Action.get_bind, if_pos ⟨hh, h0⟩, initHeader, Action.bind_ok hraw,
        if_pos (Int.ofNat_le.mpr hlen)]
    have hload := readHeader_calm hF (f := { f with base := f.base.called }) hlen
    have hiv : F.headerIV { f with base := f.base.called } = F.headerIV f := rfl
    rw [hiv, ← hneed] at hload
    rw [usedIV, if_pos h0]
    by_cases hzero : F.headerIV f = 0
    · rw [if_pos hzero] at hload ⊢
      exact run'_error (hrun.trans (Action.bind_error hload))
    · rw [if_neg hzero] at hload ⊢
      exact run'_ok (hrun.trans (Action.bind_ok hload))
  · have hneed : F.needHeader (calm { f with base := f.base.called }) =
        .ok ⟨⟩ (calm { f with base := f.base.called }) := by
      rw [needHeader, Action.get_bind, if_neg fun h => h0 h.2]
      rfl
    rw [usedIV, if_neg h0, if_neg h0]
    refine run'_ok (t := calm { f with base := f.base.called }) ?_
    rw [hrun, Action.bind_ok hneed]
    rfl

lemma sameBlocks (hused : F.usedIV f' = F.usedIV f)
    (hbody : f'.base.raw.drop HEADER_SIZE = f.base.raw.drop HEADER_SIZE) : F.SameBlocks f f' := by
  intro offset n
  have hslice : slice f'.base.raw (offset + HEADER_SIZE) n =
      slice f.base.raw (offset + HEADER_SIZE) n := by
    rw [slice, slice, Nat.add_comm, ← List.drop_drop, ← List.drop_drop, hbody]
  rw [readOneBlock_calm hF hh, readOneBlock_calm hF hh, hslice, hused]

end Reads

section Kept

variable (hF : F.base = BaseFile.fileIO) (hh : F.haveHeader = true)
  (hC : F.cipher.Lawful F.blockSize)
include hF hh hC

lemma kept_iff (hlen : HEADER_SIZE ≤ f.base.raw.length) (hd : d.length = HEADER_SIZE)
    (hraw : f'.base.raw = d ++ f.base.raw.drop HEADER_SIZE) (hiv : f'.externalIV = iv)
    (h0 : f'.fileIV = 0) :
    F.Kept f f' iv ↔ d = F.header iv (F.headerIV f) ∧ F.usedIV f = F.headerIV f := by
  have hused {v : UInt64} (h : d = F.header iv v) : F.usedIV f' = v := by
    rw [usedIV, if_pos h0]
    apply headerIV_eq hC (g := f.base.raw.drop HEADER_SIZE)
    rw [hraw, hiv, h]
  have hold := raw_eq hC hlen
  constructor
  · intro h
    obtain ⟨hnew, hsame, -⟩ := h _ _ ((headed_iff hC).mpr hold)
    rw [headed_iff hC, hraw] at hnew
    have hheader : d = F.header iv (F.headerIV f) := List.append_cancel_right hnew
    exact ⟨hheader, by rw [← hsame, hused hheader]⟩
  · rintro ⟨hheader, hsame⟩ v g hg
    rw [headed_iff hC] at hg
    obtain rfl : F.headerIV f = v := headerIV_eq hC hg
    have hbody : f.base.raw.drop HEADER_SIZE = g := by
      rw [hg, List.drop_left' (header_length hC _ _)]
    have hsame' : F.usedIV f' = F.usedIV f := by rw [hused hheader, hsame]
    refine ⟨?_, hsame', sameBlocks hF hh hsame' ?_⟩
    · rw [headed_iff hC, hraw, hheader, hbody]
    · rw [hraw, List.drop_left' hd]

lemma kept_land_iff (hlen : HEADER_SIZE ≤ f.base.raw.length) (hd : d.length ≤ HEADER_SIZE)
    (hraw : f'.base.raw = land f.base.raw 0 d) (hiv : f'.externalIV = iv) (h0 : f'.fileIV = 0) :
    F.Kept f f' iv ↔ d ++ (f.base.raw.take HEADER_SIZE).drop d.length =
      F.header iv (F.headerIV f) ∧ F.usedIV f = F.headerIV f := by
  apply kept_iff hF hh hC hlen
  · rw [List.length_append, List.length_drop, List.length_take, Nat.min_eq_left hlen]
    omega
  · have hrest : f.base.raw.drop d.length =
        (f.base.raw.take HEADER_SIZE).drop d.length ++ f.base.raw.drop HEADER_SIZE := by
      have hsplit := congrArg (List.drop d.length) (List.take_append_drop HEADER_SIZE f.base.raw)
      rw [List.drop_append_of_le_length (by rw [List.length_take]; omega)] at hsplit
      exact hsplit.symm
    rw [hraw, land_zero, hrest, List.append_assoc]
  · exact hiv
  · exact h0

omit hF hh in
lemma kept_short (hlen : ¬ HEADER_SIZE ≤ f.base.raw.length) : F.Kept f f' iv := by
  intro v g hg
  rw [headed_iff hC] at hg
  refine absurd ?_ hlen
  rw [hg, List.length_append, header_length hC]
  omega

end Kept

section Outcomes

variable (hF : F.base = BaseFile.fileIO)
include hF

lemma ensureWritable_writable (hcan : f.base.canWrite = true) :
    F.ensureWritable f = .ok true f := by
  have hwritable : lift F.base.isWritable f = .ok true f := by
    rw [hF, ← hcan]
    exact lift_ok rfl
  rw [ensureWritable, Action.bind_ok hwritable]
  rfl

lemma ensureWritable_opens (hcan : f.base.canWrite = false)
    (hres : 0 ≤ f.base.faults.openFile f.base.calls) :
    F.ensureWritable f = .ok true { f with base := f.base.opened } := by
  have hwritable : lift F.base.isWritable f = .ok false f := by
    rw [hF, ← hcan]
    exact lift_ok rfl
  have hopen : lift (F.base.openFile (f.lastFlags ||| O_RDWR)) f =
      .ok (f.base.faults.openFile f.base.calls) { f with base := f.base.opened } := by
    rw [hF]
    exact lift_ok (BaseFile.openFile_writes _ rfl hres)
  rw [ensureWritable, Action.bind_ok hwritable]
  dsimp only
  rw [Action.get_bind, Action.bind_ok hopen, decide_eq_true hres]
  rfl

lemma ensureWritable_refused (hcan : f.base.canWrite = false)
    (hres : f.base.faults.openFile f.base.calls < 0) :
    F.ensureWritable f = .ok false { f with base := f.base.called } := by
  have hwritable : lift F.base.isWritable f = .ok false f := by
    rw [hF, ← hcan]
    exact lift_ok rfl
  have hopen : lift (F.base.openFile (f.lastFlags ||| O_RDWR)) f =
      .ok (f.base.faults.openFile f.base.calls) { f with base := f.base.called } := by
    rw [hF]
    exact lift_ok (BaseFile.openFile_fails _ rfl hres)
  rw [ensureWritable, Action.bind_ok hwritable]
  dsimp only
  rw [Action.get_bind, Action.bind_ok hopen, decide_eq_false (Int.not_le.mpr hres)]
  rfl

def stored (f : CipherFile BaseFile) (d : Bytes) : CipherFile BaseFile :=
  { f with fileIV := 0, base := { f.base.called with raw := land f.base.raw 0 d } }

lemma updateHeader_written {f₁ f₂ : CipherFile BaseFile} {d : Bytes}
    (hready : F.headerForUpdate f = .ok .ready f₁)
    (hwritable : F.ensureWritable { f₁ with externalIV := iv } = .ok true f₂) :
    (∀ r, BaseFile.write 0 (F.header f₂.externalIV f₂.fileIV) f₂.base =
        .ok r { f₂.base.called with raw := land f₂.base.raw 0 d } →
      F.updateHeader iv f = .ok true (stored f₂ d)) ∧
    ∀ e b, BaseFile.write 0 (F.header f₂.externalIV f₂.fileIV) f₂.base = .error e b →
      F.updateHeader iv f = .error e { f₂ with fileIV := 0, base := b } := by
  have hheader : F.writeHeader { f₁ with externalIV := iv } = (do
      let _ ← lift (F.base.write 0 (F.header f₂.externalIV f₂.fileIV))
      pure true) { f₂ with fileIV := 0 } := by
    rw [writeHeader, Action.bind_ok hwritable]
    rfl
  constructor
  · intro r hwrite
    have hlift : lift (F.base.write 0 (F.header f₂.externalIV f₂.fileIV)) { f₂ with fileIV := 0 } =
        .ok r (stored f₂ d) := by
      rw [hF]
      exact lift_ok hwrite
    rw [Action.bind_ok hlift] at hheader
    rw [updateHeader, Action.bind_ok hready]
    dsimp only
    rw [Action.get_bind, Action.set_bind, Action.bind_ok hheader, hF]
    rfl
  · intro e b hwrite
    have hlift : lift (F.base.write 0 (F.header f₂.externalIV f₂.fileIV)) { f₂ with fileIV := 0 } =
        .error e { f₂ with fileIV := 0, base := b } := by
      rw [hF]
      exact lift_error hwrite
    rw [Action.bind_error hlift] at hheader
    rw [updateHeader, Action.bind_ok hready]
    dsimp only
    rw [Action.get_bind, Action.set_bind, Action.bind_error hheader]

variable (hh : F.haveHeader = true) (hC : F.cipher.Lawful F.blockSize)
include hh hC

lemma atomic_written {f₁ f₂ : CipherFile BaseFile} (hext : f.externalIV ≠ 0)
    (hready : F.headerForUpdate f = .ok .ready f₁)
    (hwritable : F.ensureWritable { f₁ with externalIV := iv } = .ok true f₂)
    (hcan : f₂.base.canWrite = true) (hraw : f₂.base.raw = f.base.raw)
    (hfaults : f₂.base.faults = f.base.faults) (hiv : f₂.externalIV = iv)
    (hlen : HEADER_SIZE ≤ f.base.raw.length) :
    F.Atomic f iv ↔ (∃ n, f.base.faults.write f₂.base.calls 0 = some (.raises, n)) ∨
      F.usedIV f = F.headerIV f ∧
        F.Restores f.base f₂.base.calls iv f₂.fileIV (F.headerIV f) := by
  have hset : F.setIV iv f = F.updateHeader iv f := by
    rw [setIV, Action.get_bind, if_neg hext, if_pos hh]
  have hkept {d : Bytes} (hd : d.length ≤ HEADER_SIZE) :
      F.Kept f (stored f₂ d) iv ↔ d ++ (f.base.raw.take HEADER_SIZE).drop d.length =
        F.header iv (F.headerIV f) ∧ F.usedIV f = F.headerIV f :=
    kept_land_iff hF hh hC hlen hd (congrArg (land · 0 d) hraw) hiv rfl
  have hcode : (F.header f₂.externalIV f₂.fileIV).length = HEADER_SIZE := header_length hC _ _
  rw [Atomic, hset, Restores, ← hfaults]
  cases hfault : f₂.base.faults.write f₂.base.calls 0 with
  | none =>
    rw [(updateHeader_written hF hready hwritable).1 true (BaseFile.write_stores hcan 0 _ hfault)]
    have hrest : (f.base.raw.take HEADER_SIZE).drop HEADER_SIZE = [] := by
      rw [List.drop_take, Nat.sub_self, List.take_zero]
    dsimp only
    rw [hkept (Nat.le_of_eq hcode), hcode, hrest, List.append_nil, hiv]
    constructor
    · rintro ⟨hheader, hsame⟩
      exact .inr ⟨hsame, header_injective hC hheader⟩
    · rintro (⟨n, h⟩ | ⟨hsame, hiv⟩)
      · cases h
      · exact ⟨congrArg _ hiv, hsame⟩
  | some fault =>
    obtain ⟨fault, n⟩ := fault
    cases fault with
    | fails =>
      rw [(updateHeader_written hF hready hwritable).1 false (BaseFile.write_fails hcan 0 _ hfault)]
      have hcut : ((F.header f₂.externalIV f₂.fileIV).take n).length ≤ HEADER_SIZE := by
        rw [List.length_take, hcode]
        exact Nat.min_le_right _ _
      have hrest : (f.base.raw.take HEADER_SIZE).drop
          ((F.header f₂.externalIV f₂.fileIV).take n).length = (f.base.raw.take HEADER_SIZE).drop n := by
        rw [List.length_take, hcode]
        by_cases hn : n ≤ HEADER_SIZE
        · rw [Nat.min_eq_left hn]
        · rw [Nat.min_eq_right (by omega), List.drop_take, List.drop_take, Nat.sub_self,
            Nat.sub_eq_zero_of_le (by omega), List.take_zero, List.take_zero]
      dsimp only
      rw [hkept hcut, hrest, hiv]
      constructor
      · rintro ⟨hheader, hsame⟩
        exact .inr ⟨hsame, hheader⟩
      · rintro (⟨m, h⟩ | ⟨hsame, hheader⟩)
        · cases h
        · exact ⟨hheader, hsame⟩
    | raises =>
      rw [(updateHeader_written hF hready hwritable (d := [])).2 _ _
        (BaseFile.write_raises hcan 0 _ hfault)]
      exact iff_of_true trivial (.inl ⟨n, rfl⟩)

omit hF hh hC in
lemma headerForUpdate_ready (h0 : f.fileIV ≠ 0) : F.headerForUpdate f = .ok .ready f := by
  rw [headerForUpdate, Action.get_bind, if_neg h0]
  rfl

omit hC in
lemma setIV_unopened (hext : f.externalIV ≠ 0) (h0 : f.fileIV ≠ 0)
    (hcan : f.base.canWrite = false) (hres : f.base.faults.openFile f.base.calls < 0) :
    F.setIV iv f = .ok false { f with base := f.base.called } := by
  have hensure : F.ensureWritable { f with externalIV := iv } =
      .ok false { f with externalIV := iv, base := f.base.called } :=
    ensureWritable_refused hF hcan hres
  have hheader : F.writeHeader { f with externalIV := iv } =
      .ok false { f with externalIV := iv, base := f.base.called } := by
    rw [writeHeader, Action.bind_ok hensure]
    rfl
  rw [setIV, Action.get_bind, if_neg hext, if_pos hh, updateHeader,
    Action.bind_ok (headerForUpdate_ready h0)]
  dsimp only
  rw [Action.get_bind, Action.set_bind, Action.bind_ok hheader]
  rfl

lemma atomic_loaded (hext : f.externalIV ≠ 0) (h0 : f.fileIV ≠ 0)
    (hlen : HEADER_SIZE ≤ f.base.raw.length) :
    F.Atomic f iv ↔ F.RekeysLoaded f iv (F.headerIV f) := by
  have hused : F.usedIV f = f.fileIV := if_neg h0
  have hwritten {call : ℕ} {b : BaseFile} (hb : b.canWrite = true) (hraw : b.raw = f.base.raw)
      (hfaults : b.faults = f.base.faults) (hcall : b.calls = call)
      (hensure : F.ensureWritable { f with externalIV := iv } =
        .ok true { f with externalIV := iv, base := b }) :
      F.Atomic f iv ↔ (∃ n, f.base.faults.write call 0 = some (.raises, n)) ∨
        f.fileIV = F.headerIV f ∧ F.Restores f.base call iv (F.headerIV f) (F.headerIV f) := by
    subst hcall
    rw [atomic_written hF hh hC hext (headerForUpdate_ready h0) hensure hb hraw hfaults rfl hlen, hused]
    refine or_congr_right (and_congr_right fun hsame => ?_)
    dsimp only
    rw [hsame]
  rw [RekeysLoaded]
  cases hcan : f.base.canWrite with
  | true =>
    have hensure : F.ensureWritable { f with externalIV := iv } =
        .ok true { f with externalIV := iv } := ensureWritable_writable hF hcan
    rw [hwritten hcan rfl rfl rfl hensure]
    simp
  | false =>
    by_cases hres : f.base.faults.openFile f.base.calls < 0
    · rw [Atomic, setIV_unopened hF hh hext h0 hcan hres]
      exact iff_of_true ⟨rfl, rfl, rfl⟩ (.inl ⟨rfl, hres⟩)
    · have hensure : F.ensureWritable { f with externalIV := iv } =
          .ok true { f with externalIV := iv, base := f.base.opened } :=
        ensureWritable_opens hF hcan (Int.not_lt.mp hres)
      rw [hwritten (b := f.base.opened) rfl rfl rfl rfl hensure]
      simp [hres, BaseFile.opened, BaseFile.called]

section Unloaded

variable (hext : f.externalIV ≠ 0) (h0 : f.fileIV = 0) (hlen : HEADER_SIZE ≤ f.base.raw.length)
include hext h0 hlen

lemma atomic_unopened (hres : f.base.faults.openFile f.base.calls < 0) :
    F.Atomic f iv ↔ (f.base.faults.openFile f.base.calls = -EISDIR →
      f.base.raw.take HEADER_SIZE = F.header iv (F.headerIV f)) := by
  have hset : F.setIV iv f = F.updateHeader iv f := by
    rw [setIV, Action.get_bind, if_neg hext, if_pos hh]
  have hopen : lift (F.base.openFile (f.lastFlags ||| O_RDWR)) f =
      .ok (f.base.faults.openFile f.base.calls) { f with base := f.base.called } := by
    rw [hF]
    exact lift_ok (BaseFile.openFile_fails _ rfl hres)
  have hheader : F.headerForUpdate f = .ok
      (if f.base.faults.openFile f.base.calls = -EISDIR then .directory else .failed)
      { f with base := f.base.called } := by
    rw [headerForUpdate, Action.get_bind, if_pos h0, Action.bind_ok hopen, if_pos hres]
    rfl
  by_cases hdir : f.base.faults.openFile f.base.calls = -EISDIR
  · rw [if_pos hdir] at hheader
    have hupdate : F.updateHeader iv f =
        .ok true { f with base := f.base.called, externalIV := iv } := by
      rw [updateHeader, Action.bind_ok hheader, hF]
      rfl
    rw [Atomic, hset, hupdate]
    dsimp only
    have hkept : F.Kept f { f with base := f.base.called, externalIV := iv } iv ↔
        f.base.raw.take HEADER_SIZE = F.header iv (F.headerIV f) ∧ F.usedIV f = F.headerIV f :=
      kept_iff hF hh hC hlen (List.length_take_of_le hlen) (List.take_append_drop _ _).symm rfl h0
    rw [hkept]
    exact ⟨fun h _ => h.1, fun h => ⟨h hdir, if_pos h0⟩⟩
  · rw [if_neg hdir] at hheader
    have hupdate : F.updateHeader iv f = .ok false { f with base := f.base.called } := by
      rw [updateHeader, Action.bind_ok hheader]
      rfl
    rw [Atomic, hset, hupdate]
    exact iff_of_true ⟨rfl, rfl, rfl⟩ fun h => (hdir h).elim

section Opened

variable (hres : ¬ f.base.faults.openFile f.base.calls < 0)
include hres

omit hh hC hext in
lemma headerForUpdate_opened : F.headerForUpdate f = (do
    F.readHeader
    pure HeaderState.ready) { f with base := f.base.opened } := by
  have hopen : lift (F.base.openFile (f.lastFlags ||| O_RDWR)) f =
      .ok (f.base.faults.openFile f.base.calls) { f with base := f.base.opened } := by
    rw [hF]
    exact lift_ok (BaseFile.openFile_writes _ rfl (Int.not_lt.mp hres))
  have hsize : lift F.base.getSize { f with base := f.base.opened } =
      .ok f.base.raw.length { f with base := f.base.opened } := by
    rw [hF]
    exact lift_ok rfl
  have hinit : F.initHeader { f with base := f.base.opened } =
      F.readHeader { f with base := f.base.opened } := by
    rw [initHeader, Action.bind_ok hsize, if_pos (Int.ofNat_le.mpr hlen)]
  rw [headerForUpdate, Action.get_bind, if_pos h0, Action.bind_ok hopen, if_neg hres]
  cases hread : F.readHeader { f with base := f.base.opened } with
  | ok r f₁ => rw [Action.bind_ok (hinit.trans hread), Action.bind_ok hread]
  | error e f₁ => rw [Action.bind_error (hinit.trans hread), Action.bind_error hread]

omit hC in
lemma atomic_raised {e : RlogError} {f₁ : CipherFile BaseFile}
    (hread : F.readHeader { f with base := f.base.opened } = .error e f₁) : F.Atomic f iv := by
  have hheader := headerForUpdate_opened hF h0 hlen hres
  rw [Action.bind_error hread] at hheader
  rw [Atomic, setIV, Action.get_bind, if_neg hext, if_pos hh, updateHeader,
    Action.bind_error hheader]
  trivial

lemma atomic_read {r : Option Bytes} {w : UInt64}
    (hread : BaseFile.read 0 HEADER_SIZE f.base.opened = .ok r f.base.opened.called)
    (hw : ivOfBytes (F.cipher.streamDecode f.externalIV (resize 0 (r.getD []) HEADER_SIZE)) = w) :
    F.Atomic f iv ↔ w = 0 ∨ F.Restores f.base (f.base.calls + 2) iv w (F.headerIV f) := by
  have hlift : lift (F.base.read 0 HEADER_SIZE) { f with base := f.base.opened } =
      .ok r { f with base := f.base.opened.called } := by
    rw [hF]
    exact lift_ok hread
  have hload := readHeader_eq hlift hw
  by_cases hzero : w = 0
  · rw [if_pos hzero] at hload
    exact iff_of_true (atomic_raised hF hh hext h0 hlen hres hload) (.inl hzero)
  · have hheader := headerForUpdate_opened hF h0 hlen hres
    rw [if_neg hzero] at hload
    rw [Action.bind_ok hload] at hheader
    have hwritable : F.ensureWritable
        { f with base := f.base.opened.called, fileIV := w, externalIV := iv } =
          .ok true { f with base := f.base.opened.called, fileIV := w, externalIV := iv } := by
      rw [ensureWritable, hF]
      rfl
    rw [atomic_written hF hh hC hext hheader hwritable rfl rfl rfl rfl hlen]
    constructor
    · rintro (⟨n, hfault⟩ | ⟨-, hrestores⟩)
      · right
        have hfault' : f.base.faults.write (f.base.calls + 2) 0 = some (.raises, n) := hfault
        rw [Restores, hfault']
        trivial
      · exact .inr hrestores
    · rintro (h | hrestores)
      · exact (hzero h).elim
      · exact .inr ⟨if_pos h0, hrestores⟩

end Opened

lemma atomic_unloaded : F.Atomic f iv ↔ F.RekeysUnloaded f iv (F.headerIV f) := by
  rw [RekeysUnloaded]
  by_cases hres : f.base.faults.openFile f.base.calls < 0
  · rw [if_pos hres]
    exact atomic_unopened hF hh hC hext h0 hlen hres
  · rw [if_neg hres]
    cases hfault : f.base.faults.read (f.base.calls + 1) 0 with
    | none =>
      have hread := BaseFile.read_finds (b := f.base.opened) 0 HEADER_SIZE hfault
      refine atomic_read hF hh hC hext h0 hlen hres hread ?_
      exact congrArg (fun d => ivOfBytes (F.cipher.streamDecode f.externalIV d)) (slice_header hlen)
    | some fault =>
      cases fault with
      | fails =>
        have hread := BaseFile.read_fails (b := f.base.opened) 0 HEADER_SIZE hfault
        exact atomic_read hF hh hC hext h0 hlen hres hread rfl
      | raises =>
        have hlift : lift (F.base.read 0 HEADER_SIZE) { f with base := f.base.opened } =
            .error .assertFailed { f with base := f.base.opened.called } := by
          rw [hF]
          exact lift_error (BaseFile.read_raises (b := f.base.opened) 0 _ hfault)
        have hraised : F.Atomic f iv :=
          atomic_raised hF hh hext h0 hlen hres (Action.bind_error hlift)
        exact iff_of_true hraised trivial

end Unloaded

omit hh hC in
lemma initHeader_writable (hcan : f.base.canWrite = true) :
    Yields F.initHeader f (fun _ f' => f'.base.canWrite = true) fun _ _ => True := by
  have hsize : lift F.base.getSize f = .ok f.base.raw.length f := by
    rw [hF]
    exact lift_ok rfl
  refine .bind (.of_ok hsize ?_)
  by_cases hlen : HEADER_SIZE ≤ f.base.raw.length
  · rw [if_pos (Int.ofNat_le.mpr hlen), readHeader, hF]
    refine .bind (lift_yields ((f.base.read_yields 0 HEADER_SIZE).mono ?_ fun _ _ _ => trivial))
    rintro r b ⟨rfl, -⟩
    refine .get (.set ?_)
    split
    · exact .of_error rfl trivial
    · exact .pure hcan
  · rw [if_neg fun h => hlen (Int.ofNat_le.mp h)]
    refine .get ?_
    dsimp only
    cases F.random.randomize (F.random.firstUsable f.draws) HEADER_SIZE with
    | none => exact .set (.of_error rfl trivial)
    | some buf =>
      refine .set (.bind (.of_ok (isWritable_run hF hcan) ?_))
      refine .bind (lift_yields ?_)
      rw [hF]
      refine (BaseFile.write_yields hcan 0 _).mono ?_ fun _ _ _ => trivial
      rintro r b ⟨d, -, rfl⟩
      exact .pure hcan

omit hh hC in
lemma updateHeader_opened {f₁ f₂ : CipherFile BaseFile}
    (hwritable : F.ensureWritable { f₁ with externalIV := iv } = .ok true f₂)
    (hcan : f₂.base.canWrite = true) :
    Yields (do
      let old ← get
      set { old with externalIV := iv }
      match ← F.writeHeader with
      | false => do
        modify fun f => { f with externalIV := old.externalIV }
        pure false
      | true => lift (F.base.setIV iv)) f₁ (fun r _ => r = true) fun _ _ => True := by
  refine .get (.set (.bind (.bind (.of_ok hwritable (.get (.set (.bind (lift_yields ?_))))))))
  rw [hF]
  refine (BaseFile.write_yields hcan 0 _).mono (fun _ _ _ => .pure ?_) fun _ _ _ => trivial
  exact lift_yields (.pure rfl)

omit hC in
lemma setIV_failure (hext : f.externalIV ≠ 0) :
    Yields (F.setIV iv) f (fun r f' => r = false → F.Unchanged f f') fun _ _ => True := by
  have htrue {x : Action (CipherFile BaseFile) Bool} {f₁ : CipherFile BaseFile}
      (h : Yields x f₁ (fun r _ => r = true) fun _ _ => True) :
      Yields x f₁ (fun r f' => r = false → F.Unchanged f f') fun _ _ => True :=
    h.mono (fun _ _ h h' => absurd (h.symm.trans h') (by decide)) fun _ _ h => h
  have hset : F.setIV iv f = F.updateHeader iv f := by
    rw [setIV, Action.get_bind, if_neg hext, if_pos hh]
  rw [Yields, hset]
  by_cases h0 : f.fileIV = 0
  · refine Yields.bind (.get ?_)
    rw [if_pos h0, hF]
    refine .bind (lift_yields ((f.base.openFile_yields _).mono ?_ fun _ _ h => h.elim))
    rintro res b ⟨rfl, rfl⟩
    by_cases hres : f.base.faults.openFile f.base.calls < 0
    · rw [if_pos hres]
      refine .pure ?_
      by_cases hdir : f.base.faults.openFile f.base.calls = -EISDIR
      · rw [if_pos hdir]
        exact htrue (.modify (lift_yields (.pure rfl)))
      · rw [if_neg hdir]
        exact .pure fun _ => ⟨rfl, rfl, rfl⟩
    · rw [if_neg hres, ← hF]
      refine .bind ((initHeader_writable hF ?_).mono
        (fun _ f₁ hcan => .pure (htrue ?_)) fun _ _ h => h)
      · simp [Int.not_lt.mp hres, BaseFile.requestWrite_or]
      · exact updateHeader_opened hF (ensureWritable_writable hF hcan) hcan
  · have hready := headerForUpdate_ready (F := F) h0
    cases hcan : f.base.canWrite with
    | true =>
      exact Yields.bind (.of_ok hready
        (htrue (updateHeader_opened hF (ensureWritable_writable hF hcan) hcan)))
    | false =>
      by_cases hres : f.base.faults.openFile f.base.calls < 0
      · rw [← hset]
        exact Yields.of_ok (setIV_unopened hF hh hext h0 hcan hres) fun _ => ⟨rfl, rfl, rfl⟩
      · exact Yields.bind (.of_ok hready
          (htrue (updateHeader_opened hF (ensureWritable_opens hF hcan (Int.not_lt.mp hres)) rfl)))

lemma atomic_short (hext : f.externalIV ≠ 0) (hlen : ¬ HEADER_SIZE ≤ f.base.raw.length) :
    F.Atomic f iv := by
  have hfailure : Yields (F.setIV iv) f (fun r f' => r = false → F.Unchanged f f') fun _ _ => True :=
    setIV_failure hF hh hext
  rw [Atomic]
  cases hset : F.setIV iv f with
  | ok r f' =>
    cases r with
    | true => exact kept_short hC hlen
    | false => exact hfailure.ok hset rfl
  | error e f' => trivial

end Outcomes

/-- The header is changed to the new IV, or not at all, in just these cases. -/
theorem setIV_atomic (hF : F.base = BaseFile.fileIO) (hh : F.haveHeader = true)
    (hC : F.cipher.Lawful F.blockSize) (hext : f.externalIV ≠ 0) (iv : UInt64) :
    F.Atomic f iv ↔ (HEADER_SIZE ≤ f.base.raw.length → F.Rekeys f iv (F.headerIV f)) := by
  by_cases hlen : HEADER_SIZE ≤ f.base.raw.length
  · rw [Rekeys, imp_iff_right hlen]
    by_cases h0 : f.fileIV = 0
    · rw [if_pos h0]
      exact atomic_unloaded hF hh hC hext h0 hlen
    · rw [if_neg h0]
      exact atomic_loaded hF hh hC hext h0 hlen
  · exact iff_of_true (atomic_short hF hh hC hext hlen) fun h => (hlen h).elim

def lucky : CipherFile BaseFile :=
  (faultyMask.step newFile (.request (.write 0 [7])) .none).file

def unlucky : CipherFile BaseFile := { lucky with base := { lucky.base with faults := headerLost } }

theorem not_setIV_atomic : ¬ faultyMask.Atomic unlucky 5 := by
  intro h
  have hset : ∃ f', faultyMask.setIV 5 unlucky = .ok true f' ∧
      faultyMask.usedIV f' ≠ faultyMask.usedIV unlucky := ⟨_, rfl, by decide⟩
  obtain ⟨f', hset, hused⟩ := hset
  rw [Atomic, hset] at h
  obtain ⟨-, hsame, -⟩ := h 0x0101010101010101 [9]
    ⟨[13, 13, 13, 13, 13, 13, 13, 13], rfl, by decide, by decide⟩
  exact hused hsame

theorem setIV_atomic_lucky :
    (HEADER_SIZE ≤ lucky.base.raw.length ∧ faultyMask.Atomic lucky 5) ∧
      HEADER_SIZE ≤ unlucky.base.raw.length ∧ ¬ faultyMask.Atomic unlucky 5 := by
  have hlucky : faultyMask.Rekeys lucky 5 (faultyMask.headerIV lucky) :=
    .inr (.inr ⟨by decide, rfl⟩)
  have hunlucky : ¬ faultyMask.Rekeys unlucky 5 (faultyMask.headerIV unlucky) := by
    rintro (⟨hcan, -⟩ | ⟨n, hraises⟩ | ⟨-, hwritten⟩)
    · exact absurd hcan (by decide)
    · have hfails : unlucky.base.faults.write unlucky.base.calls 0 = some (.fails, 0) := rfl
      exact absurd (hfails.symm.trans hraises) (by simp)
    · have hkept : unlucky.base.raw.take HEADER_SIZE = faultyMask.header 5 0x0101010101010101 :=
        hwritten
      exact absurd hkept (by decide)
  refine ⟨⟨by decide, ?_⟩, by decide, fun h => hunlucky ?_⟩
  · exact (setIV_atomic rfl rfl (maskCipher_lawful 4) (by decide) 5).mpr fun _ => hlucky
  · exact (setIV_atomic rfl rfl (maskCipher_lawful 4) (by decide) 5).mp h (by decide)

end CipherFileIO

end EncFS
