import EncFS.CipherFileIO
import EncFS.Context
import EncFS.MACFileIO
import EncFS.RawFileIO

/-! The names of a file node and of the file layers below it, and the external IV. -/

set_option autoImplicit false

namespace EncFS

open CipherFile
open MACFileIO (Stat)

/-- The calls of the raw layer, on what there is of the file and the system. Those that go by the
name take it. A file that is open for writing raises nothing when it is written. -/
structure RawCalls (σ : Type) where
  lstat : Bytes → σ → ℤ × Stat
  openFile : Bytes → ℕ → Action σ ℤ
  getSize : Bytes → Action σ ℤ
  truncate : Bytes → ℕ → Action σ ℤ
  read : (offset dataLen : ℕ) → Action σ (Option Bytes)
  write : (offset : ℕ) → (data : Bytes) → Action σ Bool
  canWrite : σ → Bool
  openFile_canWrite (name : Bytes) (flags : ℕ) (s : σ) :
    Yields (openFile name (flags ||| O_RDWR)) s (fun res s' => 0 ≤ res → canWrite s' = true)
      fun _ _ => False
  write_returns (offset : ℕ) (data : Bytes) {s : σ} (h : canWrite s = true) :
    Yields (write offset data) s (fun _ _ => True) fun _ _ => False

structure Named (σ : Type) where
  name : Bytes
  file : σ

namespace Named

variable {σ α : Type}

def on (x : Bytes → Action σ α) : Action (Named σ) α := fun s =>
  match x s.name s.file with
  | .ok a file => .ok a { s with file }
  | .error e file => .error e { s with file }

lemma on_yields {x : Bytes → Action σ α} {s : Named σ} {Q : α → σ → Prop} {E : RlogError → σ → Prop}
    (h : Yields (x s.name) s.file Q E) :
    Yields (on x) s (fun a s' => s'.name = s.name ∧ Q a s'.file)
      fun e s' => s'.name = s.name ∧ E e s'.file := by
  cases hx : x s.name s.file with
  | ok a file =>
    have hon : on x s = .ok a { s with file } := by simp only [on, hx]
    exact .of_ok hon ⟨rfl, h.ok hx⟩
  | error e file =>
    have hon : on x s = .error e { s with file } := by simp only [on, hx]
    exact .of_error hon ⟨rfl, h.error hx⟩

end Named

namespace RawCalls

variable {σ : Type} (C : RawCalls σ)

open Named

def fileIO : FileIO (Named σ) where
  getSize := on C.getSize
  read offset dataLen := on fun _ => C.read offset dataLen
  write offset data := on fun _ => C.write offset data
  openFile flags := on fun name => C.openFile name flags
  setIV _ := pure true
  truncate size := on fun name => C.truncate name size
  isWritable := do
    let s ← get
    pure (C.canWrite s.file)

def setFileName (fileName : Bytes) (s : Named σ) : Named σ := { s with name := fileName }

end RawCalls

namespace RawFileIO

lemma openFile_opened (calls : SystemCalls) (flags : ℕ) (f : RawFile) :
    Yields (openFile calls (flags ||| O_RDWR)) f
      (fun res f' => 0 ≤ res → (0 ≤ f'.fd && f'.canWrite) = true) fun _ _ => False := by
  have hrequest := or_O_RDWR flags
  refine .get ?_
  dsimp only
  split
  · rename_i hopen
    refine .pure fun _ => ?_
    simpa [hrequest] using hopen
  · split
    · rename_i hnew
      refine .set (.pure fun _ => ?_)
      simp [hnew, hrequest]
    · rename_i hnew
      exact .pure fun h => absurd h hnew

lemma write_opened (calls : SystemCalls) (offset : ℕ) (data : Bytes) {f : RawFile}
    (h : (0 ≤ f.fd && f.canWrite) = true) :
    Yields (write calls offset data) f (fun _ _ => True) fun _ _ => False := by
  have hopen : ¬ (f.fd < 0 ∨ f.canWrite = false) := by simpa using h
  refine .get ?_
  rw [if_neg hopen]
  obtain ⟨res, f', hrun, -⟩ : ∃ res f', writeLoop calls 10 offset data f = .ok res f' ∧
      LoopOutcome f offset data res f' := writeLoop_outcome 10 f offset data
  refine .bind (.of_ok hrun ?_)
  cases res with
  | none => exact .pure trivial
  | some rest =>
    refine .get ?_
    split
    · exact .set (.pure trivial)
    · split
      · exact .set (.pure trivial)
      · exact .pure trivial

def rawCalls (calls : SystemCalls) (lstat : Bytes → ℤ × Stat) : RawCalls RawFile where
  lstat name _ := lstat name
  openFile _ flags := openFile calls flags
  getSize _ := getSize calls
  truncate _ size := truncate calls size
  read := read calls
  write := write calls
  canWrite f := 0 ≤ f.fd && f.canWrite
  openFile_canWrite _ flags f := openFile_opened calls flags f
  write_returns offset data _ h := write_opened calls offset data h

end RawFileIO

def CipherFileIO.getAttr {τ : Type} (F : CipherFileIO τ) (res : ℤ) (stbuf : Stat) :
    Action (CipherFile τ) (ℤ × Stat) :=
  -- adjust size if we have a file header
  if res = 0 ∧ F.haveHeader ∧ stbuf.regular ∧ 0 < stbuf.st_size then
    if (HEADER_SIZE : ℤ) ≤ stbuf.st_size then
      pure (res, { stbuf with st_size := stbuf.st_size - HEADER_SIZE })
    else
      throw .assertFailed
  else
    pure (res, stbuf)

structure NodeChain (σ : Type) where
  rawIO : RawCalls σ
  cipherIO : CipherFileIO (Named σ)
  cipherIO_base : cipherIO.base = rawIO.fileIO
  macIO : Option <| MACFileIO (Cached (CipherFile (Named σ)))
  externalIVChaining : Bool

structure NodeState (σ : Type) where
  _pname : Bytes
  _cname : Bytes
  io : CipherFile (Named σ)

namespace NodeState

variable {σ α : Type} (N : NodeState σ)

def getFileName : Bytes := N.io.base.name

def names : FileNode := ⟨N._pname, N._cname, N.getFileName⟩

def setNames (plaintextName cipherName : Option Bytes) : NodeState σ where
  _pname := plaintextName.getD N._pname
  _cname := cipherName.getD N._cname
  io :=
    match cipherName with
    | none => N.io
    | some cipherName => { N.io with base := RawCalls.setFileName cipherName N.io.base }

def onLayers (x : Action (CipherFile (Named σ)) α) : Action (NodeState σ) α := fun N =>
  match x N.io with
  | .ok a io => .ok a { N with io }
  | .error e io => .error e { N with io }

end NodeState

namespace NodeChain

variable {σ : Type} (K : NodeChain σ)

def newNode (plaintextName cipherName : Bytes) (file : σ) (draws : ℕ) : NodeState σ :=
  ⟨plaintextName, cipherName, ⟨⟨cipherName, file⟩, 0, 0, 0, draws⟩⟩

def getAttr : Action (CipherFile (Named σ)) (ℤ × Stat) := do
  let f ← get
  let (res, stbuf) := K.rawIO.lstat f.base.name f.base.file
  let (res, stbuf) ← K.cipherIO.getAttr res stbuf
  match K.macIO with
  | none => pure (res, stbuf)
  | some M => pure (M.getAttr res stbuf)

def setIV (iv : UInt64) : Action (CipherFile (Named σ)) Bool := do
  let (res, stbuf) ← K.getAttr
  if res < 0 ∨ stbuf.regular then K.cipherIO.setIV iv else pure true

def chainIV (iv : UInt64) : Action (NodeState σ) Bool :=
  if K.externalIVChaining then NodeState.onLayers (K.setIV iv) else pure true

def setName (plaintextName cipherName : Option Bytes) (iv : UInt64) (setIVFirst : Bool) :
    Action (NodeState σ) Bool := do
  let old ← get
  if setIVFirst then
    match ← K.chainIV iv with
    | false => pure false
    | true => do
      modify fun N => N.setNames plaintextName cipherName
      pure true
  else do
    modify fun N => N.setNames plaintextName cipherName
    match ← K.chainIV iv with
    | false => do
      modify fun N => { N with _pname := old._pname, _cname := old._cname }
      pure false
    | true => pure true

end NodeChain

section Layers

variable {σ α : Type} {C : RawCalls σ} {F : CipherFileIO (Named σ)} {f : CipherFile (Named σ)}
  {v : UInt64} {n : Bytes}

def Held (v : UInt64) (n : Bytes) (f : CipherFile (Named σ)) : Prop :=
  f.externalIV = v ∧ f.base.name = n

lemma lift_on_yields {x : Bytes → Action σ α} {Q : α → σ → Prop} {E : RlogError → σ → Prop}
    (hf : Held v n f) (h : Yields (x n) f.base.file Q E) :
    Yields (lift (Named.on x)) f (fun a f' => Held v n f' ∧ Q a f'.base.file)
      fun e f' => Held v n f' ∧ E e f'.base.file := by
  obtain ⟨rfl, rfl⟩ := hf
  refine lift_yields ((Named.on_yields h).mono ?_ ?_)
  · rintro a s ⟨hname, hq⟩
    exact ⟨⟨rfl, hname⟩, hq⟩
  · rintro e s ⟨hname, he⟩
    exact ⟨⟨rfl, hname⟩, he⟩

lemma preserves_lift_on (x : Bytes → Action σ α) : Preserves (Held v n) (lift (Named.on x)) := by
  intro f hf
  exact (lift_on_yields hf Yields.any).mono (fun _ _ h => h.1) fun _ _ h => h.1

namespace RawCalls

variable (hF : F.base = C.fileIO)
include hF

lemma preserves_getSize : Preserves (Held v n) (lift F.base.getSize) := by
  rw [hF]
  exact preserves_lift_on _

lemma preserves_read (offset dataLen : ℕ) :
    Preserves (Held v n) (lift (F.base.read offset dataLen)) := by
  rw [hF]
  exact preserves_lift_on fun _ => C.read offset dataLen

lemma preserves_write (offset : ℕ) (data : Bytes) :
    Preserves (Held v n) (lift (F.base.write offset data)) := by
  rw [hF]
  exact preserves_lift_on fun _ => C.write offset data

lemma preserves_openFile (flags : ℕ) : Preserves (Held v n) (lift (F.base.openFile flags)) := by
  rw [hF]
  exact preserves_lift_on fun name => C.openFile name flags

lemma isWritable_eq (f : CipherFile (Named σ)) :
    lift F.base.isWritable f = .ok (C.canWrite f.base.file) f := by
  rw [hF]
  rfl

lemma baseIV_eq (iv : UInt64) (f : CipherFile (Named σ)) :
    lift (F.base.setIV iv) f = .ok true f := by
  rw [hF]
  rfl

lemma openFile_held (hf : Held v n f) (flags : ℕ) :
    Yields (lift (F.base.openFile (flags ||| O_RDWR))) f
      (fun res f' => Held v n f' ∧ (0 ≤ res → C.canWrite f'.base.file = true))
      fun _ _ => False := by
  rw [hF]
  have hopen := lift_on_yields (x := fun name => C.openFile name (flags ||| O_RDWR)) hf
    (C.openFile_canWrite n flags f.base.file)
  exact hopen.mono (fun _ _ h => h) fun _ _ h => h.2

lemma write_held (hf : Held v n f) (hcan : C.canWrite f.base.file = true) (offset : ℕ)
    (data : Bytes) :
    Yields (lift (F.base.write offset data)) f (fun _ => Held v n) fun _ _ => False := by
  rw [hF]
  have hwrite := lift_on_yields (x := fun _ => C.write offset data) hf
    (C.write_returns offset data hcan)
  exact hwrite.mono (fun _ _ h => h.1) fun _ _ h => h.2

lemma preserves_readHeader : Preserves (Held v n) F.readHeader := by
  refine (preserves_read hF 0 HEADER_SIZE).bind fun buf => .get fun f hf => .set ?_
  split
  · exact .of_error rfl hf
  · exact .pure hf

lemma preserves_createHeader : Preserves (Held v n) F.createHeader := by
  refine .get fun f hf => ?_
  dsimp only
  cases F.random.randomize (F.random.firstUsable f.draws) HEADER_SIZE with
  | none => exact .set (.of_error rfl hf)
  | some buf =>
    refine .set (.bind (.of_ok (isWritable_eq hF _) ?_))
    cases C.canWrite f.base.file with
    | false => exact .pure hf
    | true => exact (preserves_write hF 0 _).bind (fun _ => .pure _) _ hf

lemma preserves_initHeader : Preserves (Held v n) F.initHeader := by
  refine (preserves_getSize hF).bind fun rawSize => .ite (fun _ => ?_) fun _ => ?_
  · exact preserves_readHeader hF
  · exact preserves_createHeader hF

lemma preserves_headerForUpdate : Preserves (Held v n) F.headerForUpdate := by
  refine .get fun f hf => ?_
  split
  · refine (preserves_openFile hF _).bind (fun res => ?_) f hf
    refine .ite (fun _ => .pure _) fun _ => ?_
    exact (preserves_initHeader hF).bind fun _ => .pure _
  · exact .pure hf

lemma ensureWritable_held (hf : Held v n f) :
    Yields F.ensureWritable f
      (fun r f' => Held v n f' ∧ (r = true → C.canWrite f'.base.file = true)) fun _ _ => False := by
  refine .bind (.of_ok (isWritable_eq hF f) ?_)
  cases hcan : C.canWrite f.base.file with
  | true => exact .pure ⟨hf, fun _ => hcan⟩
  | false =>
    refine .get (.bind ((openFile_held hF hf f.lastFlags).mono ?_ fun _ _ h => h))
    rintro res f' ⟨hf', hopen⟩
    exact .pure ⟨hf', fun hres => hopen (by simpa using hres)⟩

lemma writeHeader_held (hf : Held v n f) :
    Yields F.writeHeader f (fun _ => Held v n) fun _ _ => False := by
  refine .bind ((ensureWritable_held hF hf).mono ?_ fun _ _ h => h)
  rintro r f₁ ⟨hf₁, hcan⟩
  cases r with
  | false => exact .pure hf₁
  | true =>
    have hcleared : Held v n { f₁ with fileIV := 0 } := hf₁
    refine .get (.set (.bind ((write_held hF hcleared (hcan rfl) 0 _).mono ?_ fun _ _ h => h)))
    exact fun _ f₂ hf₂ => .pure hf₂

lemma updateHeader_held (hf : Held v n f) (iv : UInt64) :
    Yields (F.updateHeader iv) f (fun r => Held (if r = true then iv else v) n)
      fun _ => Held v n := by
  refine .bind ((preserves_headerForUpdate hF f hf).mono ?_ fun _ _ h => h)
  intro state f₁ hf₁
  cases state with
  | failed => exact .pure hf₁
  | directory => exact .modify (.of_ok (baseIV_eq hF iv _) ⟨rfl, hf₁.2⟩)
  | ready =>
    have hnew : Held iv n { f₁ with externalIV := iv } := ⟨rfl, hf₁.2⟩
    refine .get (.set (.bind ((writeHeader_held hF hnew).mono ?_ fun _ _ h => h.elim)))
    intro r f₂ hf₂
    cases r with
    | false => exact .modify (.pure ⟨hf₁.1, hf₂.2⟩)
    | true => exact .of_ok (baseIV_eq hF iv f₂) hf₂

lemma setIV_held (hf : Held v n f) (iv : UInt64) :
    Yields (F.setIV iv) f
      (fun r => Held (if r = true ∧ (v = 0 ∨ F.haveHeader = true) then iv else v) n)
      fun _ => Held v n := by
  have hv : f.externalIV = v := hf.1
  refine .get ?_
  rw [hv]
  by_cases h0 : v = 0
  · rw [if_pos h0]
    refine .set (.of_ok (baseIV_eq hF iv _) ?_)
    simp [Held, h0, hf.2]
  · rw [if_neg h0]
    by_cases hh : F.haveHeader = true
    · rw [if_pos hh]
      simpa [hh] using updateHeader_held hF hf iv
    · rw [if_neg hh]
      refine .of_ok (baseIV_eq hF iv f) ?_
      simpa [h0, hh] using hf

end RawCalls

end Layers

namespace NodeState

variable {σ α : Type} {N : NodeState σ}

@[simp] lemma setNames_names (plaintextName cipherName : Option Bytes) :
    (N.setNames plaintextName cipherName).names = ⟨plaintextName.getD N._pname,
      cipherName.getD N._cname, cipherName.getD N.getFileName⟩ := by
  cases cipherName with
  | none => rfl
  | some cipherName => rfl

@[simp] lemma setNames_externalIV (plaintextName cipherName : Option Bytes) :
    (N.setNames plaintextName cipherName).io.externalIV = N.io.externalIV := by
  cases cipherName with
  | none => rfl
  | some cipherName => rfl

@[simp] lemma setNames_file (plaintextName cipherName : Option Bytes) :
    (N.setNames plaintextName cipherName).io.base.file = N.io.base.file := by
  cases cipherName with
  | none => rfl
  | some cipherName => rfl

lemma onLayers_yields {x : Action (CipherFile (Named σ)) α} {Q : α → CipherFile (Named σ) → Prop}
    {E : RlogError → CipherFile (Named σ) → Prop} (h : Yields x N.io Q E) :
    Yields (onLayers x) N (fun a N' => N' = { N with io := N'.io } ∧ Q a N'.io)
      fun e N' => N' = { N with io := N'.io } ∧ E e N'.io := by
  cases hx : x N.io with
  | ok a io =>
    have hon : onLayers x N = .ok a { N with io } := by simp only [hx, onLayers]
    exact .of_ok hon ⟨rfl, h.ok hx⟩
  | error e io =>
    have hon : onLayers x N = .error e { N with io } := by simp only [hx, onLayers]
    exact .of_error hon ⟨rfl, h.error hx⟩

end NodeState

namespace NodeChain

variable {σ : Type} (K : NodeChain σ)

/-- A file that is missing may get its IV, as a regular file does. -/
def TakesIV (N : NodeState σ) : Prop :=
  K.externalIVChaining = true ∧
    ((K.rawIO.lstat N.getFileName N.io.base.file).1 < 0 ∨
      (K.rawIO.lstat N.getFileName N.io.base.file).2.regular = true) ∧
    (N.io.externalIV = 0 ∨ K.cipherIO.haveHeader = true)

instance (N : NodeState σ) : Decidable (K.TakesIV N) :=
  inferInstanceAs (Decidable (_ ∧ (_ ∨ _) ∧ (_ ∨ _)))

variable {K} {N : NodeState σ}

def TooShort (K : NodeChain σ) (f : CipherFile (Named σ)) : Prop :=
  (K.rawIO.lstat f.base.name f.base.file).1 = 0 ∧ K.cipherIO.haveHeader = true ∧
    (K.rawIO.lstat f.base.name f.base.file).2.regular = true ∧
    0 < (K.rawIO.lstat f.base.name f.base.file).2.st_size ∧
    (K.rawIO.lstat f.base.name f.base.file).2.st_size < (HEADER_SIZE : ℤ)

lemma getAttr_yields (f : CipherFile (Named σ)) :
    Yields K.getAttr f
      (fun a f' => (f' = f ∧ ¬ K.TooShort f) ∧
        a.1 = (K.rawIO.lstat f.base.name f.base.file).1 ∧
        a.2.regular = (K.rawIO.lstat f.base.name f.base.file).2.regular)
      fun _ f' => f' = f ∧ K.TooShort f := by
  have hcipher : Yields (K.cipherIO.getAttr (K.rawIO.lstat f.base.name f.base.file).1
      (K.rawIO.lstat f.base.name f.base.file).2) f
      (fun a f' => (f' = f ∧ ¬ K.TooShort f) ∧
        a.1 = (K.rawIO.lstat f.base.name f.base.file).1 ∧
        a.2.regular = (K.rawIO.lstat f.base.name f.base.file).2.regular)
      fun _ f' => f' = f ∧ K.TooShort f := by
    unfold CipherFileIO.getAttr
    split
    · rename_i hheader
      obtain ⟨hres, hhave, hregular, hsize⟩ := hheader
      split
      · rename_i hlong
        exact .pure ⟨⟨rfl, fun h => absurd h.2.2.2.2 (Int.not_lt.mpr hlong)⟩, rfl, rfl⟩
      · rename_i hshort
        exact .of_error rfl ⟨rfl, hres, hhave, hregular, hsize, Int.not_le.mp hshort⟩
    · rename_i hheader
      exact .pure ⟨⟨rfl, fun h => hheader ⟨h.1, h.2.1, h.2.2.1, h.2.2.2.1⟩⟩, rfl, rfl⟩
  refine .get (.bind (hcipher.mono ?_ fun _ _ h => h))
  rintro ⟨res, stbuf⟩ f' ⟨⟨rfl, hlong⟩, hres, hregular⟩
  cases K.macIO with
  | none => exact .pure ⟨⟨rfl, hlong⟩, hres, hregular⟩
  | some M =>
    refine .pure ⟨⟨rfl, hlong⟩, ?_⟩
    unfold MACFileIO.getAttr
    split
    · exact ⟨hres, hregular⟩
    · exact ⟨hres, hregular⟩

lemma chainIV_yields (N : NodeState σ) (iv : UInt64) :
    Yields (K.chainIV iv) N
      (fun r N' => N'.names = N.names ∧
        N'.io.externalIV = if r = true ∧ K.TakesIV N then iv else N.io.externalIV)
      fun _ N' => N'.names = N.names ∧ N'.io.externalIV = N.io.externalIV := by
  rw [chainIV]
  by_cases hchain : K.externalIVChaining = true
  · rw [if_pos hchain]
    have hset : Yields (K.setIV iv) N.io
        (fun r => Held (if r = true ∧ K.TakesIV N then iv else N.io.externalIV) N.getFileName)
        fun _ => Held N.io.externalIV N.getFileName := by
      refine .bind ((getAttr_yields N.io).mono ?_ ?_)
      · rintro ⟨res, stbuf⟩ f ⟨⟨rfl, -⟩, hres, hregular⟩
        dsimp only at hres hregular ⊢
        rw [hres, hregular]
        by_cases htakes : (K.rawIO.lstat N.io.base.name N.io.base.file).1 < 0 ∨
            (K.rawIO.lstat N.io.base.name N.io.base.file).2.regular = true
        · rw [if_pos htakes]
          simpa [TakesIV, hchain, NodeState.getFileName, htakes] using
            RawCalls.setIV_held K.cipherIO_base (f := N.io) ⟨rfl, rfl⟩ iv
        · rw [if_neg htakes]
          refine .pure ⟨?_, rfl⟩
          rw [if_neg fun h => htakes h.2.2.1]
      · rintro e f ⟨rfl, -⟩
        exact ⟨rfl, rfl⟩
    refine (NodeState.onLayers_yields hset).mono ?_ ?_
    · rintro r N' ⟨hN', hiv, hname⟩
      refine ⟨?_, hiv⟩
      rw [hN', NodeState.names, NodeState.names, NodeState.getFileName, hname]
    · rintro e N' ⟨hN', hiv, hname⟩
      refine ⟨?_, hiv⟩
      rw [hN', NodeState.names, NodeState.names, NodeState.getFileName, hname]
  · rw [if_neg hchain]
    refine .pure ⟨rfl, ?_⟩
    rw [if_neg fun h => hchain h.2.1]

variable (plaintextName cipherName : Option Bytes) (iv : UInt64) (setIVFirst : Bool)

def beforeIV (N : NodeState σ) : NodeState σ :=
  if setIVFirst then N else N.setNames plaintextName cipherName

lemma setName_first (N : NodeState σ) :
    Yields (K.setName plaintextName cipherName iv true) N
      (fun r N' =>
        N'.names = (if r = true then (N.setNames plaintextName cipherName).names else N.names) ∧
        N'.io.externalIV = if r = true ∧ K.TakesIV N then iv else N.io.externalIV)
      fun _ N' => N'.names = N.names ∧ N'.io.externalIV = N.io.externalIV := by
  refine .get (.bind ((chainIV_yields N iv).mono ?_ fun _ _ h => h))
  rintro r N' ⟨hnames, hiv⟩
  cases r with
  | false => exact .pure ⟨hnames, hiv⟩
  | true =>
    have hp : N'._pname = N._pname := congrArg FileNode._pname hnames
    have hc : N'._cname = N._cname := congrArg FileNode._cname hnames
    have hraw : N'.getFileName = N.getFileName := congrArg FileNode.rawName hnames
    refine .modify (.pure ⟨?_, ?_⟩)
    · simp [hp, hc, hraw]
    · simpa using hiv

/-- A failure does not put the name of the raw file back, and an error none of the names. -/
lemma setName_last (N : NodeState σ) :
    Yields (K.setName plaintextName cipherName iv false) N
      (fun r N' =>
        N'.names = (if r = true then (N.setNames plaintextName cipherName).names
          else { (N.setNames plaintextName cipherName).names with
                 _pname := N._pname, _cname := N._cname }) ∧
        N'.io.externalIV = if r = true ∧ K.TakesIV (N.setNames plaintextName cipherName) then iv
          else N.io.externalIV)
      fun _ N' => N'.names = (N.setNames plaintextName cipherName).names ∧
        N'.io.externalIV = N.io.externalIV := by
  refine .get (.modify (.bind ((chainIV_yields _ iv).mono ?_ ?_)))
  · rintro r N' ⟨hnames, hiv⟩
    rw [NodeState.setNames_externalIV] at hiv
    cases r with
    | true => exact .pure ⟨hnames, hiv⟩
    | false =>
      have hraw : N'.getFileName = (N.setNames plaintextName cipherName).getFileName :=
        congrArg FileNode.rawName hnames
      refine .modify (.pure ⟨?_, hiv⟩)
      exact congrArg (FileNode.mk N._pname N._cname) hraw
  · rintro e N' ⟨hnames, hiv⟩
    rw [NodeState.setNames_externalIV] at hiv
    exact ⟨hnames, hiv⟩

lemma setName_names {pname cname : Bytes} {r : Bool} {N N' : NodeState σ}
    (h : K.setName (some pname) (some cname) iv setIVFirst N = .ok r N') :
    FileNode.setName N.names pname cname (if r then .done else .refused) setIVFirst =
      (r, N'.names) := by
  cases setIVFirst with
  | true =>
    have hnames := ((setName_first (some pname) (some cname) iv N).ok h).1
    cases r with
    | true => simpa [FileNode.setName] using hnames.symm
    | false => simpa [FileNode.setName] using hnames.symm
  | false =>
    have hnames := ((setName_last (some pname) (some cname) iv N).ok h).1
    cases r with
    | true => simpa [FileNode.setName] using hnames.symm
    | false =>
      simpa [FileNode.setName, NodeState.names, NodeState.setNames, NodeState.getFileName,
        RawCalls.setFileName] using hnames.symm

lemma setName_raised {pname cname : Bytes} {e : RlogError} {N N' : NodeState σ}
    (h : K.setName (some pname) (some cname) iv setIVFirst N = .error e N') :
    FileNode.setName N.names pname cname .raised setIVFirst = (false, N'.names) := by
  cases setIVFirst with
  | true =>
    have hnames := ((setName_first (some pname) (some cname) iv N).error h).1
    simpa [FileNode.setName] using hnames.symm
  | false =>
    have hnames := ((setName_last (some pname) (some cname) iv N).error h).1
    simpa [FileNode.setName] using hnames.symm

end NodeChain

namespace NodeState

variable {σ : Type} (N N' : NodeState σ)

structure Kept : Prop where
  _pname : N'._pname = N._pname
  _cname : N'._cname = N._cname
  fileName : N'.getFileName = N.getFileName
  externalIV : N'.io.externalIV = N.io.externalIV

structure Renamed (plaintextName cipherName : Option Bytes) (iv : UInt64) : Prop where
  _pname : N'._pname = plaintextName.getD N._pname
  _cname : N'._cname = cipherName.getD N._cname
  fileName : N'.getFileName = cipherName.getD N.getFileName
  externalIV : N'.io.externalIV = iv

end NodeState

namespace NodeChain

variable {σ : Type} (K : NodeChain σ)

def AllOrNothing (N : NodeState σ) (plaintextName cipherName : Option Bytes) (iv : UInt64)
    (setIVFirst : Bool) : Prop :=
  match K.setName plaintextName cipherName iv setIVFirst N with
  | .ok true N' => N.Renamed N' plaintextName cipherName iv
  | .ok false N' => N.Kept N'
  | .error _ N' => N.Kept N'

def Settled (N : NodeState σ) (plaintextName cipherName : Option Bytes) (iv : UInt64)
    (setIVFirst : Bool) : Prop :=
  match K.setName plaintextName cipherName iv setIVFirst N with
  | .ok true N' => N.Renamed N' plaintextName cipherName
      (if K.TakesIV (beforeIV plaintextName cipherName setIVFirst N) then iv else N.io.externalIV)
  | .ok false N' => N'._pname = N._pname ∧ N'._cname = N._cname ∧
      N'.io.externalIV = N.io.externalIV ∧ (setIVFirst = true → N.Kept N')
  | .error _ N' => N'.io.externalIV = N.io.externalIV ∧ (setIVFirst = true → N.Kept N')

/-- The nodes there may be if no `setName` that puts the name first returns false. -/
inductive Reached : NodeState σ → Prop
  | new (plaintextName cipherName : Bytes) (file : σ) (draws : ℕ) :
      Reached (newNode plaintextName cipherName file draws)
  | use {N : NodeState σ} (h : Reached N) (io : CipherFile (Named σ))
      (hname : io.base.name = N.getFileName) : Reached { N with io }
  | setName {N : NodeState σ} (h : Reached N) (plaintextName cipherName : Option Bytes)
      (iv : UInt64) (setIVFirst : Bool)
      (hset : setIVFirst = false →
        ∀ N', K.setName plaintextName cipherName iv setIVFirst N ≠ .ok false N') :
      Reached (finalState (K.setName plaintextName cipherName iv setIVFirst) N)

variable {K} {N : NodeState σ}

lemma setName_settled (N : NodeState σ) (plaintextName cipherName : Option Bytes) (iv : UInt64)
    (setIVFirst : Bool) : K.Settled N plaintextName cipherName iv setIVFirst := by
  have hrenamed {N' : NodeState σ} {v : UInt64}
      (hnames : N'.names = (N.setNames plaintextName cipherName).names)
      (hv : N'.io.externalIV = v) : N.Renamed N' plaintextName cipherName v := by
    rw [NodeState.setNames_names] at hnames
    exact ⟨congrArg FileNode._pname hnames, congrArg FileNode._cname hnames,
      congrArg FileNode.rawName hnames, hv⟩
  have hkept {N' : NodeState σ} (hnames : N'.names = N.names)
      (hv : N'.io.externalIV = N.io.externalIV) : N.Kept N' :=
    ⟨congrArg FileNode._pname hnames, congrArg FileNode._cname hnames,
      congrArg FileNode.rawName hnames, hv⟩
  rw [Settled]
  cases setIVFirst with
  | true =>
    have hset := setName_first (K := K) plaintextName cipherName iv N
    cases h : K.setName plaintextName cipherName iv true N with
    | error e N' =>
      obtain ⟨hnames, hv⟩ := hset.error h
      exact ⟨hv, fun _ => hkept hnames hv⟩
    | ok r N' =>
      obtain ⟨hnames, hv⟩ := hset.ok h
      cases r with
      | true => exact hrenamed hnames (by simpa [beforeIV] using hv)
      | false =>
        have hall := hkept hnames hv
        exact ⟨hall._pname, hall._cname, hall.externalIV, fun _ => hall⟩
  | false =>
    have hset := setName_last (K := K) plaintextName cipherName iv N
    cases h : K.setName plaintextName cipherName iv false N with
    | error e N' => exact ⟨(hset.error h).2, fun h => by cases h⟩
    | ok r N' =>
      obtain ⟨hnames, hv⟩ := hset.ok h
      cases r with
      | true => exact hrenamed hnames (by simpa [beforeIV] using hv)
      | false =>
        exact ⟨congrArg FileNode._pname hnames, congrArg FileNode._cname hnames, hv,
          fun h => by cases h⟩

lemma setName_cname {plaintextName cipherName : Option Bytes} {iv : UInt64} {setIVFirst : Bool}
    (hname : N._cname = N.getFileName)
    (hset : setIVFirst = false →
      ∀ N', K.setName plaintextName cipherName iv setIVFirst N ≠ .ok false N') :
    (finalState (K.setName plaintextName cipherName iv setIVFirst) N)._cname =
      (finalState (K.setName plaintextName cipherName iv setIVFirst) N).getFileName := by
  have hnew {N' : NodeState σ} (h : N'.names = (N.setNames plaintextName cipherName).names) :
      N'._cname = N'.getFileName := by
    rw [NodeState.setNames_names, ← hname] at h
    exact (congrArg FileNode._cname h).trans (congrArg FileNode.rawName h).symm
  have hold {N' : NodeState σ} (h : N'.names = N.names) : N'._cname = N'.getFileName :=
    (congrArg FileNode._cname h).trans (hname.trans (congrArg FileNode.rawName h).symm)
  cases setIVFirst with
  | true =>
    refine Yields.final (P := fun N' : NodeState σ => N'._cname = N'.getFileName)
      ((setName_first plaintextName cipherName iv N).mono ?_ ?_)
    · rintro r N' ⟨hnames, -⟩
      cases r with
      | true => exact hnew hnames
      | false => exact hold hnames
    · exact fun _ N' h => hold h.1
  | false =>
    have hyields := setName_last (K := K) plaintextName cipherName iv N
    cases h : K.setName plaintextName cipherName iv false N with
    | error e N' =>
      rw [finalState, h]
      exact hnew (hyields.error h).1
    | ok r N' =>
      cases r with
      | true =>
        rw [finalState, h]
        exact hnew (hyields.ok h).1
      | false => exact (hset rfl N' h).elim

lemma Reached.cname (h : K.Reached N) : N._cname = N.getFileName := by
  induction h with
  | new plaintextName cipherName file draws => rfl
  | use h io hname ih => exact ih.trans hname.symm
  | setName h plaintextName cipherName iv setIVFirst hset ih => exact setName_cname ih hset

theorem setName_outcome (K : NodeChain σ) :
    (∀ N plaintextName cipherName iv setIVFirst,
      K.Settled N plaintextName cipherName iv setIVFirst) ∧
    ∀ N, K.Reached N → N._cname = N.getFileName :=
  ⟨setName_settled, fun _ => Reached.cname⟩

open RawFileIO in
def withoutChaining : NodeChain RawFile where
  rawIO := rawCalls (.whole 0) fun _ => (0, ⟨true, 0⟩)
  cipherIO :=
    { base := RawCalls.fileIO (rawCalls (.whole 0) fun _ => (0, ⟨true, 0⟩))
      cipher := maskCipher
      random := onesSource
      blockSize := 4
      blockSize_gt := smallBlock_gt
      allowHoles := false
      haveHeader := true
      reverseEncryption := false }
  cipherIO_base := rfl
  macIO := none
  externalIVChaining := false

theorem not_setName_allOrNothing :
    ¬ withoutChaining.AllOrNothing (newNode [112] [99] (.fresh []) 0) (some [113]) (some [100]) 5
      true := by
  intro h
  have hset : ∃ N', withoutChaining.setName (some [113]) (some [100]) 5 true
      (newNode [112] [99] (.fresh []) 0) = .ok true N' ∧ N'.io.externalIV = 0 := ⟨_, rfl, rfl⟩
  obtain ⟨N', hset, hiv⟩ := hset
  rw [AllOrNothing, hset] at h
  have hnew : N'.io.externalIV = 5 := h.externalIV
  rw [hiv] at hnew
  cases hnew

end NodeChain

end EncFS
