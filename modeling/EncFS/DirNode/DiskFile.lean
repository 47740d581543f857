import EncFS.DirNode.Rename
import EncFS.FileNode
import EncFS.FileTree.Contents

set_option autoImplicit false

namespace EncFS

open FlatArray CipherFile
open CipherFileIO (ensureWritable headerForUpdate initHeader readHeader updateHeader writeHeader)
open MACFileIO (Stat)

structure OnDisk where
  disk : FileTree Bytes Bytes
  fd : Option (List Bytes)
  canWrite : Bool

namespace OnDisk

def ENOENT : ℤ := 2
def EACCES : ℤ := 13

def contentAt (T : FileTree Bytes Bytes) (p : List Bytes) : Bytes :=
  match T.find p with
  | some (.file c) => c
  | _ => []

def Short (T : FileTree Bytes Bytes) (p : List Bytes) : Prop :=
  ∃ c, T.find p = some (.file c) ∧ 0 < c.length ∧ c.length < HEADER_SIZE

def lstat (name : Bytes) (s : OnDisk) : ℤ × Stat :=
  match s.disk.find (components name) with
  | none => (-ENOENT, ⟨false, 0⟩)
  | some .dir => (0, ⟨false, 0⟩)
  | some (.file c) => (0, ⟨true, c.length⟩)

def openFile (opens : Bytes → Bool) (name : Bytes) (flags : ℕ) : Action OnDisk ℤ := do
  let s ← get
  let requestWrite : Bool := flags &&& O_RDWR ≠ 0 ∨ flags &&& O_WRONLY ≠ 0
  if s.fd.isSome ∧ (s.canWrite ∨ ¬ requestWrite) then
    pure 3
  else
    match s.disk.find (components name) with
    | none => pure (-ENOENT)
    | some .dir => pure (-EISDIR)
    | some (.file _) =>
      if opens name then do
        set { s with fd := some (components name), canWrite := requestWrite }
        pure 3
      else
        pure (-EACCES)

def read (offset dataLen : ℕ) : Action OnDisk (Option Bytes) := do
  let s ← get
  match s.fd with
  | none => throw .assertFailed
  | some p => pure (some (slice (contentAt s.disk p) offset dataLen))

def write (offset : ℕ) (data : Bytes) : Action OnDisk Bool := do
  let s ← get
  match s.fd with
  | none => throw .assertFailed
  | some p =>
    if s.canWrite then do
      set { s with disk := s.disk.setContent p (splice 0 (contentAt s.disk p) offset data) }
      pure true
    else
      throw .assertFailed

def truncate (name : Bytes) (size : ℕ) : Action OnDisk ℤ := do
  let s ← get
  let p := if s.canWrite then s.fd.getD (components name) else components name
  match s.disk.find p with
  | some (.file c) => do
    set { s with disk := s.disk.setContent p (resize 0 c size) }
    pure 0
  | _ => pure (-ENOENT)

lemma openFile_canWrite (opens : Bytes → Bool) (name : Bytes) (flags : ℕ) (s : OnDisk) :
    Yields (openFile opens name (flags ||| O_RDWR)) s
      (fun res s' => 0 ≤ res → (s'.fd.isSome && s'.canWrite) = true) fun _ _ => False := by
  have hrequest := or_O_RDWR flags
  refine .get ?_
  dsimp only
  split
  · rename_i hopen
    refine .pure fun _ => ?_
    simpa [hrequest] using hopen
  · split
    · exact .pure fun h => absurd h (by decide)
    · exact .pure fun h => absurd h (by decide)
    · split
      · refine .set (.pure fun _ => ?_)
        simp [hrequest]
      · exact .pure fun h => absurd h (by decide)

lemma write_returns (offset : ℕ) (data : Bytes) {s : OnDisk}
    (h : (s.fd.isSome && s.canWrite) = true) :
    Yields (write offset data) s (fun _ _ => True) fun _ _ => False := by
  obtain ⟨hfd, hcan⟩ := Bool.and_eq_true_iff.mp h
  obtain ⟨p, hp⟩ := Option.isSome_iff_exists.mp hfd
  refine .get ?_
  rw [hp]
  dsimp only
  rw [if_pos hcan]
  exact .set (.pure trivial)

def rawCalls (opens : Bytes → Bool) : RawCalls OnDisk where
  lstat := lstat
  openFile := openFile opens
  getSize name := do
    let s ← get
    pure (contentAt s.disk (components name)).length
  truncate := truncate
  read := read
  write := write
  canWrite s := s.fd.isSome && s.canWrite
  openFile_canWrite := openFile_canWrite opens
  write_returns offset data _ h := write_returns offset data h

end OnDisk

/-- The layers of the nodes, over the files of a disk. -/
structure DiskChain extends NodeChain OnDisk where
  opens : Bytes → Bool
  rawIO_eq : rawIO = OnDisk.rawCalls opens

namespace Cipher

def rekey (C : Cipher) (v iv : UInt64) (c : Bytes) : Bytes :=
  C.streamEncode iv (C.streamDecode v (c.take HEADER_SIZE)) ++ c.drop HEADER_SIZE

def headerIV (C : Cipher) (v : UInt64) (c : Bytes) : UInt64 :=
  ivOfBytes (C.streamDecode v (c.take HEADER_SIZE))

variable {C : Cipher} {bs : ℕ} {v iv : UInt64} {c : Bytes}

lemma rekey_length (hC : C.Lawful bs) : (C.rekey v iv c).length = c.length := by
  rw [rekey, List.length_append, hC.streamEncode_length, hC.streamDecode_length,
    ← List.length_append, List.take_append_drop]

lemma rekey_self (hC : C.Lawful bs) : C.rekey v v c = c := by
  rw [rekey, hC.streamEncode_streamDecode, List.take_append_drop]

section

variable (hC : C.Lawful bs) (hlen : HEADER_SIZE ≤ c.length)
include hC hlen

lemma recoded_length :
    (C.streamEncode iv (C.streamDecode v (c.take HEADER_SIZE))).length = HEADER_SIZE := by
  rw [hC.streamEncode_length, hC.streamDecode_length, List.length_take_of_le hlen]

lemma rekey_take : (C.rekey v iv c).take HEADER_SIZE =
    C.streamEncode iv (C.streamDecode v (c.take HEADER_SIZE)) := by
  rw [rekey, List.take_left' (recoded_length hC hlen)]

lemma rekey_rekey : C.rekey iv v (C.rekey v iv c) = c := by
  have hdrop : (C.rekey v iv c).drop HEADER_SIZE = c.drop HEADER_SIZE := by
    rw [rekey, List.drop_left' (recoded_length hC hlen)]
  rw [rekey, rekey_take hC hlen, hdrop, hC.streamDecode_streamEncode,
    hC.streamEncode_streamDecode, List.take_append_drop]

lemma headerIV_rekey : C.headerIV iv (C.rekey v iv c) = C.headerIV v c := by
  rw [headerIV, rekey_take hC hlen, hC.streamDecode_streamEncode, headerIV]

lemma rekey_eq : C.rekey v iv c =
    splice 0 c 0 (C.streamEncode iv (bytesOfIV (C.headerIV v c))) := by
  have hdecoded : (C.streamDecode v (c.take HEADER_SIZE)).length = HEADER_SIZE := by
    rw [hC.streamDecode_length, List.length_take_of_le hlen]
  rw [headerIV, bytesOfIV_ivOfBytes hdecoded, splice, recoded_length hC hlen, rekey]
  simp [resize]

end

end Cipher

namespace DiskChain

variable (K : DiskChain)

def Rekeys : Prop := K.externalIVChaining = true ∧ K.cipherIO.haveHeader = true

/-- What comes of the disk when a node for a file of the name whose external IV is `v` gets the IV
`iv`, with the result. -/
inductive Outcome (T : FileTree Bytes Bytes) (name : Bytes) (v iv : UInt64) :
    Bool → FileTree Bytes Bytes → Prop
  | plain {r : Bool} (h : ¬ K.Rekeys) : Outcome T name v iv r T
  | told {r : Bool} (h : v = 0) : Outcome T name v iv r T
  | other {r : Bool} (h : ∀ c, T.find (components name) = some (.file c) → c.length < HEADER_SIZE) :
      Outcome T name v iv r T
  | refused {c : Bytes} (hfile : T.find (components name) = some (.file c))
      (h : K.opens name = false ∨ K.cipherIO.cipher.headerIV v c = 0) : Outcome T name v iv false T
  | rewritten {c : Bytes} (hK : K.Rekeys) (hv : v ≠ 0)
      (hfile : T.find (components name) = some (.file c))
      (hlen : HEADER_SIZE ≤ c.length) (hopens : K.opens name = true)
      (hiv : K.cipherIO.cipher.headerIV v c ≠ 0) :
      Outcome T name v iv true (T.setContent (components name) (K.cipherIO.cipher.rekey v iv c))
  | created {c : Bytes} (hK : K.Rekeys) (hv : v ≠ 0) (hfile : T.find (components name) = some (.file []))
      (hlen : c.length = HEADER_SIZE) :
      Outcome T name v iv true (T.setContent (components name) c)

lemma Outcome.of_false {K : DiskChain} {T T' : FileTree Bytes Bytes} {name : Bytes} {v iv : UInt64}
    (h : K.Outcome T name v iv false T') : T' = T := by
  cases h with
  | plain _ => rfl
  | told _ => rfl
  | other _ => rfl
  | refused _ _ => rfl

lemma Outcome.of_zero {K : DiskChain} {T T' : FileTree Bytes Bytes} {name : Bytes} {iv : UInt64}
    {r : Bool} (h : K.Outcome T name 0 iv r T') : T' = T := by
  cases h with
  | plain _ => rfl
  | told _ => rfl
  | other _ => rfl
  | refused _ _ => rfl
  | rewritten _ hv _ _ _ _ => exact absurd rfl hv
  | created _ hv _ _ => exact absurd rfl hv

lemma Outcome.of_plain {K : DiskChain} {T T' : FileTree Bytes Bytes} {name : Bytes} {v iv : UInt64}
    {r : Bool} (hK : ¬ K.Rekeys) (h : K.Outcome T name v iv r T') : T' = T := by
  cases h with
  | plain _ => rfl
  | told _ => rfl
  | other _ => rfl
  | refused _ _ => rfl
  | rewritten hK' _ _ _ _ _ => exact absurd hK' hK
  | created hK' _ _ _ => exact absurd hK' hK

lemma Outcome.of_same {K : DiskChain} {T T' : FileTree Bytes Bytes} {name c : Bytes} {v : UInt64}
    {r : Bool} {bs : ℕ} (h : K.Outcome T name v v r T') (hC : K.cipherIO.cipher.Lawful bs)
    (hfile : T.find (components name) = some (.file c)) (hlen : HEADER_SIZE ≤ c.length) : T' = T := by
  cases h with
  | plain _ => rfl
  | told _ => rfl
  | other _ => rfl
  | refused _ _ => rfl
  | rewritten _ _ hfile' _ _ _ => rw [Cipher.rekey_self hC, FileTree.setContent_self hfile']
  | created _ _ hfile' _ =>
    rw [hfile] at hfile'
    rw [TreeEntry.file.inj (Option.some.inj hfile')] at hlen
    exact absurd hlen (by decide)

section Calls

variable {K} {f : CipherFile (Named OnDisk)}

def unopened (T : FileTree Bytes Bytes) (name : Bytes) (v : UInt64) (flags draws : ℕ) :
    CipherFile (Named OnDisk) :=
  ⟨⟨name, ⟨T, none, false⟩⟩, v, 0, flags, draws⟩

def opened (T : FileTree Bytes Bytes) (name : Bytes) : Named OnDisk :=
  ⟨name, ⟨T, some (components name), true⟩⟩

def reopened (T : FileTree Bytes Bytes) (name : Bytes) (v : UInt64) (flags draws : ℕ) :
    CipherFile (Named OnDisk) :=
  ⟨opened T name, v, 0, flags, draws⟩

lemma base_eq : K.cipherIO.base = RawCalls.fileIO (OnDisk.rawCalls K.opens) := by
  rw [K.cipherIO_base, K.rawIO_eq]

variable {T : FileTree Bytes Bytes} {name c : Bytes} {v iv : UInt64} {flags draws : ℕ}

lemma openFile_opens (hfile : T.find (components name) = some (.file c))
    (hopens : K.opens name = true) :
    lift (K.cipherIO.base.openFile (flags ||| O_RDWR)) (unopened T name v flags draws) =
      .ok 3 (reopened T name v flags draws) := by
  rw [base_eq]
  have hrequest := or_O_RDWR flags
  have hrun : OnDisk.openFile K.opens name (flags ||| O_RDWR) ⟨T, none, false⟩ =
      .ok 3 ⟨T, some (components name), true⟩ := by
    simp [OnDisk.openFile, hfile, hopens, hrequest]
    rfl
  exact lift_ok (by simp only [OnDisk.rawCalls, RawCalls.fileIO, Named.on, unopened, hrun]; rfl)

lemma openFile_refused (hfile : T.find (components name) = some (.file c))
    (hopens : K.opens name = false) :
    lift (K.cipherIO.base.openFile (flags ||| O_RDWR)) (unopened T name v flags draws) =
      .ok (-OnDisk.EACCES) (unopened T name v flags draws) := by
  rw [base_eq]
  have hrun : OnDisk.openFile K.opens name (flags ||| O_RDWR) ⟨T, none, false⟩ =
      .ok (-OnDisk.EACCES) ⟨T, none, false⟩ := by
    simp [OnDisk.openFile, hfile, hopens]
  exact lift_ok (by simp only [OnDisk.rawCalls, RawCalls.fileIO, Named.on, unopened, hrun])

lemma openFile_none (hnone : T.find (components name) = none) :
    lift (K.cipherIO.base.openFile (flags ||| O_RDWR)) (unopened T name v flags draws) =
      .ok (-OnDisk.ENOENT) (unopened T name v flags draws) := by
  rw [base_eq]
  have hrun : OnDisk.openFile K.opens name (flags ||| O_RDWR) ⟨T, none, false⟩ =
      .ok (-OnDisk.ENOENT) ⟨T, none, false⟩ := by
    simp [OnDisk.openFile, hnone]
  exact lift_ok (by simp only [OnDisk.rawCalls, RawCalls.fileIO, Named.on, unopened, hrun])

lemma openFile_dir (hdir : T.find (components name) = some .dir) :
    lift (K.cipherIO.base.openFile (flags ||| O_RDWR)) (unopened T name v flags draws) =
      .ok (-EISDIR) (unopened T name v flags draws) := by
  rw [base_eq]
  have hrun : OnDisk.openFile K.opens name (flags ||| O_RDWR) ⟨T, none, false⟩ =
      .ok (-EISDIR) ⟨T, none, false⟩ := by
    simp [OnDisk.openFile, hdir]
  exact lift_ok (by simp only [OnDisk.rawCalls, RawCalls.fileIO, Named.on, unopened, hrun])

section Opened

variable (hbase : f.base = opened T name)
include hbase

lemma getSize_opened : lift K.cipherIO.base.getSize f =
    .ok (OnDisk.contentAt T (components name)).length f := by
  rw [base_eq]
  refine lift_ok ?_
  rw [hbase]
  rfl

lemma read_opened (offset n : ℕ) : lift (K.cipherIO.base.read offset n) f =
    .ok (some (slice (OnDisk.contentAt T (components name)) offset n)) f := by
  rw [base_eq]
  refine lift_ok ?_
  rw [hbase]
  rfl

lemma isWritable_opened : lift K.cipherIO.base.isWritable f = .ok true f := by
  rw [base_eq]
  refine lift_ok ?_
  rw [hbase]
  rfl

lemma write_opened (offset : ℕ) (data : Bytes) : lift (K.cipherIO.base.write offset data) f =
    .ok true { f with base := opened (T.setContent (components name)
      (splice 0 (OnDisk.contentAt T (components name)) offset data)) name } := by
  rw [base_eq]
  refine lift_ok ?_
  rw [hbase]
  rfl

lemma writeHeader_opened : K.cipherIO.writeHeader f =
    .ok true { f with
      fileIV := 0
      base := opened (T.setContent (components name)
        (splice 0 (OnDisk.contentAt T (components name)) 0
          (K.cipherIO.cipher.streamEncode f.externalIV (bytesOfIV f.fileIV)))) name } := by
  have hensure : K.cipherIO.ensureWritable f = .ok true f := by
    rw [ensureWritable, Action.bind_ok (isWritable_opened hbase)]
    rfl
  have hcleared : ({ f with fileIV := 0 } : CipherFile (Named OnDisk)).base = opened T name := hbase
  rw [writeHeader, Action.bind_ok hensure]
  dsimp only
  rw [Action.get_bind, Action.set_bind, Action.bind_ok (write_opened hcleared 0 _)]
  rfl

end Opened

lemma baseIV (iv : UInt64) (f : CipherFile (Named OnDisk)) :
    lift (K.cipherIO.base.setIV iv) f = .ok true f := by
  rw [base_eq]
  rfl

variable (iv) in
lemma updateHeader_ready {f₀ : CipherFile (Named OnDisk)} (hbase : f.base = opened T name)
    (hready : K.cipherIO.headerForUpdate f₀ = .ok .ready f) :
    ∃ f', K.cipherIO.updateHeader iv f₀ = .ok true f' ∧
      f'.base.file.disk = T.setContent (components name)
        (splice 0 (OnDisk.contentAt T (components name)) 0
          (K.cipherIO.cipher.streamEncode iv (bytesOfIV f.fileIV))) := by
  have hnew : ({ f with externalIV := iv } : CipherFile (Named OnDisk)).base = opened T name := hbase
  refine ⟨{ f with
    externalIV := iv
    fileIV := 0
    base := opened (T.setContent (components name)
      (splice 0 (OnDisk.contentAt T (components name)) 0
        (K.cipherIO.cipher.streamEncode iv (bytesOfIV f.fileIV)))) name }, ?_, rfl⟩
  rw [updateHeader, Action.bind_ok hready]
  dsimp only
  rw [Action.get_bind, Action.set_bind, Action.bind_ok (writeHeader_opened hnew)]
  exact baseIV iv _

lemma contentAt_file {p : List Bytes} (hfile : T.find p = some (.file c)) :
    OnDisk.contentAt T p = c := by
  rw [OnDisk.contentAt, hfile]

lemma readHeader_of_read
    (hread : lift (K.cipherIO.base.read 0 HEADER_SIZE) f = .ok (some (c.take HEADER_SIZE)) f)
    (hlen : HEADER_SIZE ≤ c.length) :
    K.cipherIO.readHeader f =
      if K.cipherIO.cipher.headerIV f.externalIV c = 0 then
        .error .assertFailed { f with fileIV := K.cipherIO.cipher.headerIV f.externalIV c }
      else .ok ⟨⟩ { f with fileIV := K.cipherIO.cipher.headerIV f.externalIV c } := by
  have hbuf : resize 0 (c.take HEADER_SIZE) HEADER_SIZE = c.take HEADER_SIZE := by
    have hall := resize_self (0 : UInt8) (c.take HEADER_SIZE)
    rwa [List.length_take_of_le hlen] at hall
  rw [readHeader, Action.bind_ok hread]
  dsimp only [Option.getD_some]
  rw [Action.get_bind, Action.set_bind, hbuf, ← Cipher.headerIV]
  split <;> rfl

lemma readHeader_opened (hbase : f.base = opened T name)
    (hfile : T.find (components name) = some (.file c)) (hlen : HEADER_SIZE ≤ c.length) :
    K.cipherIO.readHeader f =
      if K.cipherIO.cipher.headerIV f.externalIV c = 0 then
        .error .assertFailed { f with fileIV := K.cipherIO.cipher.headerIV f.externalIV c }
      else .ok ⟨⟩ { f with fileIV := K.cipherIO.cipher.headerIV f.externalIV c } := by
  refine readHeader_of_read ?_ hlen
  rw [read_opened hbase, contentAt_file hfile, slice, List.drop_zero]

variable {bs : ℕ} (hC : K.cipherIO.cipher.Lawful bs)
include hC

lemma createHeader_opened (hbase : f.base = opened T name)
    (hempty : OnDisk.contentAt T (components name) = []) :
    Yields K.cipherIO.createHeader f
      (fun _ f' => ∃ c, f'.base = opened (T.setContent (components name) c) name ∧
        c.length = HEADER_SIZE)
      fun _ f' => f'.base = opened T name := by
  refine .get ?_
  dsimp only
  cases hbuf : K.cipherIO.random.randomize (K.cipherIO.random.firstUsable f.draws) HEADER_SIZE with
  | none => exact .set (.of_error rfl hbase)
  | some buf =>
    refine .set (.bind (.of_ok (isWritable_opened hbase) ?_))
    have hdrawn : ({ f with
        fileIV := ivOfBytes buf
        draws := K.cipherIO.random.firstUsable f.draws + 1 } : CipherFile (Named OnDisk)).base =
          opened T name := hbase
    refine .bind (.of_ok (write_opened hdrawn 0 _) (.pure ⟨_, rfl, ?_⟩))
    rw [hempty, splice_length, hC.streamEncode_length, K.cipherIO.random.randomize_length hbuf]
    rfl

omit hC in
lemma headerForUpdate_unopened :
    K.cipherIO.headerForUpdate (unopened T name v flags draws) = (do
      let res ← lift (K.cipherIO.base.openFile (flags ||| O_RDWR))
      if res < 0 then
        pure (if res = -EISDIR then CipherFileIO.HeaderState.directory else .failed)
      else do
        K.cipherIO.initHeader
        pure .ready) (unopened T name v flags draws) := by
  have hnew : (unopened T name v flags draws).fileIV = 0 := rfl
  rw [headerForUpdate, Action.get_bind, if_pos hnew]
  rfl

omit hC in
lemma updateHeader_unopened {res : ℤ} (hres : res < 0) (hdir : res ≠ -EISDIR)
    (hopen : lift (K.cipherIO.base.openFile (flags ||| O_RDWR)) (unopened T name v flags draws) =
      .ok res (unopened T name v flags draws)) :
    K.cipherIO.updateHeader iv (unopened T name v flags draws) =
      .ok false (unopened T name v flags draws) := by
  have hfailed : K.cipherIO.headerForUpdate (unopened T name v flags draws) =
      .ok .failed (unopened T name v flags draws) := by
    rw [headerForUpdate_unopened, Action.bind_ok hopen, if_pos hres, if_neg hdir]
    rfl
  exact Action.bind_ok hfailed

section Opens

variable (hfile : T.find (components name) = some (.file c)) (hopens : K.opens name = true)
include hfile hopens

omit hC in
lemma updateHeader_raised {e : RlogError}
    (h : K.cipherIO.initHeader (reopened T name v flags draws) = .error e f) :
    K.cipherIO.updateHeader iv (unopened T name v flags draws) = .error e f := by
  refine Action.bind_error ?_
  rw [headerForUpdate_unopened, Action.bind_ok (openFile_opens hfile hopens), if_neg (by decide)]
  exact Action.bind_error h

omit hC in
lemma headerForUpdate_opens
    (h : K.cipherIO.initHeader (reopened T name v flags draws) = .ok ⟨⟩ f) :
    K.cipherIO.headerForUpdate (unopened T name v flags draws) = .ok .ready f := by
  rw [headerForUpdate_unopened, Action.bind_ok (openFile_opens hfile hopens), if_neg (by decide)]
  exact Action.bind_ok h

omit hC hopens in
variable (v flags draws) in
lemma initHeader_reopened : K.cipherIO.initHeader (reopened T name v flags draws) =
    (if HEADER_SIZE ≤ c.length then K.cipherIO.readHeader else K.cipherIO.createHeader)
      (reopened T name v flags draws) := by
  have hsize : lift K.cipherIO.base.getSize (reopened T name v flags draws) =
      .ok c.length (reopened T name v flags draws) := by
    rw [getSize_opened rfl, contentAt_file hfile]
  rw [initHeader, Action.bind_ok hsize]
  simp only [Int.ofNat_le]

lemma updateHeader_long (hK : K.Rekeys) (hv : v ≠ 0) (hlen : HEADER_SIZE ≤ c.length) :
    Yields (K.cipherIO.updateHeader iv) (unopened T name v flags draws)
      (fun r f' => K.Outcome T name v iv r f'.base.file.disk)
      fun _ f' => K.Outcome T name v iv false f'.base.file.disk := by
  have hinit := initHeader_reopened (K := K) v flags draws hfile
  have hread := readHeader_opened (K := K) (f := reopened T name v flags draws) rfl hfile hlen
  rw [if_pos hlen] at hinit
  by_cases hiv : K.cipherIO.cipher.headerIV v c = 0
  · have hraised := hinit.trans (hread.trans (if_pos hiv))
    exact .of_error (updateHeader_raised hfile hopens hraised) (.refused hfile (.inr hiv))
  · have hready := headerForUpdate_opens hfile hopens (hinit.trans (hread.trans (if_neg hiv)))
    obtain ⟨f', hupdate, hdisk⟩ := updateHeader_ready iv (rfl : _ = opened T name) hready
    refine .of_ok hupdate ?_
    rw [hdisk, contentAt_file hfile]
    have hout : K.Outcome T name v iv true _ := .rewritten hK hv hfile hlen hopens hiv
    rwa [Cipher.rekey_eq hC hlen] at hout

end Opens

lemma updateHeader_empty (hK : K.Rekeys) (hv : v ≠ 0) (hfile : T.find (components name) = some (.file []))
    (hopens : K.opens name = true) :
    Yields (K.cipherIO.updateHeader iv) (unopened T name v flags draws)
      (fun r f' => K.Outcome T name v iv r f'.base.file.disk)
      fun _ f' => K.Outcome T name v iv false f'.base.file.disk := by
  have hinit := initHeader_reopened (K := K) v flags draws hfile
  have hcreate := createHeader_opened (f := reopened T name v flags draws) hC rfl
    (contentAt_file hfile)
  rw [if_neg (by decide)] at hinit
  cases hrun : K.cipherIO.createHeader (reopened T name v flags draws) with
  | error e f =>
    refine .of_error (updateHeader_raised hfile hopens (hinit.trans hrun)) ?_
    rw [hcreate.error hrun]
    refine .other fun c hc => ?_
    rw [hfile] at hc
    cases hc
    decide
  | ok a f =>
    obtain ⟨c, hbase, hlen⟩ := hcreate.ok hrun
    have hready := headerForUpdate_opens hfile hopens (hinit.trans hrun)
    obtain ⟨f', hupdate, hdisk⟩ := updateHeader_ready iv hbase hready
    refine .of_ok hupdate ?_
    rw [hdisk, FileTree.setContent_setContent]
    refine .created hK hv hfile ?_
    rw [contentAt_file (FileTree.find_setContent hfile), splice_length, hC.streamEncode_length,
      bytesOfIV_length, hlen]
    rfl

lemma updateHeader_outcome (hK : K.Rekeys) (hv : v ≠ 0)
    (hlong : ∀ c, T.find (components name) = some (.file c) → c = [] ∨ HEADER_SIZE ≤ c.length) :
    Yields (K.cipherIO.updateHeader iv) (unopened T name v flags draws)
      (fun r f' => K.Outcome T name v iv r f'.base.file.disk)
      fun _ f' => K.Outcome T name v iv false f'.base.file.disk := by
  cases hfind : T.find (components name) with
  | none =>
    refine .of_ok (updateHeader_unopened (by decide) (by decide) (openFile_none hfind)) ?_
    refine .other fun c hc => ?_
    rw [hfind] at hc
    cases hc
  | some entry =>
    cases entry with
    | dir =>
      have hdirectory : K.cipherIO.headerForUpdate (unopened T name v flags draws) =
          .ok .directory (unopened T name v flags draws) := by
        rw [headerForUpdate_unopened, Action.bind_ok (openFile_dir hfind), if_pos (by decide),
          if_pos rfl]
        rfl
      have hupdate : K.cipherIO.updateHeader iv (unopened T name v flags draws) =
          .ok true (unopened T name iv flags draws) :=
        (Action.bind_ok hdirectory).trans (baseIV iv _)
      refine .of_ok hupdate (.other fun c hc => ?_)
      rw [hfind] at hc
      cases hc
    | file c =>
      by_cases hopens : K.opens name = true
      · rcases hlong c hfind with rfl | hlen
        · exact updateHeader_empty hC hK hv hfind hopens
        · exact updateHeader_long hC hfind hopens hK hv hlen
      · have hopens' := Bool.eq_false_iff.mpr hopens
        refine .of_ok
          (updateHeader_unopened (by decide) (by decide) (openFile_refused hfind hopens')) ?_
        exact .refused hfind (.inl hopens')

lemma setIV_outcome (hchain : K.externalIVChaining = true)
    (hlong : K.cipherIO.haveHeader = true → ¬ OnDisk.Short T (components name)) :
    Yields (K.cipherIO.setIV iv) (unopened T name v flags draws)
      (fun r f' => K.Outcome T name v iv r f'.base.file.disk)
      fun _ f' => K.Outcome T name v iv false f'.base.file.disk := by
  refine .get ?_
  by_cases h0 : v = 0
  · have hnew : (unopened T name v flags draws).externalIV = 0 := h0
    rw [if_pos hnew]
    exact .set (.of_ok (baseIV iv _) (.told h0))
  · have hold : (unopened T name v flags draws).externalIV ≠ 0 := h0
    rw [if_neg hold]
    by_cases hh : K.cipherIO.haveHeader = true
    · rw [if_pos hh]
      refine updateHeader_outcome hC ⟨hchain, hh⟩ h0 fun c hc => ?_
      have hshort : ¬ (0 < c.length ∧ c.length < HEADER_SIZE) := fun h => hlong hh ⟨c, hc, h⟩
      rcases c.eq_nil_or_concat with hnil | ⟨d, b, hcat⟩
      · exact .inl hnil
      · have hpos : 0 < c.length := by simp [hcat]
        exact .inr (Nat.not_lt.mp fun h => hshort ⟨hpos, h⟩)
    · rw [if_neg hh]
      exact .of_ok (baseIV iv _) (.plain fun h => hh h.2)

omit hC in
lemma lstat_unopened : K.rawIO.lstat (unopened T name v flags draws).base.name
    (unopened T name v flags draws).base.file = OnDisk.lstat name ⟨T, none, false⟩ := by
  rw [K.rawIO_eq]
  rfl

omit hC in
lemma tooShort_unopened : K.TooShort (unopened T name v flags draws) ↔
    K.cipherIO.haveHeader = true ∧ OnDisk.Short T (components name) := by
  rw [NodeChain.TooShort, lstat_unopened, OnDisk.lstat, OnDisk.Short]
  cases T.find (components name) with
  | none => simp [OnDisk.ENOENT]
  | some entry =>
    cases entry with
    | dir => simp
    | file c => simp [List.length_pos_iff]

lemma chain_setIV_outcome (hchain : K.externalIVChaining = true) :
    Yields (K.setIV iv) (unopened T name v flags draws)
      (fun r f' => K.Outcome T name v iv r f'.base.file.disk)
      fun _ f' => K.Outcome T name v iv false f'.base.file.disk := by
  have hattr := NodeChain.getAttr_yields (K := K.toNodeChain) (unopened T name v flags draws)
  refine .bind (hattr.mono ?_ ?_)
  · rintro ⟨res, stbuf⟩ f ⟨⟨rfl, hlong⟩, hres, hregular⟩
    dsimp only at hres hregular ⊢
    rw [tooShort_unopened, not_and] at hlong
    split
    · exact setIV_outcome hC hchain hlong
    · rename_i hnot
      refine .pure (.other fun c hc => ?_)
      exfalso
      apply hnot
      right
      rw [hregular, lstat_unopened, OnDisk.lstat, hc]
  · rintro e f ⟨rfl, hshort⟩
    obtain ⟨-, c, hfile, -, hlt⟩ := tooShort_unopened.mp hshort
    refine .other fun c' hc' => ?_
    rw [hfile] at hc'
    cases hc'
    exact hlt

omit hC in
lemma setIV_new :
    Yields (K.setIV iv) (unopened T name 0 flags draws)
      (fun _ f' => f' = unopened T name (if T.find (components name) = some .dir then 0 else iv)
        flags draws ∧ (K.cipherIO.haveHeader = true → ¬ OnDisk.Short T (components name)))
      fun _ f' => f' = unopened T name 0 flags draws ∧ K.cipherIO.haveHeader = true ∧
        OnDisk.Short T (components name) := by
  have hattr := NodeChain.getAttr_yields (K := K.toNodeChain) (unopened T name 0 flags draws)
  refine .bind (hattr.mono ?_ ?_)
  · rintro ⟨res, stbuf⟩ f ⟨⟨rfl, hlong⟩, hres, hregular⟩
    rw [tooShort_unopened, not_and] at hlong
    dsimp only at hres hregular ⊢
    rw [hres, hregular, lstat_unopened, OnDisk.lstat]
    have htold : K.cipherIO.setIV iv (unopened T name 0 flags draws) =
        .ok true (unopened T name iv flags draws) := baseIV iv _
    cases hfind : T.find (components name) with
    | none =>
      rw [if_pos (.inl (by decide)), if_neg (by simp)]
      exact .of_ok htold ⟨rfl, hlong⟩
    | some entry =>
      cases entry with
      | dir =>
        rw [if_neg (by simp), if_pos rfl]
        exact .pure ⟨rfl, hlong⟩
      | file c =>
        rw [if_pos (.inr rfl), if_neg (by simp)]
        exact .of_ok htold ⟨rfl, hlong⟩
  · rintro e f ⟨rfl, hshort⟩
    exact ⟨rfl, tooShort_unopened.mp hshort⟩

end Calls

section Names

variable {K} {T : FileTree Bytes Bytes} {N : NodeState OnDisk} {name : Bytes} {v iv : UInt64}
  {flags draws : ℕ} {bs : ℕ}

lemma chainIV_outcome (hC : K.cipherIO.cipher.Lawful bs) (hdisk : N.io.base.file.disk = T)
    (hN : K.externalIVChaining = true → N.io = unopened T name v flags draws) :
    Yields (K.chainIV iv) N (fun r N' => K.Outcome T name v iv r N'.io.base.file.disk)
      fun _ N' => K.Outcome T name v iv false N'.io.base.file.disk := by
  rw [NodeChain.chainIV]
  by_cases hchain : K.externalIVChaining = true
  · rw [if_pos hchain]
    have hset : Yields (K.setIV iv) N.io (fun r f' => K.Outcome T name v iv r f'.base.file.disk)
        fun _ f' => K.Outcome T name v iv false f'.base.file.disk := by
      rw [hN hchain]
      exact chain_setIV_outcome hC hchain
    exact (NodeState.onLayers_yields hset).mono (fun _ _ h => h.2) fun _ _ h => h.2
  · rw [if_neg hchain]
    refine .pure ?_
    rw [hdisk]
    exact .plain fun h => hchain h.1

lemma setName_disk {P : Bool → FileTree Bytes Bytes → Prop} {pname cname : Option Bytes}
    {setIVFirst : Bool}
    (h : Yields (K.chainIV iv) (NodeChain.beforeIV pname cname setIVFirst N)
      (fun r N' => P r N'.io.base.file.disk) fun _ N' => P false N'.io.base.file.disk) :
    Yields (K.setName pname cname iv setIVFirst) N (fun r N' => P r N'.io.base.file.disk)
      fun _ N' => P false N'.io.base.file.disk := by
  refine .get ?_
  cases setIVFirst with
  | true =>
    refine .bind (h.mono ?_ fun _ _ h => h)
    intro r N' hout
    cases r with
    | false => exact .pure hout
    | true =>
      refine .modify (.pure ?_)
      rw [NodeState.setNames_file]
      exact hout
  | false =>
    refine .modify (.bind (h.mono ?_ fun _ _ h => h))
    intro r N' hout
    cases r with
    | true => exact .pure hout
    | false => exact .modify (.pure hout)

end Names

end DiskChain

end EncFS
