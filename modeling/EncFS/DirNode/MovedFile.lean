import EncFS.BlockFileIO.ReadsAlike
import EncFS.DirNode.Undo

/-! What a new node reads in a file whose header was rewritten. -/

set_option autoImplicit false

namespace EncFS

open FlatArray CipherFile
open CipherFileIO (getSize headerSize initHeader needHeader open' readOneBlock)

namespace DiskChain

/-- The layers of a file with block headers lie on those of the file itself. -/
structure Stacked (K : DiskChain) : Prop where
  macIO_base {M : MACFileIO (Cached (CipherFile (Named OnDisk)))} :
    K.macIO = some M → M.base = K.cipherIO.fileIO

variable (K : DiskChain)

def nodeIV (v : UInt64) : UInt64 := if K.externalIVChaining then v else 0

/-- The IV of a file by its header, where there is something that is decoded with it. -/
def fileIV (v : UInt64) (c : Bytes) : Option UInt64 :=
  if K.cipherIO.haveHeader ∧ HEADER_SIZE < c.length then
    some (K.cipherIO.cipher.headerIV (K.nodeIV v) c)
  else none

def openNode (iv : UInt64) (flags : ℕ) : Action (NodeState OnDisk) ℤ := do
  K.ownIV iv
  NodeState.onLayers (K.cipherIO.open' flags)

def sizeAndReads (macDraws : ℕ) (reads : List (ℕ × ℕ)) (f : CipherFile (Named OnDisk)) :
    Option (ℤ × List Answer) :=
  match K.macIO with
  | none =>
    match K.cipherIO.blockFile.accessors.sizeAndReads reads ⟨Cache.empty, f⟩ with
    | .ok r _ => some r
    | .error _ _ => none
  | some M =>
    match M.blockFile.accessors.sizeAndReads reads ⟨Cache.empty, ⟨⟨Cache.empty, f⟩, macDraws⟩⟩ with
    | .ok r _ => some r
    | .error _ _ => none

/-- What becomes of the content of a file when the node is told the IV of the new name. -/
inductive NewContent (v v' : UInt64) : Bytes → Bytes → Prop
  | kept {c : Bytes} (h : K.Rekeys → v = v' ∨ v = 0 ∨ c.length < HEADER_SIZE) :
      NewContent v v' c c
  | rekeyed {c : Bytes} (hK : K.Rekeys) (hv : v ≠ 0) (hlen : HEADER_SIZE ≤ c.length) :
      NewContent v v' c (K.cipherIO.cipher.rekey v v' c)
  | created {c' : Bytes} (hK : K.Rekeys) (hlen : c'.length = HEADER_SIZE) : NewContent v v' [] c'

structure SameBody (v v' : UInt64) (c c' : Bytes) : Prop where
  plain : K.cipherIO.haveHeader = false → c' = c
  body : K.cipherIO.haveHeader = true → c'.drop HEADER_SIZE = c.drop HEADER_SIZE
  length : K.cipherIO.haveHeader = true → c'.length = c.length ∨ c = [] ∧ c'.length = HEADER_SIZE
  fileIV : K.fileIV v' c' = K.fileIV v c

variable {K} {v v' : UInt64} {c c' : Bytes}

lemma fileIV_eq_none (h : c.length ≤ HEADER_SIZE) : K.fileIV v c = none :=
  if_neg fun hlong => Nat.not_le.mpr hlong.2 h

lemma fileIV_of_not_rekeys (hK : ¬ K.Rekeys) : K.fileIV v' c = K.fileIV v c := by
  rw [fileIV, fileIV]
  by_cases hheader : K.cipherIO.haveHeader = true
  · have hchain : ¬ K.externalIVChaining = true := fun hchain => hK ⟨hchain, hheader⟩
    rw [nodeIV, nodeIV, if_neg hchain, if_neg hchain]
  · rw [if_neg fun h => hheader h.1, if_neg fun h => hheader h.1]

namespace NewContent

variable (h : K.NewContent v v' c c')
include h

lemma fileIV_iff {bs : ℕ} (hC : K.cipherIO.cipher.Lawful bs) :
    K.fileIV v' c' = K.fileIV v c ↔ (v = 0 → K.fileIV v' c = K.fileIV v c) := by
  cases h with
  | kept h =>
    refine ⟨fun hiv _ => hiv, fun hiv => ?_⟩
    by_cases hK : K.Rekeys
    · rcases h hK with rfl | hv | hlen
      · rfl
      · exact hiv hv
      · rw [fileIV_eq_none hlen.le, fileIV_eq_none hlen.le]
    · exact fileIV_of_not_rekeys hK
  | rekeyed hK hv hlen =>
    refine iff_of_true ?_ fun hzero => absurd hzero hv
    rw [fileIV, fileIV, Cipher.rekey_length hC, nodeIV, nodeIV, if_pos hK.1, if_pos hK.1,
      Cipher.headerIV_rekey hC hlen]
  | created hK hlen =>
    have hnone (w : UInt64) : K.fileIV w [] = none := fileIV_eq_none (Nat.zero_le _)
    rw [fileIV_eq_none hlen.le, hnone, hnone]
    exact iff_of_true rfl fun _ => rfl

lemma sameBody {bs : ℕ} (hC : K.cipherIO.cipher.Lawful bs) (hiv : K.fileIV v' c' = K.fileIV v c) :
    K.SameBody v v' c c' := by
  have hheader (hK : K.Rekeys) : K.cipherIO.haveHeader ≠ false := by
    rw [hK.2]
    exact Bool.noConfusion
  cases h with
  | kept _ => exact ⟨fun _ => rfl, fun _ => rfl, fun _ => .inl rfl, hiv⟩
  | rekeyed hK _ hlen =>
    refine ⟨fun hplain => absurd hplain (hheader hK), fun _ => ?_, fun _ => .inl ?_, hiv⟩
    · rw [Cipher.rekey, List.drop_left' (Cipher.recoded_length hC hlen)]
    · exact Cipher.rekey_length hC
  | created hK hlen =>
    refine ⟨fun hplain => absurd hplain (hheader hK), fun _ => ?_, fun _ => .inr ⟨rfl, hlen⟩, hiv⟩
    rw [List.drop_eq_nil_of_le hlen.le, List.drop_nil]

end NewContent

section Reads

/-- The file is open and holds `c`, and the node has the IV of its name. -/
structure Holds (K : DiskChain) (f : CipherFile (Named OnDisk)) (v : UInt64) (c : Bytes) :
    Prop where
  externalIV : f.externalIV = K.nodeIV v
  named : OnDisk.contentAt f.base.file.disk (components f.base.name) = c
  opened : ∃ p, f.base.file.fd = some p ∧ OnDisk.contentAt f.base.file.disk p = c

def HoldBoth (K : DiskChain) (v v' : UInt64) (c c' : Bytes) (f f' : CipherFile (Named OnDisk)) :
    Prop :=
  Holds K f v c ∧ Holds K f' v' c' ∧ f.fileIV = f'.fileIV

variable {f f' : CipherFile (Named OnDisk)}

lemma getSize_holds (h : Holds K f v c) : lift K.cipherIO.base.getSize f = .ok c.length f := by
  rw [base_eq]
  refine lift_ok ?_
  rw [← h.named]
  rfl

lemma read_holds (h : Holds K f v c) (offset n : ℕ) :
    lift (K.cipherIO.base.read offset n) f = .ok (some (slice c offset n)) f := by
  obtain ⟨p, hfd, hc⟩ := h.opened
  rw [base_eq]
  have hrun : OnDisk.read offset n f.base.file = .ok (some (slice c offset n)) f.base.file := by
    rw [OnDisk.read, Action.get_bind, hfd, ← hc]
    rfl
  exact lift_ok (by simp only [OnDisk.rawCalls, RawCalls.fileIO, Named.on, hrun])

lemma readHeader_holds (h : Holds K f v c) (hlen : HEADER_SIZE ≤ c.length) :
    K.cipherIO.readHeader f =
      if K.cipherIO.cipher.headerIV (K.nodeIV v) c = 0 then
        .error .assertFailed { f with fileIV := K.cipherIO.cipher.headerIV (K.nodeIV v) c }
      else .ok ⟨⟩ { f with fileIV := K.cipherIO.cipher.headerIV (K.nodeIV v) c } := by
  rw [readHeader_of_read ?_ hlen, h.externalIV]
  rw [read_holds h, slice, List.drop_zero]

variable (hsame : K.SameBody v v' c c')
include hsame

lemma respects_getSize : Respects (HoldBoth K v v' c c') K.cipherIO.getSize := by
  intro f f' h
  have hsize := getSize_holds h.1
  have hsize' := getSize_holds h.2.1
  have hrun {f : CipherFile (Named OnDisk)} {c : Bytes}
      (hsize : lift K.cipherIO.base.getSize f = .ok c.length f) :
      K.cipherIO.getSize f =
        if K.cipherIO.haveHeader = true ∧ 0 < c.length then
          if HEADER_SIZE ≤ c.length then .ok (c.length - HEADER_SIZE : ℤ) f
          else .error .assertFailed f
        else .ok (c.length : ℤ) f := by
    rw [getSize, Action.bind_ok hsize]
    simp only [Int.natCast_pos, Int.ofNat_le]
    split_ifs <;> rfl
  rw [hrun hsize, hrun hsize']
  cases hheader : K.cipherIO.haveHeader with
  | false =>
    obtain rfl := hsame.plain hheader
    simp only [Bool.false_eq_true, false_and, if_false]
    exact .ok h
  | true =>
    rcases hsame.length hheader with hlen | ⟨rfl, hlen⟩
    · rw [hlen]
      split_ifs
      · exact .ok h
      · exact .error h
      · exact .ok h
    · rw [hlen]
      exact .ok h

lemma slice_body (offset n : ℕ) :
    slice c' (offset + K.cipherIO.headerSize) n = slice c (offset + K.cipherIO.headerSize) n := by
  rw [headerSize]
  cases hheader : K.cipherIO.haveHeader with
  | false => rw [hsame.plain hheader]
  | true =>
    rw [if_pos rfl, slice, slice, Nat.add_comm, ← List.drop_drop, ← List.drop_drop,
      hsame.body hheader]

lemma needHeader_holds (hlen : K.cipherIO.haveHeader = true → HEADER_SIZE < c.length)
    (h : HoldBoth K v v' c c' f f') :
    SameResult (HoldBoth K v v' c c') (K.cipherIO.needHeader f) (K.cipherIO.needHeader f') := by
  obtain ⟨hf, hf', hiv⟩ := h
  rw [needHeader, Action.get_bind, Action.get_bind, ← hiv]
  split
  · rename_i hneed
    have hlong := hlen hneed.1
    have hlong' : HEADER_SIZE < c'.length := by
      rcases hsame.length hneed.1 with hlength | ⟨rfl, -⟩
      · rwa [hlength]
      · exact absurd hlong (by decide)
    have hsameIV := hsame.fileIV
    rw [fileIV, fileIV, if_pos ⟨hneed.1, hlong'⟩, if_pos ⟨hneed.1, hlong⟩] at hsameIV
    have hinit {f : CipherFile (Named OnDisk)} {w : UInt64} {d : Bytes} (hf : Holds K f w d)
        (hlong : HEADER_SIZE < d.length) : K.cipherIO.initHeader f = K.cipherIO.readHeader f := by
      rw [initHeader, Action.bind_ok (getSize_holds hf),
        if_pos (Int.ofNat_le.mpr hlong.le)]
    rw [hinit hf hlong, hinit hf' hlong', readHeader_holds hf hlong.le,
      readHeader_holds hf' hlong'.le, Option.some.inj hsameIV]
    split
    · exact .error ⟨⟨hf.1, hf.2, hf.3⟩, ⟨hf'.1, hf'.2, hf'.3⟩, rfl⟩
    · exact .ok ⟨⟨hf.1, hf.2, hf.3⟩, ⟨hf'.1, hf'.2, hf'.3⟩, rfl⟩
  · exact .ok ⟨hf, hf', hiv⟩

lemma respects_readOneBlock (offset n : ℕ) :
    Respects (HoldBoth K v v' c c') (K.cipherIO.readOneBlock offset n) := by
  intro f f' h
  have hread := read_holds h.1 (offset + K.cipherIO.headerSize) n
  have hread' := read_holds h.2.1 (offset + K.cipherIO.headerSize) n
  rw [slice_body hsame] at hread'
  rw [readOneBlock, Action.bind_ok hread, Action.bind_ok hread']
  dsimp only
  split
  · exact .ok h
  · rename_i hne
    have hlen : K.cipherIO.haveHeader = true → HEADER_SIZE < c.length := by
      intro hheader
      by_contra hshort
      apply hne
      rw [headerSize, if_pos hheader, slice_eq_nil (by omega)]
    refine (needHeader_holds hsame hlen h).bind fun _ s t _ _ hst => ?_
    rw [Action.get_bind, Action.get_bind, hst.2.2]
    exact .ok hst

lemma sizeAndReads_holds (hK : K.Stacked) (h : HoldBoth K v v' c c' f f') (macDraws macDraws' : ℕ)
    (reads : List (ℕ × ℕ)) : K.sizeAndReads macDraws reads f = K.sizeAndReads macDraws' reads f' := by
  have halike : K.cipherIO.blockFile.accessors.ReadsAlike (Cached.Both (HoldBoth K v v' c c')) :=
    BlockFileIO.readsAlike (respects_readOneBlock hsame) (respects_getSize hsame)
  rw [sizeAndReads, sizeAndReads]
  cases hmac : K.macIO with
  | none =>
    have hrun := halike.sizeAndReads reads ⟨Cache.empty, f⟩ ⟨Cache.empty, f'⟩ ⟨rfl, h⟩
    rcases hrun.runs with ⟨r, s, t, hs, ht, -⟩ | ⟨e, s, t, hs, ht, -⟩
    · simp only [hs, ht]
    · simp only [hs, ht]
  | some M =>
    have hbase : M.base.ReadsAlike (Cached.Both (HoldBoth K v v' c c')) := by
      rw [hK.macIO_base hmac]
      exact halike
    have hmacAlike := MACFileIO.readsAlike hbase
    have hrun := hmacAlike.sizeAndReads reads
      ⟨Cache.empty, ⟨⟨Cache.empty, f⟩, macDraws⟩⟩ ⟨Cache.empty, ⟨⟨Cache.empty, f'⟩, macDraws'⟩⟩
      ⟨rfl, rfl, h⟩
    rcases hrun.runs with ⟨r, s, t, hs, ht, -⟩ | ⟨e, s, t, hs, ht, -⟩
    · simp only [hs, ht]
    · simp only [hs, ht]

end Reads

variable (K) in
/-- The file is too short for its header, and every use of the node raises. -/
def Headless (c : Bytes) : Prop :=
  K.Rekeys ∧ 0 < c.length ∧ c.length < HEADER_SIZE

lemma headless_iff (hsame : K.SameBody v v' c c') : K.Headless c' ↔ K.Headless c := by
  refine and_congr_right fun hK => ?_
  rcases hsame.length hK.2 with hlen | ⟨rfl, hlen⟩
  · rw [hlen]
  · rw [hlen]
    decide

section Opened

variable {T : FileTree Bytes Bytes} {name : Bytes} (hfile : T.find (components name) = some (.file c))
include hfile

lemma ownIV_file (pname : Bytes) (iv : UInt64) (draws : ℕ) :
    Yields (K.ownIV iv) (NodeChain.newNode pname name ⟨T, none, false⟩ draws)
      (fun _ N => N.io = unopened T name (K.nodeIV iv) 0 draws ∧ ¬ K.Headless c)
      fun _ _ => K.Headless c := by
  by_cases hchain : K.externalIVChaining = true
  · refine (ownIV_new rfl).mono ?_ ?_
    · rintro - N ⟨-, htold⟩
      obtain ⟨hio, hlong⟩ := htold hchain
      rw [if_neg (by simp [hfile])] at hio
      refine ⟨by rw [hio, nodeIV, if_pos hchain], fun hshort => ?_⟩
      exact hlong hshort.1.2 ⟨c, hfile, hshort.2⟩
    · rintro e N ⟨-, hheader, c₀, hc₀, hshort⟩
      obtain rfl := TreeEntry.file.inj (Option.some.inj (hfile.symm.trans hc₀))
      exact ⟨⟨hchain, hheader⟩, hshort⟩
  · rw [ownIV, if_neg hchain]
    exact .pure ⟨by rw [nodeIV, if_neg hchain]; rfl, fun hshort => hchain hshort.1.1⟩

lemma open_unopened (hopens : K.opens name = true) (w : UInt64) (k flags draws : ℕ) :
    ∃ f, K.cipherIO.open' flags (unopened T name w k draws) = .ok 3 f ∧
      f.base.name = name ∧ f.base.file.disk = T ∧ f.base.file.fd = some (components name) ∧
      f.externalIV = w ∧ f.fileIV = 0 := by
  obtain ⟨s, hrun, hdisk, hfd⟩ : ∃ s,
      OnDisk.openFile K.opens name flags ⟨T, none, false⟩ = .ok 3 s ∧ s.disk = T ∧
        s.fd = some (components name) := by
    have hrequest : OnDisk.openFile K.opens name flags ⟨T, none, false⟩ = .ok 3
        ⟨T, some (components name), decide (flags &&& O_RDWR ≠ 0 ∨ flags &&& O_WRONLY ≠ 0)⟩ := by
      simp [OnDisk.openFile, hfile, hopens]
      rfl
    exact ⟨_, hrequest, rfl, rfl⟩
  have hopen : lift (K.cipherIO.base.openFile flags) (unopened T name w k draws) =
      .ok 3 ⟨⟨name, s⟩, w, 0, k, draws⟩ := by
    rw [base_eq]
    exact lift_ok (by simp only [OnDisk.rawCalls, RawCalls.fileIO, Named.on, unopened, hrun])
  refine ⟨⟨⟨name, s⟩, w, 0, flags, draws⟩, ?_, rfl, hdisk, hfd, rfl, rfl⟩
  rw [open', Action.bind_ok hopen, if_pos (by decide)]
  rfl

lemma openNode_file (hopens : K.opens name = true) (pname : Bytes) (iv : UInt64) (flags draws : ℕ) :
    Yields (K.openNode iv flags) (NodeChain.newNode pname name ⟨T, none, false⟩ draws)
      (fun res N => res = 3 ∧ ¬ K.Headless c ∧ Holds K N.io iv c ∧ N.io.fileIV = 0)
      fun _ _ => K.Headless c := by
  refine .bind ((ownIV_file hfile pname iv draws).mono ?_ fun _ _ h => h)
  rintro - N ⟨hio, hlong⟩
  obtain ⟨f, hopen, hname, hdisk, hfd, hiv, hnew⟩ :=
    open_unopened hfile hopens (K.nodeIV iv) 0 flags draws
  rw [← hio] at hopen
  have hc : OnDisk.contentAt f.base.file.disk (components name) = c := by
    rw [hdisk, contentAt_file hfile]
  have hyields : Yields (K.cipherIO.open' flags) N.io (fun res f' => res = 3 ∧ f' = f)
      fun _ _ => False := .of_ok hopen ⟨rfl, rfl⟩
  refine (NodeState.onLayers_yields hyields).mono ?_ ?_
  · rintro res N' ⟨-, rfl, hf⟩
    rw [hf]
    exact ⟨rfl, hlong, ⟨hiv, by rw [hname]; exact hc, _, hfd, hc⟩, hnew⟩
  · exact fun _ _ h => h.2.elim

end Opened

end DiskChain

namespace DirNode

variable (D : DirNode) (K : DiskChain)

/-- What a new node for the path gives of its file: the size, and the answers to reads. -/
def readAt (T : FileTree Bytes Bytes) (path : Bytes) (flags draws macDraws : ℕ)
    (reads : List (ℕ × ℕ)) : Option (ℤ × List Answer) :=
  match D.naming.encodePathIV path 0 with
  | .error _ => none
  | .ok (cipherName, iv) =>
    match K.openNode iv flags
        (NodeChain.newNode path (D.rootDir ++ cipherName) ⟨T, none, false⟩ draws) with
    | .error _ _ => none
    | .ok res N => if res < 0 then none else K.sizeAndReads macDraws reads N.io

variable {D K}

lemma readAt_same (hK : K.Stacked) (hopens : ∀ name, K.opens name = true)
    {T T' : FileTree Bytes Bytes} {path path' q q' c c' : Bytes} {v v' : UInt64}
    (hpath : D.naming.encodePathIV path 0 = .ok (q, v))
    (hpath' : D.naming.encodePathIV path' 0 = .ok (q', v'))
    (hfile : T.find (components (D.rootDir ++ q)) = some (.file c))
    (hfile' : T'.find (components (D.rootDir ++ q')) = some (.file c'))
    (hsame : K.SameBody v v' c c') (flags draws draws' macDraws macDraws' : ℕ)
    (reads : List (ℕ × ℕ)) :
    D.readAt K T path flags draws macDraws reads =
      D.readAt K T' path' flags draws' macDraws' reads := by
  have hopen := DiskChain.openNode_file hfile (hopens _) path v flags draws
  have hopen' := DiskChain.openNode_file hfile' (hopens _) path' v' flags draws'
  rw [DiskChain.headless_iff hsame] at hopen'
  rw [readAt, readAt, hpath, hpath']
  dsimp only
  cases hrun : K.openNode v flags
      (NodeChain.newNode path (D.rootDir ++ q) ⟨T, none, false⟩ draws) with
  | ok res N =>
    obtain ⟨rfl, hlong, hholds, hnew⟩ := hopen.ok hrun
    cases hrun' : K.openNode v' flags
        (NodeChain.newNode path' (D.rootDir ++ q') ⟨T', none, false⟩ draws') with
    | ok res' N' =>
      obtain ⟨rfl, -, hholds', hnew'⟩ := hopen'.ok hrun'
      dsimp only
      rw [if_neg (by decide), if_neg (by decide)]
      exact DiskChain.sizeAndReads_holds hsame hK ⟨hholds, hholds', hnew.trans hnew'.symm⟩ _ _ reads
    | error e N' => exact absurd (hopen'.error hrun') hlong
  | error e N =>
    have hshort := hopen.error hrun
    cases hrun' : K.openNode v' flags
        (NodeChain.newNode path' (D.rootDir ++ q') ⟨T', none, false⟩ draws') with
    | ok res' N' => exact absurd hshort (hopen'.ok hrun').2.1
    | error e' N' => rfl

end DirNode

end EncFS
