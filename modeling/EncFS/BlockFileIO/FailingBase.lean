import EncFS.BlockFileIO.Faults
import EncFS.BlockFileIO.Invariants
import EncFS.BlockFileIO.Truncate

set_option autoImplicit false

namespace EncFS

open FlatArray

inductive BaseCall
  | read
  | write
  | truncate
  deriving DecidableEq, Repr

/-- A file under one that makes calls to it. The call of a kind that comes after `left` more of the
kind fails; a write that fails has stored fewer bytes than it was given, and `stored` at most. -/
structure Failing (τ : Type) where
  file : τ
  kind : BaseCall
  left : ℕ
  stored : ℕ
  failed : Bool
  deriving DecidableEq, Repr

namespace Failing

variable {τ α : Type}

def lift (x : Action τ α) : Action (Failing τ) α := fun w =>
  match x w.file with
  | .ok a s => .ok a { w with file := s }
  | .error e s => .error e { w with file := s }

def pass (kind : BaseCall) (fails passes : Action (Failing τ) α) : Action (Failing τ) α := do
  let w ← get
  if w.failed = false ∧ w.kind = kind then
    match w.left with
    | 0 => do
      set { w with failed := true }
      fails
    | left + 1 => do
      set { w with left := left }
      passes
  else
    passes

def storeSome (base : FileIO τ) (offset : ℕ) (data : Bytes) : Action (Failing τ) Bool := do
  let w ← get
  let some := data.dropLast.take w.stored
  if some = [] then
    pure false
  else do
    let _ ← lift (base.write offset some)
    pure false

end Failing

def FileIO.failing {τ : Type} (base : FileIO τ) : FileIO (Failing τ) where
  getSize := Failing.lift base.getSize
  read offset dataLen := Failing.pass .read (pure none) (Failing.lift (base.read offset dataLen))
  write offset data := Failing.pass .write (Failing.storeSome base offset data)
    (Failing.lift (base.write offset data))
  openFile flags := Failing.lift (base.openFile flags)
  setIV iv := Failing.lift (base.setIV iv)
  truncate size := Failing.pass .truncate (pure (- EIO)) (Failing.lift (base.truncate size))
  isWritable := Failing.lift base.isWritable

namespace Failing

variable {τ α : Type}

lemma lift_ok {x : Action τ α} {w : Failing τ} {a : α} {s : τ} (h : x w.file = .ok a s) :
    lift x w = .ok a { w with file := s } := by
  simp only [lift, h]

lemma lift_yields {x : Action τ α} {w : Failing τ} {Q : α → Failing τ → Prop}
    {E : RlogError → Failing τ → Prop}
    (h : Yields x w.file (fun a s => Q a { w with file := s }) fun e s => E e { w with file := s }) :
    Yields (lift x) w Q E := by
  cases hx : x w.file with
  | ok a s => exact .of_ok (lift_ok hx) (h.ok hx)
  | error e s =>
    refine .of_error (e := e) (t := { w with file := s }) ?_ (h.error hx)
    simp only [lift, hx]

lemma pass_of_passing {kind : BaseCall} {fails passes : Action (Failing τ) α} {w : Failing τ}
    (h : w.failed = true ∨ w.kind ≠ kind) : pass kind fails passes w = passes w := by
  rw [pass, Action.get_bind, if_neg]
  rintro ⟨hfailed, hkind⟩
  rcases h with h | h
  · exact absurd (hfailed.symm.trans h) (by decide)
  · exact h hkind

lemma pass_of_failing {kind : BaseCall} {fails passes : Action (Failing τ) α} {w : Failing τ}
    (hfailed : w.failed = false) (hkind : w.kind = kind) (hleft : w.left = 0) :
    pass kind fails passes w = fails { w with failed := true } := by
  rw [pass, Action.get_bind, if_pos ⟨hfailed, hkind⟩, hleft]
  rfl

lemma pass_of_left {kind : BaseCall} {fails passes : Action (Failing τ) α} {w : Failing τ}
    (hfailed : w.failed = false) (hkind : w.kind = kind) {left : ℕ} (hleft : w.left = left + 1) :
    pass kind fails passes w = passes { w with left := left } := by
  rw [pass, Action.get_bind, if_pos ⟨hfailed, hkind⟩, hleft]
  rfl

def Spent (R : τ → Bytes → Prop) (w : Failing τ) (c : Bytes) : Prop :=
  w.failed = true ∧ R w.file c

def Awaits (kind : BaseCall) (w : Failing τ) : Prop :=
  w.failed = false ∧ w.kind = kind

def Awaiting (kind : BaseCall) (R : τ → Bytes → Prop) (w : Failing τ) (c : Bytes) : Prop :=
  Awaits kind w ∧ R w.file c

lemma preserves_lift (kind : BaseCall) (x : Action τ α) : Preserves (Awaits kind) (lift x) :=
  fun _ h => lift_yields (Yields.any.mono (fun _ _ _ => h) fun _ _ _ => h)

section Calls

variable (base : FileIO τ) {w : Failing τ}

lemma read_passes (h : Awaits .read w) {left : ℕ} (hleft : w.left = left + 1) (offset n : ℕ) :
    base.failing.read offset n w = lift (base.read offset n) { w with left := left } :=
  pass_of_left h.1 h.2 hleft

lemma read_splits (h : Awaits .read w) (offset n : ℕ) :
    base.failing.read offset n w = .ok none { w with failed := true } ∨
      Yields (base.failing.read offset n) w (fun _ => Awaits .read) fun _ => Awaits .read := by
  by_cases h0 : w.left = 0
  · exact .inl (pass_of_failing h.1 h.2 h0)
  · obtain ⟨left, hleft⟩ := Nat.exists_eq_succ_of_ne_zero h0
    right
    rw [Yields, read_passes base h hleft]
    exact preserves_lift .read (base.read offset n) _ h

lemma preserves_write (offset : ℕ) (data : Bytes) :
    Preserves (Awaits .read) (base.failing.write offset data) := by
  intro w h
  have hpasses : base.failing.write offset data w = lift (base.write offset data) w :=
    pass_of_passing (.inr (by rw [h.2]; decide))
  rw [Yields, hpasses]
  exact preserves_lift .read (base.write offset data) w h

lemma preserves_truncate (n : ℕ) : Preserves (Awaits .read) (base.failing.truncate n) := by
  intro w h
  have hpasses : base.failing.truncate n w = lift (base.truncate n) w :=
    pass_of_passing (.inr (by rw [h.2]; decide))
  rw [Yields, hpasses]
  exact preserves_lift .read (base.truncate n) w h

lemma truncate_splits (h : Awaits .truncate w) {n : ℕ} {s : τ}
    (he : base.truncate n w.file = .ok 0 s) :
    base.failing.truncate n w = .ok (- EIO) { w with failed := true } ∨
      ∃ left, base.failing.truncate n w = .ok 0 { w with left := left, file := s } := by
  by_cases h0 : w.left = 0
  · exact .inl (pass_of_failing h.1 h.2 h0)
  · obtain ⟨left, hleft⟩ := Nat.exists_eq_succ_of_ne_zero h0
    exact .inr ⟨left, (pass_of_left h.1 h.2 hleft).trans (lift_ok (w := { w with left := left }) he)⟩

end Calls

variable {base : FileIO τ} {R : τ → Bytes → Prop}

lemma flatStore_spent (hb : base.FlatStore R) : base.failing.FlatStore (Spent R) where
  getSize {w c} h := by
    obtain ⟨s, he, hs⟩ := hb.getSize h.2
    exact ⟨_, lift_ok he, h.1, hs⟩
  read {w c} offset n h := by
    obtain ⟨s, he, hs⟩ := hb.read offset n h.2
    exact ⟨_, (pass_of_passing (.inl h.1)).trans (lift_ok he), h.1, hs⟩
  write {w c} offset data h hd := by
    obtain ⟨s, he, hs⟩ := hb.write offset h.2 hd
    exact ⟨_, (pass_of_passing (.inl h.1)).trans (lift_ok he), h.1, hs⟩
  openFile {w c} flags h := by
    obtain ⟨res, s, he, hres, hs⟩ := hb.openFile flags h.2
    exact ⟨res, _, lift_ok he, hres, h.1, hs⟩
  truncate {w c} size h := by
    obtain ⟨s, he, hs⟩ := hb.truncate size h.2
    exact ⟨_, (pass_of_passing (.inl h.1)).trans (lift_ok he), h.1, hs⟩
  isWritable {w c} h := by
    obtain ⟨s, he, hs⟩ := hb.isWritable h.2
    exact ⟨_, lift_ok he, h.1, hs⟩

end Failing

/-- The same base file where reads never fail; its other calls are the same. -/
def FileIO.sparingReads {τ : Type} (base : FileIO τ) : FileIO (Failing τ) :=
  { base.failing with read := fun offset n => Failing.lift (base.read offset n) }

def FileIO.sparingTruncates {τ : Type} (base : FileIO τ) : FileIO (Failing τ) :=
  { base.failing with truncate := fun size => Failing.lift (base.truncate size) }

namespace Failing

variable {τ : Type} {base : FileIO τ} {R : τ → Bytes → Prop}

lemma flatStore_sparingReads (hb : base.FlatStore R) :
    base.sparingReads.FlatStore (Awaiting .read R) where
  getSize {w c} h := by
    obtain ⟨s, he, hs⟩ := hb.getSize h.2
    exact ⟨_, lift_ok he, h.1, hs⟩
  read {w c} offset n h := by
    obtain ⟨s, he, hs⟩ := hb.read offset n h.2
    exact ⟨_, lift_ok he, h.1, hs⟩
  write {w c} offset data h hd := by
    obtain ⟨s, he, hs⟩ := hb.write offset h.2 hd
    exact ⟨_, (pass_of_passing (.inr (by rw [h.1.2]; decide))).trans (lift_ok he), h.1, hs⟩
  openFile {w c} flags h := by
    obtain ⟨res, s, he, hres, hs⟩ := hb.openFile flags h.2
    exact ⟨res, _, lift_ok he, hres, h.1, hs⟩
  truncate {w c} size h := by
    obtain ⟨s, he, hs⟩ := hb.truncate size h.2
    exact ⟨_, (pass_of_passing (.inr (by rw [h.1.2]; decide))).trans (lift_ok he), h.1, hs⟩
  isWritable {w c} h := by
    obtain ⟨s, he, hs⟩ := hb.isWritable h.2
    exact ⟨_, lift_ok he, h.1, hs⟩

lemma flatStore_sparingTruncates (hb : base.FlatStore R) :
    base.sparingTruncates.FlatStore (Awaiting .truncate R) where
  getSize {w c} h := by
    obtain ⟨s, he, hs⟩ := hb.getSize h.2
    exact ⟨_, lift_ok he, h.1, hs⟩
  read {w c} offset n h := by
    obtain ⟨s, he, hs⟩ := hb.read offset n h.2
    exact ⟨_, (pass_of_passing (.inr (by rw [h.1.2]; decide))).trans (lift_ok he), h.1, hs⟩
  write {w c} offset data h hd := by
    obtain ⟨s, he, hs⟩ := hb.write offset h.2 hd
    exact ⟨_, (pass_of_passing (.inr (by rw [h.1.2]; decide))).trans (lift_ok he), h.1, hs⟩
  openFile {w c} flags h := by
    obtain ⟨res, s, he, hres, hs⟩ := hb.openFile flags h.2
    exact ⟨res, _, lift_ok he, hres, h.1, hs⟩
  truncate {w c} size h := by
    obtain ⟨s, he, hs⟩ := hb.truncate size h.2
    exact ⟨_, lift_ok he, h.1, hs⟩
  isWritable {w c} h := by
    obtain ⟨s, he, hs⟩ := hb.isWritable h.2
    exact ⟨_, lift_ok he, h.1, hs⟩

end Failing

def ZerosKept (bs : ℕ) (c : Bytes) (n : ℕ) : Prop :=
  slice c (min c.length n / bs * bs) (min c.length n % bs) = List.replicate (min c.length n % bs) 0

lemma zerosKept_iff (bs : ℕ) (c : Bytes) (n : ℕ) :
    ZerosKept bs c n ↔ resize 0 (c.take (min c.length n / bs * bs)) n = resize 0 c n := by
  have hdiv := Nat.div_add_mod' (min c.length n) bs
  rw [ZerosKept]
  generalize min c.length n / bs * bs = k at *
  generalize min c.length n % bs = r at *
  have hlen : (c.take k).length = k := by
    rw [List.length_take]
    omega
  constructor
  · intro h
    have htake : c.take (min c.length n) = resize 0 (c.take k) (min c.length n) := by
      have hall : (c.take k).take (k + r) = c.take k := List.take_of_length_le (by omega)
      rw [← hdiv, List.take_add, resize, hall, hlen, Nat.add_sub_cancel_left]
      exact congrArg _ h
    rw [← resize_resize 0 (c.take k) (m := min c.length n) (.inr (by omega)), ← htake]
    rcases Nat.le_total n c.length with hle | hle
    · rw [Nat.min_eq_right hle, resize_take 0 c (Nat.le_refl n)]
    · rw [Nat.min_eq_left hle, List.take_length]
  · intro h
    have hslice : slice (resize 0 (c.take k) n) k r = slice (resize 0 c n) k r :=
      congrArg (fun d => slice d k r) h
    rw [slice_resize, slice_resize, slice_eq_nil (Nat.le_of_eq hlen), resize_nil] at hslice
    rw [resize_of_length 0 (by rw [slice_length]; omega), Nat.min_eq_left (by omega)] at hslice
    exact hslice.symm

namespace BlockFileIO

open Cached

variable {σ : Type} {B : BlockFileIO σ} {I : σ → Prop}

def zeroBlock (B : BlockFileIO σ) (k : ℕ) : Cache :=
  ⟨k * B.blockSize, List.replicate B.blockSize 0⟩

lemma hit_zeroBlock (B : BlockFileIO σ) (k : ℕ) : B.Hit (B.zeroBlock k) k :=
  ⟨rfl, List.ne_nil_of_length_pos (Nat.lt_of_lt_of_eq B.blockSize_pos List.length_replicate.symm)⟩

lemma lookup_zeroBlock (B : BlockFileIO σ) (k : ℕ) (block : Bytes) {n : ℕ} (hn : n < B.blockSize) :
    (B.lookup (B.zeroBlock k) block k).take n = List.replicate n 0 := by
  rw [lookup, if_pos (B.hit_zeroBlock k), zeroBlock, List.take_replicate,
    Nat.min_eq_left (Nat.le_of_lt hn)]

lemma resize_zeroBlock (B : BlockFileIO σ) (k : ℕ) (block : Bytes) {n : ℕ} (hn : n < B.blockSize) :
    resize 0 (B.lookup (B.zeroBlock k) block k) n = List.replicate n 0 := by
  rw [← lookup_zeroBlock B k block hn]
  apply resize_eq_take
  rw [lookup, if_pos (B.hit_zeroBlock k), zeroBlock, List.length_replicate]
  exact Nat.le_of_lt hn

lemma padded_zeroBlock (B : BlockFileIO σ) (n size : ℕ) :
    padded (some ((List.replicate B.blockSize 0).take n)) size = padded none size := by
  rw [padded, padded, Option.getD_some, Option.getD_none, List.take_replicate, resize_replicate,
    resize_nil]

lemma cacheReadOneBlock_zeroBlock (k n : ℕ) (s : σ) :
    B.cacheReadOneBlock (k * B.blockSize) n ⟨B.zeroBlock k, s⟩ =
      .ok (some ((List.replicate B.blockSize 0).take n)) ⟨B.zeroBlock k, s⟩ := by
  have hcached : k * B.blockSize = (B.zeroBlock k).offset ∧ (B.zeroBlock k).data ≠ [] :=
    B.hit_zeroBlock k
  rw [cacheReadOneBlock, Action.get_bind]
  dsimp only
  rw [if_pos hcached]
  rfl

section Splitting

variable {k : ℕ} {s s' : σ} (h : B.readOneBlock (k * B.blockSize) B.blockSize s = .ok none s' ∨
    Yields (B.readOneBlock (k * B.blockSize) B.blockSize) s (fun _ => I) fun _ => I)
  (hs : I s) (cache : Cache)
include h hs

lemma cacheReadOneBlock_splits (n : ℕ) :
    B.cacheReadOneBlock (k * B.blockSize) n ⟨cache, s⟩ = .ok none ⟨⟨cache.offset, []⟩, s'⟩ ∨
      Yields (B.cacheReadOneBlock (k * B.blockSize) n) ⟨cache, s⟩
        (fun _ => OfFile I) fun _ => OfFile I := by
  by_cases hit : B.Hit cache k
  · refine .inr (.get ?_)
    have hcached : k * B.blockSize = cache.offset ∧ cache.data ≠ [] := hit
    dsimp only
    rw [if_pos hcached]
    exact .pure hs
  have hmiss : ¬(k * B.blockSize = cache.offset ∧ cache.data ≠ []) := hit
  rcases h with h | h
  · left
    rw [cacheReadOneBlock, Action.get_bind]
    rw [if_neg hmiss, Action.bind_ok (clearCache_run cache s), Action.bind_ok (lift_ok h)]
    rfl
  · refine .inr (.get ?_)
    dsimp only
    rw [if_neg hmiss]
    refine .bind (.of_ok (clearCache_run cache s) (.bind (lift_yields (h.mono ?_ fun _ _ hi => hi))))
    intro r s₁ hs₁
    cases r with
    | none => exact .pure hs₁
    | some result =>
      dsimp only
      split
      · exact .pure hs₁
      · exact .bind (.of_ok (setCache_run _ _ s₁) (.pure hs₁))

variable (hwrite : ∀ offset data, Preserves I (B.writeOneBlock offset data))
include hwrite

lemma padBlock_splits (readSize size : ℕ) :
    B.padBlock k readSize size ⟨cache, s⟩ = B.padBlock k readSize size ⟨B.zeroBlock k, s'⟩ ∨
      Yields (B.padBlock k readSize size) ⟨cache, s⟩ (fun _ => OfFile I) fun _ => OfFile I := by
  rcases cacheReadOneBlock_splits h hs cache readSize with hnone | hkept
  · left
    rw [padBlock, Action.bind_ok hnone, Action.bind_ok (cacheReadOneBlock_zeroBlock k readSize s'),
      padded_zeroBlock]
    rfl
  · refine .inr (.bind (hkept.mono (fun _ o ho => ?_) fun _ _ ho => ho))
    exact (Preserves.bind (preserves_cacheWriteOneBlock hwrite _ _) fun _ => .pure _) o ho

lemma padFile_splits {m n : ℕ} (hk : k = m / B.blockSize) :
    (m % B.blockSize ≠ 0 ∨ k = n / B.blockSize) ∧
        B.padFile m n true ⟨cache, s⟩ = B.padFile m n true ⟨B.zeroBlock k, s'⟩ ∨
      Yields (B.padFile m n true) ⟨cache, s⟩ (fun _ => OfFile I) fun _ => OfFile I := by
  have hrest : Preserves (OfFile I) (do
      B.padMiddleBlocks m n
      B.padLastBlock n true) := by
    refine .bind (.ite (fun _ => .pure _) fun _ => preserves_padBlocks hwrite _ _) fun _ => ?_
    exact .ite (fun _ => .bind (preserves_cacheWriteOneBlock hwrite _ _) fun _ => .pure _)
      fun _ => .pure _
  rw [padFile, ← hk]
  by_cases hsame : k = n / B.blockSize
  · simp only [if_pos hsame]
    split
    · exact (padBlock_splits h hs cache hwrite _ _).imp_left fun heq => ⟨.inr hsame, heq⟩
    · exact .inr (.pure hs)
  simp only [if_neg hsame]
  rw [padFirstBlock, ← hk]
  split
  · rename_i hm
    rcases padBlock_splits h hs cache hwrite (m % B.blockSize) B.blockSize with heq | hkept
    · refine .inl ⟨.inl hm, ?_⟩
      simp only [bind, EStateM.bind, heq]
    · exact .inr (.bind (hkept.mono (fun _ o ho => hrest o ho) fun _ _ ho => ho))
  · exact .inr (hrest ⟨cache, s⟩ hs)

lemma truncateSized_splits {base : Option (ℕ → Action σ ℤ)} {m n : ℕ} (hn : n < m)
    (hpart : n % B.blockSize ≠ 0) (hk : k = n / B.blockSize)
    (hbase : Preserves (OfFile I) (baseTruncate base n))
    (hok : ∃ res s₁, ∀ cache, baseTruncate base n ⟨cache, s'⟩ = .ok res ⟨cache, s₁⟩) :
    B.truncateSized m n base ⟨cache, s⟩ = B.truncateSized m n base ⟨B.zeroBlock k, s'⟩ ∨
      Yields (B.truncateSized m n base) ⟨cache, s⟩ (fun _ => OfFile I) fun _ => OfFile I := by
  rw [truncateSized, if_neg (by omega), if_neg (by omega), if_pos hpart, ← hk]
  rcases cacheReadOneBlock_splits h hs cache B.blockSize with hnone | hkept
  · left
    obtain ⟨res, s₁, hres⟩ := hok
    rw [Action.bind_ok hnone, Action.bind_ok (cacheReadOneBlock_zeroBlock k B.blockSize s'),
      Action.bind_ok (hres _), Action.bind_ok (hres _), padded_zeroBlock]
    rfl
  · refine .inr (.bind (hkept.mono (fun _ o ho => ?_) fun _ _ ho => ho))
    refine Preserves.bind hbase (fun _ => ?_) o ho
    exact .bind (preserves_cacheWriteOneBlock hwrite _ _) fun _ => .pure _

end Splitting

end BlockFileIO

end EncFS
