import EncFS.CipherFileIO.TruncateFailures
import EncFS.MACFileIO.Truncate

set_option autoImplicit false

namespace EncFS

open FlatArray MACFile
open CipherFileIO (maskFile maskFile_holds)

def MACFile.forget {τ : Type} (f : MACFile (Failing τ)) : MACFile τ :=
  ⟨f.base.file, f.draws⟩

namespace MACFileIO

open BlockFileIO

variable {τ : Type} (M : MACFileIO τ)

def onBase {τ' : Type} (base : FileIO τ') : MACFileIO τ' where
  base := base
  cipher := M.cipher
  random := M.random
  fsBlockSize := M.fsBlockSize
  macBytes := M.macBytes
  randBytes := M.randBytes
  warnOnly := M.warnOnly
  allowHoles := M.allowHoles
  macBytes_le := M.macBytes_le
  dataBlockSize_gt := M.dataBlockSize_gt

abbrev failing : MACFileIO (Failing τ) :=
  M.onBase M.base.failing

def failingAt (kind : BaseCall) (left stored : ℕ) (o : Cached (MACFile τ)) :
    Cached (MACFile (Failing τ)) :=
  ⟨o.cache, ⟨⟨o.file.base, kind, left, stored, false⟩, o.file.draws⟩⟩

def forget (o : Cached (MACFile (Failing τ))) : Cached (MACFile τ) :=
  ⟨o.cache, o.file.forget⟩

variable {M} {R : τ → Bytes → Prop} {kind : BaseCall} {left stored : ℕ} {cache : Cache}
  {f : MACFile τ} {c : Bytes}

lemma Layout.onBase {τ' τ'' : Type} {base : FileIO τ'} {base' : FileIO τ''} {b : Bytes}
    (h : (M.onBase base).Layout b c) : (M.onBase base').Layout b c :=
  ⟨h.length, h.block⟩

lemma Holds.onBase {τ' : Type} {base base' : FileIO τ'} {S : τ' → Bytes → Prop} {f' : MACFile τ'}
    (h : (M.onBase base).Holds S f' c) : (M.onBase base').Holds S f' c := by
  obtain ⟨b, hR, hl⟩ := h
  exact ⟨b, hR, hl.onBase⟩

lemma Holds.spent {f' : MACFile (Failing τ)} (h : M.failing.Holds (Failing.Awaiting kind R) f' c) :
    M.failing.Holds (Failing.Spent R) { f' with base := { f'.base with failed := true } } c := by
  obtain ⟨b, hR, hl⟩ := h
  exact ⟨b, ⟨rfl, hR.2⟩, hl⟩

lemma holds_failingAt (kind : BaseCall) (left stored : ℕ) (cache : Cache)
    (h : M.Holds R f c) :
    M.failing.Holds (Failing.Awaiting kind R) (failingAt kind left stored ⟨cache, f⟩).file c := by
  obtain ⟨b, hR, hl⟩ := h
  exact ⟨b, ⟨⟨rfl, rfl⟩, hR⟩, hl.length, hl.block⟩

lemma represents_forget {o : Cached (MACFile (Failing τ))}
    (h : M.failing.blockFile.Represents (M.failing.Holds (Failing.Spent R)) o c) :
    M.blockFile.Represents (M.Holds R) (forget o) c := by
  obtain ⟨⟨b, hR, hl⟩, hc⟩ := h
  exact ⟨⟨b, hR.2, hl.length, hl.block⟩, hc⟩

section Reads

def Unread (f : MACFile (Failing τ)) : Prop :=
  Failing.Awaits .read f.base

lemma readOneBlock_splits {f : MACFile (Failing τ)} (h : Unread f) (offset n : ℕ) :
    M.failing.readOneBlock offset n f =
        .ok none { f with base := { f.base with failed := true } } ∨
      Yields (M.failing.readOneBlock offset n) f (fun _ => Unread) fun _ => Unread := by
  rcases Failing.read_splits M.base h (locWithHeader offset M.failing.bs M.failing.headerSize)
    (M.failing.headerSize + n) with hfails | hpasses
  · exact .inl (Action.bind_ok (lift_ok hfails))
  · refine .inr (.bind (lift_yields (hpasses.mono ?_ fun _ _ hw => hw)))
    intro r w hw
    cases r with
    | none => exact .pure hw
    | some raw =>
      dsimp only [checkBlock]
      split
      · split
        · exact .of_error rfl hw
        · exact .pure hw
      · exact .pure hw

lemma preserves_writeOneBlock (offset : ℕ) (data : Bytes) :
    Preserves Unread (M.failing.writeOneBlock offset data) := by
  refine .bind (.ite (fun _ => ?_) fun _ => .pure _) fun rand => ?_
  · exact fun f h => .get (.set (.pure h))
  cases rand with
  | none => exact .pure _
  | some rand =>
    refine .ite (fun _ => fun f h => .of_error rfl h) fun _ f h => ?_
    exact lift_yields ((Failing.preserves_write M.base _ _ f.base h).mono
      (fun _ _ hw => hw) fun _ _ hw => hw)

lemma preserves_truncateBase (n : ℕ) : Preserves Unread (lift (M.failing.base.truncate n)) :=
  fun f h => lift_yields ((Failing.preserves_truncate M.base n f.base h).mono
    (fun _ _ hw => hw) fun _ _ hw => hw)

section Runs

variable (hb : M.base.FlatStore R)
include hb

lemma getSize_awaiting {f : MACFile (Failing τ)}
    (h : M.failing.Holds (Failing.Awaiting .read R) f c) :
    ∃ f', M.failing.blockFile.getSize f = .ok (c.length : ℤ) f' ∧
      M.failing.Holds (Failing.Awaiting .read R) f' c := by
  obtain ⟨f', he, h'⟩ := getSize_run (M := M.onBase M.base.sparingReads)
    (Failing.flatStore_sparingReads hb).toRefinesFlat h.onBase
  exact ⟨f', he, h'.onBase⟩

variable (hrand : 0 < M.randBytes → ∀ i, M.random.randomize i M.randBytes ≠ none)
include hrand

def UnreadOrZeros (M : MACFileIO τ) (R : τ → Bytes → Prop) (c : Bytes) (n : ℕ) (res : ℤ)
    (o : Cached (MACFile (Failing τ))) : Prop :=
  Unread o.file ∨ res = 0 ∧
    ∃ f', Cached.lift (lift (M.failing.base.truncate
        (locWithHeader n M.failing.bs M.failing.headerSize))) o = .ok 0 ⟨o.cache, f'⟩ ∧
      M.failing.blockFile.Represents (M.failing.Holds (Failing.Spent R)) ⟨o.cache, f'⟩
        (resize 0 (c.take (min c.length n / M.dataBlockSize * M.dataBlockSize)) n)

section Unread

variable {f : MACFile (Failing τ)} (h : M.failing.Holds (Failing.Awaiting .read R) f c) {n : ℕ}
include h

omit hb hrand in
lemma unread_of_awaiting : Unread f := by
  obtain ⟨b, hR, -⟩ := h
  exact hR.1

lemma grow_unread (hn : c.length < n) :
    Yields (M.failing.blockFile.truncateSized c.length n none) ⟨cache, f⟩
      (M.UnreadOrZeros R c n) fun _ o => Unread o.file := by
  have hspent := Failing.flatStore_spent hb
  have hB := blockFile_blockStore (M := M.failing) hspent.toRefinesFlat hrand
  have hunread := unread_of_awaiting h
  have hread (k : ℕ) := readOneBlock_splits (M := M) hunread
    (k * M.failing.blockFile.blockSize) M.failing.blockFile.blockSize
  rw [truncateSized, if_pos hn]
  rcases padFile_splits (B := M.failing.blockFile) (hread (c.length / M.dataBlockSize)) hunread
    cache preserves_writeOneBlock (m := c.length) (n := n) rfl with ⟨hpads, heq⟩ | hkept
  · obtain ⟨hp, hputs⟩ := puts_padWrites_zeros (B := M.failing.blockFile) (c := c) rfl hn
    obtain ⟨f₂, he, h₂⟩ := padFile_run hB c.length n true h.spent
      (lookup_zeroBlock M.failing.blockFile _ _ (Nat.mod_lt _ M.dataBlockSize_pos)).symm hp
    have hco := coherent_afterWrites hp
      (padWrites_ne_nil hn (Nat.le_of_eq List.length_replicate) hpads)
      (M.failing.blockFile.zeroBlock (c.length / M.dataBlockSize))
    have hsize : M.failing.blockFile.blockSize = M.dataBlockSize := rfl
    rw [hputs, hsize] at h₂ hco
    have hlen : (resize 0 (c.take (c.length / M.dataBlockSize * M.dataBlockSize))
        c.length).length = c.length := resize_length _ _ _
    have hresize := resize_resize 0 (c := c.take (c.length / M.dataBlockSize * M.dataBlockSize))
      (.inr (List.length_take_le' _ _) : n ≤ c.length ∨ _)
    generalize resize 0 (c.take (c.length / M.dataBlockSize * M.dataBlockSize)) c.length = c₀ at *
    obtain ⟨f₃, h₃, hrep⟩ := truncateBase_grow (M := M.failing) (c := c₀) hspent
      (by rwa [hlen]) (by rwa [hlen]) (by rwa [hlen])
    refine .bind (.of_ok rfl (.bind (.of_ok (heq.trans he) (.pure (.inr ⟨rfl, f₃, h₃, ?_⟩)))))
    rw [Nat.min_eq_left (Nat.le_of_lt hn), ← hresize]
    exact hrep
  · exact .bind (.of_ok rfl (.bind (hkept.mono (fun _ _ ho => .pure (.inl ho)) fun _ _ ho => ho)))

omit hb hrand h in
lemma take_append_zeros (hn : n < c.length) :
    c.take (n / M.dataBlockSize * M.dataBlockSize) ++ List.replicate (n % M.dataBlockSize) 0 =
      resize 0 (c.take (n / M.dataBlockSize * M.dataBlockSize)) n := by
  have hdiv := Nat.div_add_mod' n M.dataBlockSize
  have hlen : (c.take (n / M.dataBlockSize * M.dataBlockSize)).length =
      n / M.dataBlockSize * M.dataBlockSize := by
    rw [List.length_take]
    omega
  have hwhole : (c.take (n / M.dataBlockSize * M.dataBlockSize)).take n =
      c.take (n / M.dataBlockSize * M.dataBlockSize) := List.take_of_length_le (by omega)
  rw [resize, hwhole, hlen]
  congr 2
  omega

omit hb hrand h in
lemma coherent_zeros (hn : n < c.length) :
    M.failing.blockFile.Coherent (resize 0 (c.take (n / M.dataBlockSize * M.dataBlockSize)) n)
      ⟨n / M.dataBlockSize * M.dataBlockSize, List.replicate (n % M.dataBlockSize) 0⟩ := by
  have hdiv := Nat.div_add_mod' n M.dataBlockSize
  have hlen : (c.take (n / M.dataBlockSize * M.dataBlockSize)).length =
      n / M.dataBlockSize * M.dataBlockSize := by
    rw [List.length_take]
    omega
  have hall := resize_length 0 (c.take (n / M.dataBlockSize * M.dataBlockSize)) n
  have hright := slice_append_right (c.take (n / M.dataBlockSize * M.dataBlockSize))
    (List.replicate (n % M.dataBlockSize) 0) (n % M.dataBlockSize)
  rw [hlen, take_append_zeros hn, List.take_replicate, Nat.min_self] at hright
  have hco := coherent_cut (B := M.failing.blockFile)
    (resize 0 (c.take (n / M.dataBlockSize * M.dataBlockSize)) n) n
  rw [List.take_of_length_le (Nat.le_of_eq hall)] at hco
  rw [← hright]
  exact hco

lemma cut_unread (hn : n < c.length) :
    Yields (M.failing.blockFile.truncateSized c.length n none) ⟨cache, f⟩
      (M.UnreadOrZeros R c n) fun _ o => Unread o.file := by
  have hspent := Failing.flatStore_spent hb
  have hunread := unread_of_awaiting h
  have hread (k : ℕ) := readOneBlock_splits (M := M) hunread
    (k * M.failing.blockFile.blockSize) M.failing.blockFile.blockSize
  by_cases hpart : n % M.dataBlockSize = 0
  · obtain ⟨f₂, h₂, rfl⟩ := truncateSized_whole (B := M.failing.blockFile)
      (cuts_none (fun f f' => f' = f) n) cache (s := f) rfl hn hpart
    exact .of_ok h₂ (.inl hunread)
  have hlt := Nat.mod_lt n M.dataBlockSize_pos
  rcases truncateSized_splits (B := M.failing.blockFile) (hread (n / M.dataBlockSize)) hunread
    cache preserves_writeOneBlock hn hpart rfl (.pure 0) (baseTruncate_none n _) with heq | hkept
  · obtain ⟨f₂, b, header, h₂, hheader, ha, hl, hR₂⟩ :=
      truncateSized_inside (M := M.failing) hspent hrand h.spent hn hpart
        (resize_zeroBlock M.failing.blockFile _ _ hlt).symm
    obtain ⟨f₃, h₃, hh⟩ := truncateBase_run (M := M.failing) hspent
      ⟨n / M.dataBlockSize * M.dataBlockSize, List.replicate (n % M.dataBlockSize) 0⟩ hR₂
      (hl.cutInside (Nat.le_of_lt hn) hpart hheader List.length_replicate ha)
    refine .of_ok (heq.trans h₂) (.inr ⟨rfl, f₃, h₃, ?_, ?_⟩)
    · rw [Nat.min_eq_right (Nat.le_of_lt hn), ← take_append_zeros hn]
      exact hh
    · rw [Nat.min_eq_right (Nat.le_of_lt hn)]
      exact coherent_zeros hn
  · exact hkept.mono (fun _ _ ho => .inl ho) fun _ _ ho => ho

lemma truncateSized_unread (n : ℕ) :
    Yields (M.failing.blockFile.truncateSized c.length n none) ⟨cache, f⟩
      (M.UnreadOrZeros R c n) fun _ o => Unread o.file := by
  rcases Nat.lt_trichotomy c.length n with hn | rfl | hn
  · exact grow_unread hb hrand h hn
  · exact .of_ok (truncateSized_same _ _ _ _) (.inl (unread_of_awaiting h))
  · exact cut_unread hb hrand h hn

end Unread

lemma truncate_read_failed (h : M.Holds R f c) (n : ℕ) :
    Yields (M.failing.truncate n) (failingAt .read left stored ⟨cache, f⟩)
      (fun res o => o.file.base.failed = true → res = 0 ∧
        M.blockFile.Represents (M.Holds R) (forget o)
          (resize 0 (c.take (min c.length n / M.dataBlockSize * M.dataBlockSize)) n))
      fun _ _ => True := by
  have hvacuous {f : MACFile (Failing τ)} (hf : Unread f) {P : Prop}
      (hfailed : f.base.failed = true) : P :=
    absurd (hf.1.symm.trans hfailed) (by decide)
  obtain ⟨f₁, h₁, hf₁⟩ := getSize_awaiting hb
    (holds_failingAt .read left stored cache h)
  have hkept : Preserves (OfFile Unread) (Cached.lift (lift (M.failing.base.truncate
      (locWithHeader n M.failing.bs M.failing.headerSize)))) :=
    preserves_lift (preserves_truncateBase _)
  rw [truncate]
  refine .bind (truncate_yields_of_size h₁ ((truncateSized_unread hb hrand hf₁ n).mono ?_
    fun _ _ _ => trivial))
  rintro res o (ho | ⟨rfl, f', he, hrep⟩)
  · split
    · exact .bind ((hkept o ho).mono (fun _ _ ho' => .pure (hvacuous ho')) fun _ _ _ => trivial)
    · exact .pure (hvacuous ho)
  · rw [if_pos rfl]
    exact .bind (.of_ok he (.pure fun _ => ⟨rfl, represents_forget hrep⟩))

end Runs

end Reads

section Truncates

def NotResized (M : MACFileIO τ) (R : τ → Bytes → Prop) (o : Cached (MACFile τ)) (c : Bytes)
    (n : ℕ) : Prop :=
  c.length ≤ n ∧ M.blockFile.Represents (M.Holds R) o
      (resize 0 c (M.blockFile.paddedSize c.length n true)) ∨
    n < c.length ∧ ∃ b, R o.file.base b ∧ b.length = locWithHeader c.length M.bs M.headerSize

variable (hb : M.base.FlatStore R)
  (hrand : 0 < M.randBytes → ∀ i, M.random.randomize i M.randBytes ≠ none)
include hb

lemma truncateBase_failing {f : MACFile (Failing τ)} {b : Bytes}
    (h : Failing.Awaiting .truncate R f.base b) (n : ℕ) :
    lift (M.failing.base.truncate n) f =
        .ok (- EIO) { f with base := { f.base with failed := true } } ∨
      ∃ f', lift (M.failing.base.truncate n) f = .ok 0 f' ∧ f'.base.failed = false := by
  obtain ⟨haw, hR⟩ := h
  obtain ⟨s', he, -⟩ := hb.truncate n hR
  rcases Failing.truncate_splits M.base haw he with hfails | ⟨left, hpasses⟩
  · exact .inl (lift_ok hfails)
  · exact .inr ⟨_, lift_ok hpasses, haw.1⟩

lemma NotResized.right_iff {o : Cached (MACFile τ)} {n : ℕ} (h : M.NotResized R o c n)
    (hrand : 0 < M.randBytes → ∀ i, M.random.randomize i M.randBytes ≠ none) :
    M.blockFile.Represents (M.Holds R) o (resize 0 c n) ↔
      c.length ≤ n ∧ (c.length < n → M.blockFile.ReachesEnd c.length n) := by
  have hflat := refinesFlat (blockFile_blockStore hb.toRefinesFlat hrand)
  rcases h with ⟨hle, hrep⟩ | ⟨hn, b, hR, hlen⟩
  · have hsize : M.blockFile.Represents (M.Holds R) o (resize 0 c n) ↔
        M.blockFile.paddedSize c.length n true = n := by
      constructor
      · intro hright
        have hsame := congrArg List.length (hflat.toReadsFlat.unique hrep hright)
        rwa [resize_length, resize_length] at hsame
      · intro hp
        rwa [hp] at hrep
    rw [hsize, and_iff_right hle]
    rcases Nat.lt_or_eq_of_le hle with hn | hn
    · rw [paddedSize_eq_iff hn, forall_prop_of_true hn]
    · refine iff_of_true ?_ fun hlt => absurd hlt (by omega)
      rw [hn, paddedSize_self]
  · refine iff_of_false ?_ fun h => absurd h.1 (by omega)
    rintro ⟨⟨b', hR', hl⟩, -⟩
    have hsame := hb.toReadsFlat.unique hR hR'
    have hloc : locWithHeader c.length M.bs M.headerSize =
        locWithHeader n M.bs M.headerSize := by
      rw [← hlen, hsame, hl.length, resize_length]
    have hback (m : ℕ) : locWithoutHeader (locWithHeader m M.bs M.headerSize) M.bs M.headerSize =
        m := locWithoutHeader_locWithHeader M.dataBlockSize_pos m
    have := hback c.length
    rw [hloc, hback] at this
    omega

include hrand

lemma truncate_truncate_failed (h : M.Holds R f c) (hc : M.blockFile.Coherent c cache) (n : ℕ) :
    Yields (M.failing.truncate n) (failingAt .truncate left stored ⟨cache, f⟩)
      (fun res o => o.file.base.failed = true → res = 0 ∧ M.NotResized R (forget o) c n)
      fun _ _ => True := by
  have hb' := Failing.flatStore_sparingTruncates hb
  have hstart : (M.onBase M.base.sparingTruncates).Holds (Failing.Awaiting .truncate R)
      (failingAt .truncate left stored ⟨cache, f⟩).file c := (holds_failingAt .truncate left stored cache h).onBase
  have hB := blockFile_blockStore (M := M.onBase M.base.sparingTruncates) hb'.toRefinesFlat hrand
  obtain ⟨f₁, h₁, hf₁⟩ := hB.getSize hstart
  have hrun {cache' : Cache} {f₂ : MACFile (Failing τ)} {b : Bytes}
      (h₂ : M.failing.blockFile.truncateSized c.length n none ⟨cache, f₁⟩ = .ok 0 ⟨cache', f₂⟩)
      (hR : Failing.Awaiting .truncate R f₂.base b)
      (hleft : M.NotResized R ⟨cache', ⟨f₂.base.file, f₂.draws⟩⟩ c n) :
      Yields (M.failing.truncate n) (failingAt .truncate left stored ⟨cache, f⟩)
        (fun res o => o.file.base.failed = true → res = 0 ∧ M.NotResized R (forget o) c n)
        fun _ _ => True := by
    rw [truncate]
    refine .bind (truncate_yields_of_size h₁ (.of_ok h₂ ?_))
    rw [if_pos rfl]
    rcases truncateBase_failing hb hR (locWithHeader n M.failing.bs M.failing.headerSize) with
      he | ⟨f₃, he, hf₃⟩
    · exact .bind (.of_ok (Cached.lift_ok he) (.pure fun _ => ⟨rfl, hleft⟩))
    · exact .bind (.of_ok (Cached.lift_ok he) (.pure fun hfailed =>
        absurd (hf₃.symm.trans hfailed) (by decide)))
  rcases Nat.lt_trichotomy c.length n with hn | rfl | hn
  · obtain ⟨cache', f₂, h₂, ⟨b, hR, hl⟩, hco⟩ :=
      truncateSized_grow (M := M.onBase M.base.sparingTruncates) hb' hrand hf₁ hc hn
    exact hrun h₂ hR (.inl ⟨Nat.le_of_lt hn, ⟨b, hR.2, hl.length, hl.block⟩, hco⟩)
  · obtain ⟨b, hR, hl⟩ := hf₁
    refine hrun (truncateSized_same _ _ _ _) hR (.inl ⟨Nat.le_refl _, ?_⟩)
    rw [paddedSize_self, resize_self]
    exact ⟨⟨b, hR.2, hl.length, hl.block⟩, hc⟩
  · by_cases hpart : n % M.dataBlockSize = 0
    · obtain ⟨b, hR, hl⟩ := hf₁
      obtain ⟨f₂, h₂, rfl⟩ := truncateSized_whole (B := M.failing.blockFile)
        (cuts_none (fun f f' => f' = f) n) cache (s := f₁) rfl hn hpart
      exact hrun h₂ hR (.inr ⟨hn, b, hR.2, hl.length⟩)
    · obtain ⟨f₂, b, header, h₂, hheader, -, hl, hR₂⟩ := truncateSized_inside
        (M := M.onBase M.base.sparingTruncates) hb' hrand hf₁ hn hpart (resize_lookup hc hn).symm
      refine hrun h₂ hR₂ (.inr ⟨hn, _, hR₂.2, ?_⟩)
      have hdiv := Nat.div_add_mod' n M.dataBlockSize
      have hend := locWithHeader_add (h := M.headerSize) (n / M.dataBlockSize)
        (Nat.pos_of_ne_zero hpart) (Nat.le_of_lt (Nat.mod_lt n M.dataBlockSize_pos))
      have hle : locWithHeader n M.bs M.headerSize ≤ locWithHeader c.length M.bs M.headerSize :=
        locWithHeader_mono M.bs M.headerSize (Nat.le_of_lt hn)
      rw [hdiv] at hend
      change locWithHeader n M.bs M.headerSize = n / M.dataBlockSize * M.bs + M.headerSize + _ at hend
      have hblen : b.length = locWithHeader c.length M.bs M.headerSize := hl.length
      have hhlen : header.length = M.headerSize := hheader
      rw [splice_length, List.length_append, slice_length, hblen, hhlen]
      change max _ (n / M.dataBlockSize * M.bs + _) = _
      omega

end Truncates

/-- The failing calls that a truncate of content `c` can do without. -/
def FailureSpared (M : MACFileIO τ) (kind : BaseCall) (c : Bytes) (n : ℕ) : Prop :=
  match kind with
  | .read => ZerosKept M.dataBlockSize c n
  | .write => False
  | .truncate => c.length ≤ n ∧ (c.length < n → M.blockFile.ReachesEnd c.length n)

lemma truncate_failed (hb : M.base.FlatStore R)
    (hrand : 0 < M.randBytes → ∀ i, M.random.randomize i M.randBytes ≠ none)
    (h : M.Holds R f c) (hc : M.blockFile.Coherent c cache) (kind : BaseCall)
    (left stored n : ℕ) :
    Yields (M.failing.truncate n) (failingAt kind left stored ⟨cache, f⟩)
      (fun res o => o.file.base.failed = true →
        (M.FailureSpared kind c n →
          res = 0 → M.blockFile.Represents (M.Holds R) (forget o) (resize 0 c n)) ∧
        (kind ≠ .write →
          (res = 0 → M.blockFile.Represents (M.Holds R) (forget o) (resize 0 c n)) →
            M.FailureSpared kind c n))
      fun _ _ => True := by
  have hflat := refinesFlat (blockFile_blockStore hb.toRefinesFlat hrand)
  cases kind with
  | write => exact Yields.any.mono (fun _ _ _ _ => ⟨False.elim, fun h => absurd rfl h⟩) fun _ _ h => h
  | read =>
    refine (truncate_read_failed hb hrand h n).mono (fun res o ho hfailed => ?_) fun _ _ h => h
    obtain ⟨rfl, hrep⟩ := ho hfailed
    rw [forall_prop_of_true rfl, FailureSpared, zerosKept_iff]
    refine ⟨fun hzeros => hzeros ▸ hrep, fun _ hright => ?_⟩
    exact hflat.toReadsFlat.unique hrep hright
  | truncate =>
    refine (truncate_truncate_failed hb hrand h hc n).mono (fun res o ho hfailed => ?_) fun _ _ h => h
    obtain ⟨rfl, hleft⟩ := ho hfailed
    rw [forall_prop_of_true rfl, hleft.right_iff hb hrand]
    exact ⟨fun hspared => hspared, fun _ hright => hright⟩

def plainBlocks : MACFileIO Bytes where
  base := plainFile
  cipher := maskCipher
  random := onesSource
  fsBlockSize := 4
  macBytes := 0
  randBytes := 1
  warnOnly := false
  allowHoles := false
  macBytes_le := by decide
  dataBlockSize_gt := by decide

lemma plainBlocks_holds : plainBlocks.Holds (fun s c => s = c) ⟨[9, 0, 0, 0], 0⟩ [0, 0, 0] := by
  refine ⟨[9, 0, 0, 0], rfl, rfl, fun k hk => ?_⟩
  have hfirst : k = 0 := by
    change k * 3 < 3 at hk
    omega
  subst hfirst
  exact ⟨[9], rfl, rfl, .inl rfl⟩

end MACFileIO

end EncFS
