import EncFS.MACFileIO.Events

/-! Where the bytes that a `MACFileIO` returns come from, over a layer that may do anything. -/

set_option autoImplicit false

namespace EncFS

open FlatArray

namespace MACFileIO

section

variable {τ : Type} (M : MACFileIO τ)

/-- There is nothing of block 0 in the cache, and no more than a header of it below. -/
def NothingFirst (cache : Cache) (f : MACFile τ) : Prop :=
  (cache.offset = 0 → cache.data = []) ∧
    ∀ raw s, M.base.read 0 (M.headerSize + M.dataBlockSize) f.base = .ok (some raw) s →
      raw.length ≤ M.headerSize

/-- Where the size is negative, a write starts in block 0 or finds nothing there. -/
def WriteDefined (o : Cached (MACFile τ)) (offset : ℕ) : Prop :=
  ∀ size f, M.getSize o.file = .ok size f → size < 0 → -(M.dataBlockSize : ℤ) < size ∧
    (offset < M.dataBlockSize ∨ M.NothingFirst o.cache f)

def RequestDefined (o : Cached (MACFile τ)) : Request → Prop
  | .read _ _ => True
  | .write offset _ => M.WriteDefined o offset

end

variable {τ : Type} {M : MACFileIO τ} {L : List Event} {W : List (ℕ × Bytes)}

section Blocks

open BlockFileIO

variable {α : Type}

lemma VouchedBlock.after {P : Event → Prop} {f f' : MACFile (Logged τ)} {k : ℕ} {data : Bytes}
    (h : M.VouchedBlock f.base.events W k data) (ha : After P f f') :
    M.VouchedBlock f'.base.events W k data :=
  ⟨h.length_le, fun hi => (h.byte hi).mono ha.subset⟩

lemma VouchedFrom.after {P : Event → Prop} {f f' : MACFile (Logged τ)} {offset : ℕ} {out : Bytes}
    (h : M.VouchedFrom f.base.events W offset out) (ha : After P f f') :
    M.VouchedFrom f'.base.events W offset out :=
  fun i b hi => (h i b hi).mono ha.subset

lemma Guarded.after {P : Event → Prop} {o : Cached (MACFile (Logged τ))}
    {f' : MACFile (Logged τ)} (h : M.Guarded W o) (ha : After P o.file f') :
    M.Guarded W { o with file := f' } := by
  intro hne
  obtain ⟨k, hk, hv⟩ := h hne
  exact ⟨k, hk, hv.after ha⟩

lemma guarded_of_empty {o : Cached (MACFile (Logged τ))} (h : o.cache.data = []) :
    M.Guarded W o :=
  fun hne => absurd h hne

def Returned (M : MACFileIO τ) (W : List (ℕ × Bytes)) (o o' : Cached (MACFile (Logged τ))) : Prop :=
  M.Guarded W o' ∧ After M.Passes o.file o'.file

def Raised (M : MACFileIO τ) (W : List (ℕ × Bytes)) (o : Cached (MACFile (Logged τ)))
    (e : RlogError) (o' : Cached (MACFile (Logged τ))) : Prop :=
  M.Guarded W o' ∧ After (fun _ => True) o.file o'.file ∧ e ≠ .undefined

def Emptied (o : Cached (MACFile (Logged τ))) (e : RlogError)
    (o' : Cached (MACFile (Logged τ))) : Prop :=
  o'.cache.data = [] ∧ After (fun _ => True) o.file o'.file ∧ e ≠ .undefined

lemma Returned.trans {o₁ o₂ o₃ : Cached (MACFile (Logged τ))} (h : M.Returned W o₁ o₂)
    (h' : M.Returned W o₂ o₃) : M.Returned W o₁ o₃ :=
  ⟨h'.1, h.2.trans h'.2⟩

lemma Returned.raised {o₁ o₂ o₃ : Cached (MACFile (Logged τ))} {e : RlogError}
    (h : M.Returned W o₁ o₂) (h' : M.Raised W o₂ e o₃) : M.Raised W o₁ e o₃ :=
  ⟨h'.1, (h.2.weaken fun _ _ => trivial).trans h'.2.1, h'.2.2⟩

lemma Returned.emptied {o₁ o₂ o₃ : Cached (MACFile (Logged τ))} {e : RlogError}
    (h : M.Returned W o₁ o₂) (h' : Emptied o₂ e o₃) : Emptied o₁ e o₃ :=
  ⟨h'.1, (h.2.weaken fun _ _ => trivial).trans h'.2.1, h'.2.2⟩

lemma Emptied.raised {o o' : Cached (MACFile (Logged τ))} {e : RlogError} (h : Emptied o e o') :
    M.Raised W o e o' :=
  ⟨guarded_of_empty h.1, h.2⟩

def Keeps (M : MACFileIO τ) (W : List (ℕ × Bytes)) (x : Action (Cached (MACFile (Logged τ))) α)
    (o : Cached (MACFile (Logged τ))) : Prop :=
  Yields x o (fun _ o' => M.Returned W o o') (M.Raised W o)

lemma Keeps.pure {a : α} {o : Cached (MACFile (Logged τ))} (h : M.Guarded W o) :
    M.Keeps W (Pure.pure a) o :=
  Yields.pure ⟨h, After.refl _⟩

lemma Keeps.bind {β : Type} {x : Action (Cached (MACFile (Logged τ))) α}
    {f : α → Action (Cached (MACFile (Logged τ))) β} {o : Cached (MACFile (Logged τ))}
    (hx : Yields x o (fun a o₁ => M.Returned W o o₁ ∧ M.Keeps W (f a) o₁) (M.Raised W o)) :
    M.Keeps W (x >>= f) o := by
  refine Yields.bind (hx.mono ?_ fun _ _ => id)
  rintro a o₁ ⟨hret, hf⟩
  exact hf.mono (fun _ _ h => hret.trans h) fun _ _ h => hret.raised h

lemma Keeps.seq {β : Type} {x : Action (Cached (MACFile (Logged τ))) α}
    {f : α → Action (Cached (MACFile (Logged τ))) β} {o : Cached (MACFile (Logged τ))}
    (hx : M.Keeps W x o) (hf : ∀ a o₁, M.Guarded W o₁ → M.Keeps W (f a) o₁) :
    M.Keeps W (x >>= f) o :=
  Keeps.bind (hx.mono (fun a o₁ h => ⟨h, hf a o₁ h.1⟩) fun _ _ => id)

section Sources

variable {k : ℕ}

lemma sourced_zeros {n : ℕ} (hn : n ≤ M.dataBlockSize) :
    M.Sourced L W k (List.replicate n 0) where
  length_le := by rwa [List.length_replicate]
  byte hi := by
    rw [List.getElem?_replicate] at hi
    split at hi
    · exact .inl (.inl (Option.some.inj hi).symm)
    · cases hi

lemma VouchedBlock.sourced {data : Bytes} (h : M.VouchedBlock L W k data) :
    M.Sourced L W k data :=
  ⟨h.length_le, fun hi => .inr (h.byte hi)⟩

lemma Sourced.getD {data : Bytes} (h : M.Sourced L W k data) (i : ℕ) :
    (data.getD i 0 = 0 ∨ Written W (k * M.dataBlockSize + i) (data.getD i 0)) ∨
      M.Vouched L W k i (data.getD i 0) := by
  rw [List.getD_eq_getElem?_getD]
  cases hi : data[i]? with
  | none => exact .inl (.inl rfl)
  | some b => exact h.byte hi

open BlockFileIO in
lemma Sourced.pad {block : Option Bytes} {n : ℕ} (hn : n ≤ M.dataBlockSize)
    (h : ∀ data, block = some data → M.VouchedBlock L W k data) :
    M.Sourced L W k (padded block n) where
  length_le := by rwa [padded, resize_length]
  byte {i b} hi := by
    rw [padded, resize_getElem?] at hi
    split at hi
    · rw [← Option.some.inj hi]
      cases block with
      | none => exact .inl (.inl (by simp))
      | some data => exact (h data rfl).sourced.getD i
    · cases hi

lemma Sourced.splice {data chunk : Bytes} {off : ℕ} (h : M.Sourced L W k data)
    (hlen : off + chunk.length ≤ M.dataBlockSize)
    (hchunk : ∀ j b, chunk[j]? = some b → Written W (k * M.dataBlockSize + off + j) b) :
    M.Sourced L W k (FlatArray.splice 0 data off chunk) where
  length_le := by
    have := h.length_le
    rw [splice_length]
    omega
  byte {i b} hi := by
    rw [splice_getElem?] at hi
    split at hi
    · rw [← Option.some.inj hi]
      exact h.getD i
    split at hi
    · have := hchunk _ _ hi
      rw [Nat.add_assoc, Nat.add_sub_cancel' (by omega)] at this
      exact .inl (.inr this)
    · exact h.byte hi

end Sources

lemma readOneBlock_short {f f' : MACFile τ} {r : Option Bytes} {n : ℕ}
    (hshort : ∀ raw s, M.base.read 0 (M.headerSize + n) f.base = .ok (some raw) s →
      raw.length ≤ M.headerSize) (h : M.readOneBlock 0 n f = .ok r f') :
    r = none ∨ r = some [] := by
  have hloc : locWithHeader 0 M.bs M.headerSize = 0 := by
    have hmul := locWithHeader_mul (h := M.headerSize) M.dataBlockSize_pos 0
    rwa [Nat.zero_mul, Nat.zero_mul] at hmul
  rw [readOneBlock, hloc] at h
  cases hread : M.base.read 0 (M.headerSize + n) f.base with
  | error e s =>
    rw [Action.bind_error (MACFile.lift_error hread)] at h
    cases h
  | ok raw s =>
    rw [Action.bind_ok (MACFile.lift_ok hread)] at h
    cases raw with
    | none =>
      cases h
      exact .inl rfl
    | some raw =>
      simp only [checkBlock, if_neg (Nat.not_lt.mpr (hshort raw s hread))] at h
      cases h
      exact .inr rfl

variable (hmac : 0 < M.macBytes) (hwarn : M.warnOnly = false) (hbase : M.base.Bounded)
include hmac hwarn hbase

lemma cacheReadOneBlock_yields {o : Cached (MACFile (Logged τ))} (h : M.Guarded W o) (k n : ℕ) :
    Yields (M.audited.blockFile.cacheReadOneBlock (k * M.dataBlockSize) n) o
      (fun r o' => M.Returned W o o' ∧ ∀ data, r = some data →
        M.VouchedBlock o'.file.base.events W k data)
      (Emptied o) := by
  rw [cacheReadOneBlock]
  apply Yields.get
  by_cases hit : k * M.dataBlockSize = o.cache.offset ∧ o.cache.data ≠ []
  · rw [if_pos hit]
    refine Yields.pure ⟨⟨h, After.refl _⟩, fun data hd => ?_⟩
    obtain ⟨k', hk', hv⟩ := h hit.2
    have : k' = k := Nat.eq_of_mul_eq_mul_right M.dataBlockSize_pos (hk'.symm.trans hit.1.symm)
    rw [← Option.some.inj hd, ← this]
    exact hv.take
  · rw [if_neg hit]
    apply Yields.modify
    refine Yields.bind (Cached.lift_yields ((readOneBlock_yields (W := W) hmac hwarn hbase _ k).mono ?_ ?_))
    · rintro r f ⟨ha, hv⟩
      cases r with
      | none => exact Yields.pure ⟨⟨guarded_of_empty rfl, ha⟩, fun data hd => by cases hd⟩
      | some result =>
        by_cases hnil : result = []
        · simp only [if_pos hnil]
          refine Yields.pure ⟨⟨guarded_of_empty rfl, ha⟩, fun data hd => ?_⟩
          rw [← Option.some.inj hd]
          exact .nil k
        · simp only [if_neg hnil]
          apply Yields.modify
          refine Yields.pure ⟨⟨fun _ => ⟨k, rfl, hv result rfl⟩, ha⟩, fun data hd => ?_⟩
          rw [← Option.some.inj hd]
          exact VouchedBlock.take (hv result rfl)
    · exact fun e f ha => ⟨rfl, ha⟩

omit hmac hwarn in
lemma cacheWriteOneBlock_yields (o : Cached (MACFile (Logged τ))) (k : ℕ) {data : Bytes}
    (hdata : M.Sourced o.file.base.events W k data) :
    Yields (M.audited.blockFile.cacheWriteOneBlock (k * M.dataBlockSize) data) o
      (fun _ o' => M.Returned W o o') (M.Raised W o) := by
  have hguard {f : MACFile (Logged τ)} (ha : After M.Passes o.file f) {header : Bytes}
      (hheader : header.length = M.headerSize)
      (hm : .stored (k * M.bs) (header ++ data) ∈ f.base.events) :
      M.Guarded W ⟨⟨k * M.dataBlockSize, data⟩, f⟩ := by
    refine fun _ => ⟨k, rfl, hdata.length_le, fun {i b} hi => ?_⟩
    rcases hdata.byte hi with hsource | hv
    · exact .composed hm hheader hi hsource
    · exact hv.mono ha.subset
  apply Yields.modify
  refine Yields.bind (Cached.lift_yields ((writeOneBlock_yields hbase o.file k data).mono ?_ ?_))
  · rintro ok f ⟨ha, hstored⟩
    cases ok with
    | false => exact Yields.modify (Yields.pure ⟨guarded_of_empty rfl, ha⟩)
    | true =>
      obtain ⟨header, hheader, hm⟩ := hstored rfl
      exact Yields.pure ⟨hguard ha hheader hm, ha⟩
  · rintro e f ⟨ha, hstored, hdefined⟩
    refine ⟨fun hne => ?_, ha.weaken fun _ _ => trivial, hdefined⟩
    obtain ⟨header, hheader, hm⟩ := hstored hne
    exact hguard ha hheader hm hne

lemma readLoop_yields {o : Cached (MACFile (Logged τ))} (h : M.Guarded W o) (offset : ℕ)
    (fuel blockNum partialOffset size : ℕ) (out : Bytes) (hp : partialOffset < M.dataBlockSize)
    (hpos : 0 < size → offset + out.length = blockNum * M.dataBlockSize + partialOffset)
    (hout : M.VouchedFrom o.file.base.events W offset out) :
    Yields (M.audited.blockFile.readLoop fuel blockNum partialOffset size out) o
      (fun r o' => M.Returned W o o' ∧ M.VouchedFrom o'.file.base.events W offset r)
      (Emptied o) := by
  induction fuel generalizing o blockNum partialOffset size out with
  | zero => exact Yields.pure ⟨⟨h, After.refl _⟩, hout⟩
  | succ fuel ih =>
    rw [readLoop]
    by_cases hsize : size = 0
    · rw [if_pos hsize]
      exact Yields.pure ⟨⟨h, After.refl _⟩, hout⟩
    rw [if_neg hsize]
    have hpos := hpos (Nat.pos_of_ne_zero hsize)
    refine Yields.bind ((cacheReadOneBlock_yields hmac hwarn hbase h blockNum _).mono ?_ fun _ _ => id)
    rintro r o₁ ⟨hret, hv⟩
    have hout₁ := hout.after hret.2
    cases r with
    | none => exact Yields.pure ⟨hret, hout₁⟩
    | some block =>
      by_cases hshort : block.length ≤ partialOffset
      · simp only [if_pos hshort]
        exact Yields.pure ⟨hret, hout₁⟩
      simp only [if_neg hshort]
      have hb := hv block rfl
      generalize hn : min (block.length - partialOffset) size = n
      have hout₂ : M.VouchedFrom o₁.file.base.events W offset
          (out ++ slice block partialOffset n) := by
        intro i b hi
        by_cases hlt : i < out.length
        · rw [List.getElem?_append_left hlt] at hi
          exact hout₁ i b hi
        · rw [List.getElem?_append_right (by omega), slice_getElem?] at hi
          split at hi
          case isTrue hin =>
            have hi' : offset + i = partialOffset + (i - out.length) +
                M.dataBlockSize * blockNum := by
              rw [Nat.mul_comm]
              omega
            have hlt' : partialOffset + (i - out.length) < M.dataBlockSize := by
              have := hb.length_le
              omega
            rw [hi', Nat.add_mul_div_left _ _ M.dataBlockSize_pos, Nat.add_mul_mod_self_left,
              Nat.div_eq_of_lt hlt', Nat.mod_eq_of_lt hlt', Nat.zero_add]
            exact hb.byte hi
          case isFalse => cases hi
      by_cases hlast : block.length < M.dataBlockSize
      · have : block.length < M.audited.blockFile.blockSize := hlast
        simp only [if_pos this]
        exact Yields.pure ⟨hret, hout₂⟩
      · have : ¬block.length < M.audited.blockFile.blockSize := hlast
        simp only [if_neg this]
        refine (ih hret.1 (blockNum + 1) 0 (size - n) _ M.dataBlockSize_pos ?_ hout₂).mono ?_ ?_
        · intro hrest
          have := hb.length_le
          rw [List.length_append, slice_length, Nat.succ_mul]
          omega
        · exact fun r o₂ hr => ⟨hret.trans hr.1, hr.2⟩
        · exact fun e o₂ he => hret.emptied he

lemma read_yields {o : Cached (MACFile (Logged τ))} (h : M.Guarded W o) (offset n : ℕ) :
    Yields (M.audited.blockFile.read offset n) o
      (fun r o' => M.Returned W o o' ∧ ∀ out, r = some out →
        M.VouchedFrom o'.file.base.events W offset out)
      (Emptied o) := by
  have hbs : M.audited.blockFile.blockSize = M.dataBlockSize := rfl
  have hdiv := Nat.div_add_mod' offset M.dataBlockSize
  simp only [hbs, BlockFileIO.read]
  by_cases hone : offset % M.dataBlockSize = 0 ∧ n ≤ M.dataBlockSize
  · rw [if_pos hone]
    have hk : offset = offset / M.dataBlockSize * M.dataBlockSize := by omega
    have hread := cacheReadOneBlock_yields hmac hwarn hbase h (offset / M.dataBlockSize) n
    rw [← hk] at hread
    refine hread.mono ?_ fun _ _ => id
    rintro r o' ⟨hret, hv⟩
    refine ⟨hret, fun out hr i b hi => ?_⟩
    have hb := hv out hr
    have hlt : i < M.dataBlockSize :=
      Nat.lt_of_lt_of_le (List.getElem?_eq_some_iff.mp hi).1 hb.length_le
    have hpos : offset + i = i + M.dataBlockSize * (offset / M.dataBlockSize) := by
      rw [Nat.mul_comm]
      omega
    rw [hpos, Nat.add_mul_div_left _ _ M.dataBlockSize_pos, Nat.add_mul_mod_self_left,
      Nat.div_eq_of_lt hlt, Nat.mod_eq_of_lt hlt, Nat.zero_add]
    exact hb.byte hi
  · rw [if_neg hone]
    refine Yields.bind ((readLoop_yields hmac hwarn hbase h offset n (offset / M.dataBlockSize)
      (offset % M.dataBlockSize) n [] (Nat.mod_lt _ M.dataBlockSize_pos) ?_ ?_).mono ?_ ?_)
    · intro
      exact hdiv.symm
    · intro i b hi
      simp at hi
    · rintro out o' ⟨hret, hv⟩
      exact Yields.pure ⟨hret, fun _ hr => Option.some.inj hr ▸ hv⟩
    · exact fun _ _ => id

lemma cacheReadOneBlock_raised {o : Cached (MACFile (Logged τ))} (h : M.Guarded W o) (k n : ℕ) :
    Yields (M.audited.blockFile.cacheReadOneBlock (k * M.dataBlockSize) n) o
      (fun r o' => M.Returned W o o' ∧ ∀ data, r = some data →
        M.VouchedBlock o'.file.base.events W k data)
      (M.Raised W o) :=
  (cacheReadOneBlock_yields hmac hwarn hbase h k n).mono (fun _ _ => id) fun _ _ he => he.raised

omit hmac hwarn in
lemma writeZeros_keeps {o : Cached (MACFile (Logged τ))} (k : ℕ) {n : ℕ}
    (hn : n ≤ M.dataBlockSize) :
    M.Keeps W (M.audited.blockFile.cacheWriteOneBlock (k * M.dataBlockSize)
      (List.replicate n 0)) o :=
  cacheWriteOneBlock_yields hbase o k (sourced_zeros hn)

omit hmac hwarn in
lemma padBlocks_keeps {o : Cached (MACFile (Logged τ))} (h : M.Guarded W o) (count k : ℕ) :
    M.Keeps W (M.audited.blockFile.padBlocks count k) o := by
  induction count generalizing o k with
  | zero => exact Keeps.pure h
  | succ count ih =>
    rw [padBlocks]
    exact Keeps.seq (writeZeros_keeps hbase k (Nat.le_refl _)) fun _ o₁ h₁ => ih h₁ (k + 1)

lemma padBlock_keeps {o : Cached (MACFile (Logged τ))} (h : M.Guarded W o) (k m : ℕ) {n : ℕ}
    (hn : n ≤ M.dataBlockSize) : M.Keeps W (M.audited.blockFile.padBlock k m n) o := by
  refine Keeps.bind ((cacheReadOneBlock_raised hmac hwarn hbase h k m).mono ?_ fun _ _ => id)
  rintro block o₁ ⟨hret, hv⟩
  exact ⟨hret, Keeps.seq (cacheWriteOneBlock_yields hbase o₁ k (.pad hn hv))
    fun _ o₂ h₂ => Keeps.pure h₂⟩

lemma padFile_keeps {o : Cached (MACFile (Logged τ))} (h : M.Guarded W o) (oldSize newSize : ℕ)
    (forceWrite : Bool) : M.Keeps W (M.audited.blockFile.padFile oldSize newSize forceWrite) o := by
  have hmod : newSize % M.dataBlockSize ≤ M.dataBlockSize :=
    Nat.le_of_lt (Nat.mod_lt _ M.dataBlockSize_pos)
  rw [padFile]
  split
  · split
    · exact padBlock_keeps hmac hwarn hbase h _ _ hmod
    · exact Keeps.pure h
  refine Keeps.seq ?_ fun _ o₁ h₁ => Keeps.seq ?_ fun _ o₂ h₂ => ?_
  · rw [padFirstBlock]
    split
    · exact padBlock_keeps hmac hwarn hbase h _ _ (Nat.le_refl _)
    · exact Keeps.pure h
  · rw [padMiddleBlocks]
    split
    · exact Keeps.pure h₁
    · exact padBlocks_keeps hbase h₁ _ _
  · rw [padLastBlock]
    split
    · exact Keeps.seq (writeZeros_keeps hbase _ hmod) fun _ o₃ h₃ => Keeps.pure h₃
    · exact Keeps.pure h₂

lemma cacheReadNegative_keeps {o : Cached (MACFile (Logged τ))}
    (hfirst : M.audited.NothingFirst o.cache o.file) : M.Keeps W (M.audited.blockFile.cacheReadNegative 0) o := by
  have hmiss : ¬(0 = o.cache.offset ∧ o.cache.data ≠ []) := fun hhit => hhit.2 (hfirst.1 hhit.1.symm)
  rw [cacheReadNegative]
  apply Yields.get
  rw [if_neg hmiss]
  apply Yields.modify
  have hread := readOneBlock_yields (W := W) hmac hwarn hbase o.file 0
  rw [Nat.zero_mul] at hread
  refine Yields.bind (Cached.lift_yields ?_)
  cases hrun : M.audited.readOneBlock 0 M.dataBlockSize o.file with
  | error e f =>
    obtain ⟨ha, he⟩ := hread.error hrun
    exact .of_error hrun ⟨guarded_of_empty rfl, ha, he⟩
  | ok r f =>
    have hret : M.Returned W o ⟨⟨o.cache.offset, []⟩, f⟩ := ⟨guarded_of_empty rfl, (hread.ok hrun).1⟩
    refine .of_ok hrun ?_
    obtain rfl | rfl := readOneBlock_short hfirst.2 hrun
    · exact Yields.pure hret
    · exact Yields.pure hret

lemma padFileBelow_keeps {o : Cached (MACFile (Logged τ))} (h : M.Guarded W o) {oldSize : ℤ}
    {newSize : ℕ} (hlow : -(M.dataBlockSize : ℤ) < oldSize)
    (hdefined : newSize / M.dataBlockSize = 0 ∨ M.audited.NothingFirst o.cache o.file) :
    M.Keeps W (M.audited.blockFile.padFileBelow oldSize newSize false) o := by
  have hzeros {o₁ : Cached (MACFile (Logged τ))} : M.Keeps W
      (M.audited.blockFile.cacheWriteOneBlock 0 (List.replicate M.dataBlockSize 0)) o₁ := by
    have hkeeps := writeZeros_keeps (W := W) hbase (o := o₁) 0 (Nat.le_refl M.dataBlockSize)
    rwa [Nat.zero_mul] at hkeeps
  have hbs : M.audited.blockFile.blockSize = M.dataBlockSize := rfl
  rw [padFileBelow, hbs, if_neg (Int.not_le.mpr hlow)]
  by_cases hsame : newSize / M.dataBlockSize = 0
  · rw [if_pos hsame, if_neg fun hforce => Bool.false_ne_true hforce.1]
    exact Keeps.pure h
  rw [if_neg hsame]
  have hfirst := hdefined.resolve_left hsame
  have hzero : M.Keeps W (M.audited.blockFile.padZero M.dataBlockSize) o :=
    Keeps.seq (cacheReadNegative_keeps hmac hwarn hbase hfirst) fun _ o₁ _ =>
      Keeps.seq hzeros fun _ o₂ h₂ => Keeps.pure h₂
  refine Keeps.seq hzero fun _ o₂ h₂ => Keeps.seq ?_ fun _ o₃ h₃ => ?_
  · rw [padMiddleBlocksBelow]
    split
    · exact Keeps.pure h₂
    · exact padBlocks_keeps hbase h₂ _ _
  · rw [padLastBlock, if_neg fun hforce => Bool.false_ne_true hforce.1]
    exact Keeps.pure h₃

def Pending (W : List (ℕ × Bytes)) (pos : ℕ) (inPtr : Bytes) : Prop :=
  ∀ j b, inPtr[j]? = some b → Written W (pos + j) b

lemma blockToWrite_yields {o : Cached (MACFile (Logged τ))} (h : M.Guarded W o) (fileSize : ℕ)
    (lastNonEmptyBlock : ℤ) (k off : ℕ) (chunk : Bytes)
    (hlen : off + chunk.length ≤ M.dataBlockSize)
    (hchunk : Pending W (k * M.dataBlockSize + off) chunk) :
    Yields (M.audited.blockFile.blockToWrite fileSize lastNonEmptyBlock k off chunk) o
      (fun data o' => M.Returned W o o' ∧ M.Sourced o'.file.base.events W k data)
      (M.Raised W o) := by
  have hbs : M.audited.blockFile.blockSize = M.dataBlockSize := rfl
  simp only [blockToWrite, hbs]
  split
  case isTrue hwhole =>
    have hoff : off = 0 := by omega
    refine Yields.pure ⟨⟨h, After.refl _⟩, ?_⟩
    have := Sourced.splice (sourced_zeros (M := M) (L := o.file.base.events) (W := W) (k := k)
      (Nat.zero_le _)) hlen hchunk
    rw [hoff] at this
    simpa [FlatArray.splice, resize] using this
  split
  case isTrue =>
    exact Yields.pure ⟨⟨h, After.refl _⟩, .splice (VouchedBlock.nil k).sourced hlen hchunk⟩
  refine Yields.bind ((cacheReadOneBlock_raised hmac hwarn hbase h k _).mono ?_ fun _ _ => id)
  rintro block o₁ ⟨hret, hv⟩
  refine Yields.pure ⟨hret, .splice ?_ hlen hchunk⟩
  cases block with
  | none => exact (VouchedBlock.nil k).sourced
  | some data => exact (hv data rfl).sourced

lemma writeLoop_keeps {o : Cached (MACFile (Logged τ))} (h : M.Guarded W o) (fileSize : ℕ)
    (lastNonEmptyBlock : ℤ) (fuel k : ℕ) {off : ℕ} (hoff : off < M.dataBlockSize) (inPtr : Bytes)
    (hin : Pending W (k * M.dataBlockSize + off) inPtr) :
    M.Keeps W (M.audited.blockFile.writeLoop fileSize lastNonEmptyBlock fuel k off inPtr) o := by
  induction fuel generalizing o k off inPtr with
  | zero => exact Keeps.pure h
  | succ fuel ih =>
    rw [writeLoop]
    split
    case isTrue => exact Keeps.pure h
    have hbs : M.audited.blockFile.blockSize = M.dataBlockSize := rfl
    simp only [hbs]
    generalize hn : min (M.dataBlockSize - off) inPtr.length = n
    refine Keeps.bind ((blockToWrite_yields hmac hwarn hbase h fileSize lastNonEmptyBlock k off
      (inPtr.take n) ?_ ?_).mono ?_ fun _ _ => id)
    · rw [List.length_take]
      omega
    · intro j b hj
      rw [List.getElem?_take] at hj
      split at hj
      · exact hin j b hj
      · cases hj
    rintro data o₁ ⟨hret, hdata⟩
    refine ⟨hret, Keeps.bind ((cacheWriteOneBlock_yields hbase o₁ k hdata).mono ?_ fun _ _ => id)⟩
    rintro ok o₂ hret₂
    refine ⟨hret₂, ?_⟩
    cases ok with
    | false => exact Keeps.pure hret₂.1
    | true =>
      refine ih hret₂.1 (k + 1) M.dataBlockSize_pos (inPtr.drop n) fun j b hj => ?_
      rw [List.getElem?_drop] at hj
      have hlt := (List.getElem?_eq_some_iff.mp hj).1
      have hpos : (k + 1) * M.dataBlockSize + 0 + j = k * M.dataBlockSize + off + (n + j) := by
        rw [Nat.succ_mul]
        omega
      rw [hpos]
      exact hin (n + j) b hj

open BlockFileIO in
lemma write_keeps {o : Cached (MACFile (Logged τ))} (h : M.Guarded W o) {offset : ℕ}
    {data : Bytes} (hw : (offset, data) ∈ W) (hdefined : M.audited.WriteDefined o offset) :
    M.Keeps W (M.audited.blockFile.write offset data) o := by
  have hbs : M.audited.blockFile.blockSize = M.dataBlockSize := rfl
  have hdiv := Nat.div_add_mod' offset M.dataBlockSize
  have hdata : Pending W offset data := fun j b hj =>
    ⟨_, hw, Nat.le_add_right _ _, by rwa [Nat.add_sub_cancel_left]⟩
  have hblock {o₁ : Cached (MACFile (Logged τ))} (hone : offset % M.dataBlockSize = 0)
      (hlen : data.length ≤ M.dataBlockSize) :
      M.Keeps W (M.audited.blockFile.cacheWriteOneBlock offset data) o₁ := by
    have hk : offset = offset / M.dataBlockSize * M.dataBlockSize := by omega
    rw [hk] at hdata ⊢
    exact cacheWriteOneBlock_yields hbase o₁ _ ⟨hlen, fun {i b} hi => .inl (.inr (hdata i b hi))⟩
  have hloop {o₁ : Cached (MACFile (Logged τ))} (h₁ : M.Guarded W o₁) (fileSize : ℕ) (last : ℤ) :
      M.Keeps W (M.audited.blockFile.writeLoop fileSize last data.length
        (offset / M.dataBlockSize) (offset % M.dataBlockSize) data) o₁ := by
    refine writeLoop_keeps hmac hwarn hbase h₁ _ _ _ _ (Nat.mod_lt _ M.dataBlockSize_pos) _ ?_
    rwa [hdiv]
  have hsize : Yields M.audited.getSize o.file (fun size f => After M.Passes o.file f ∧
      M.audited.getSize o.file = .ok size f) fun e f => After M.Passes o.file f ∧ e ≠ .undefined := by
    cases hrun : M.audited.getSize o.file with
    | ok size f => exact .of_ok hrun ⟨(getSize_yields hbase o.file).ok hrun, rfl⟩
    | error e f => exact .of_error hrun ((getSize_yields hbase o.file).error hrun)
  rw [write]
  refine Keeps.bind (Cached.lift_yields (hsize.mono ?_ ?_))
  · rintro fileSize f ⟨ha, hrun⟩
    have h₀ := h.after ha
    refine ⟨⟨h₀, ha⟩, ?_⟩
    split
    case isTrue =>
      refine Keeps.seq ?_ fun _ o₁ h₁ => ?_
      · rw [fillGap]
        split
        · exact padFile_keeps hmac hwarn hbase h₀ _ _ _
        · exact Keeps.pure h₀
      simp only [hbs]
      split
      case isTrue hone => exact hblock hone.1 hone.2.1
      case isFalse => exact hloop h₁ _ _
    case isFalse hbelow =>
      have hdefined := hdefined fileSize f hrun (Int.not_le.mp hbelow)
      refine Keeps.seq (padFileBelow_keeps hmac hwarn hbase h₀ hdefined.1 ?_) fun _ o₁ h₁ => ?_
      · exact hdefined.2.imp_left fun hlt => Nat.div_eq_of_lt hlt
      simp only [hbs]
      split
      case isTrue hone => exact hblock hone.1 hone.2.1
      case isFalse => exact hloop h₁ _ _
  · intro e f hf
    exact ⟨h.after hf.1, hf.1.weaken fun _ _ => trivial, hf.2⟩

end Blocks

section Runs

def meddled (meddle : τ → τ) (o : Cached (MACFile (Logged τ))) : Cached (MACFile (Logged τ)) :=
  { o with file := { o.file with base := { o.file.base with file := meddle o.file.base.file } } }

def requested : Request → List (ℕ × Bytes)
  | .read _ _ => []
  | .write offset data => [(offset, data)]

/-- The states that a file object can be in after the requests to write in `W`, when the layer
below is changed at will between the requests and some requests fail. Each request meets `P` where
it is made, and after one that is undefined the object may be in any state. -/
inductive Reachable (M : MACFileIO τ) (P : Cached (MACFile (Logged τ)) → Request → Prop) :
    List (ℕ × Bytes) → Cached (MACFile (Logged τ)) → Prop
  | fresh (base : τ) (draws : ℕ) : Reachable M P [] ⟨Cache.empty, ⟨⟨base, []⟩, draws⟩⟩
  | step {W : List (ℕ × Bytes)} {o : Cached (MACFile (Logged τ))} (h : Reachable M P W o)
      (meddle : τ → τ) (q : Request) (hq : P (meddled meddle o) q) :
      Reachable M P (requested q ++ W)
        (finalState (M.audited.blockFile.accessors.serve q) (meddled meddle o))
  | undefined {W : List (ℕ × Bytes)} {o o' : Cached (MACFile (Logged τ))}
      (h : Reachable M P W o) (meddle : τ → τ) (q : Request) (hq : P (meddled meddle o) q)
      (hu : M.audited.blockFile.accessors.serve q (meddled meddle o) = .error .undefined o')
      (o'' : Cached (MACFile (Logged τ))) : Reachable M P (requested q ++ W) o''

lemma Guarded.meddle {o : Cached (MACFile (Logged τ))} (h : M.Guarded W o) (meddle : τ → τ) :
    M.Guarded W (meddled meddle o) := h

lemma Guarded.mono_requests {W' : List (ℕ × Bytes)} {o : Cached (MACFile (Logged τ))}
    (h : M.Guarded W o) (hW : W ⊆ W') : M.Guarded W' o := by
  intro hne
  obtain ⟨k, hk, hv⟩ := h hne
  exact ⟨k, hk, hv.length_le, fun hi => (hv.byte hi).mono_requests hW⟩

variable (hmac : 0 < M.macBytes) (hwarn : M.warnOnly = false) (hbase : M.base.Bounded)
include hmac hwarn hbase

lemma serve_keeps {o : Cached (MACFile (Logged τ))} (h : M.Guarded W o) (q : Request)
    (hq : requested q ⊆ W) (hdefined : M.audited.RequestDefined o q) :
    M.Keeps W (M.audited.blockFile.accessors.serve q) o := by
  cases q with
  | read offset n =>
    refine Yields.bind ((read_yields hmac hwarn hbase h offset n).mono ?_ ?_)
    · exact fun r o' hr => Yields.pure hr.1
    · exact fun e o' he => he.raised
  | write offset data =>
    have hw : (offset, data) ∈ W := hq List.mem_cons_self
    exact Keeps.seq (write_keeps hmac hwarn hbase h hw hdefined) fun ok o' h' => Keeps.pure h'

lemma Reachable.guarded {o : Cached (MACFile (Logged τ))}
    (h : M.Reachable M.audited.RequestDefined W o) : M.Guarded W o := by
  have hserve {W : List (ℕ × Bytes)} {o : Cached (MACFile (Logged τ))} (ih : M.Guarded W o)
      (meddle : τ → τ) (q : Request)
      (hq : M.audited.RequestDefined (meddled meddle o) q) :
      M.Keeps (requested q ++ W) (M.audited.blockFile.accessors.serve q)
        (meddled meddle o) :=
    serve_keeps hmac hwarn hbase ((ih.meddle meddle).mono_requests
      (List.subset_append_right (requested q) _)) q (List.subset_append_left _ _) hq
  induction h with
  | fresh base draws => exact guarded_of_empty rfl
  | step _ meddle q hq ih =>
    exact ((hserve ih meddle q hq).mono (fun _ _ hr => hr.1) fun _ _ hr => hr.1).final
  | undefined _ meddle q hq hu o'' ih => exact absurd rfl ((hserve ih meddle q hq).error hu).2.2

end Runs

lemma plainFile_bounded : plainFile.Bounded where
  read offset n c := by
    refine Yields.of_ok rfl fun raw hr => ?_
    rw [← Option.some.inj hr, slice_length]
    exact Nat.min_le_left _ _
  write _ _ _ := .of_ok rfl trivial
  getSize _ := .of_ok rfl trivial

def maskTags : MACFileIO Bytes where
  base := plainFile
  cipher := maskCipher
  random := onesSource
  fsBlockSize := 4
  macBytes := 1
  randBytes := 1
  warnOnly := false
  allowHoles := false
  macBytes_le := smallMac_le
  dataBlockSize_gt := smallMac_gt

def written : Cached (MACFile (Logged Bytes)) :=
  finalState (maskTags.audited.blockFile.accessors.serve (.write 0 [5, 6]))
    (meddled id ⟨.empty, ⟨⟨[], []⟩, 0⟩⟩)

end MACFileIO

end EncFS
