import EncFS.BlockFileIO.Faults

set_option autoImplicit false

namespace EncFS

open FlatArray

namespace FaultyStore

variable (S : FaultyStore)

def block (raw : Bytes) (k : ℕ) : Bytes :=
  S.codec.decode k (slice raw (k * S.blockSize) S.blockSize)

def Coherent (o : Cached FaultyFile) : Prop :=
  o.cache.data ≠ [] → ∃ k, o.cache.offset = k * S.blockSize ∧
    o.cache.data = S.block o.file.raw k

/-- The block in the cache does not change when the file is extended to `n` bytes. -/
def Firm (n : ℕ) (o : Cached FaultyFile) : Prop :=
  o.cache.data ≠ [] → o.cache.data.length = S.blockSize ∨ n ≤ o.file.raw.length

structure Ready (faults : Faults) (n T : ℕ) (o : Cached FaultyFile) : Prop where
  coherent : S.Coherent o
  firm : S.Firm n o
  faults_eq : o.file.faults = faults
  length_le : o.file.raw.length ≤ T

variable {S} {faults : Faults} {n T : ℕ} {o : Cached FaultyFile}

lemma blockSize_pos (S : FaultyStore) : 0 < S.blockSize :=
  Nat.lt_trans Nat.zero_lt_one S.blockSize_gt

lemma block_length (raw : Bytes) (k : ℕ) :
    (S.block raw k).length = min S.blockSize (raw.length - k * S.blockSize) :=
  FlatArray.block_length S.codec.decode_length raw k

lemma coherent_of_empty (h : o.cache.data = []) : S.Coherent o :=
  fun hne => absurd h hne

lemma firm_of_empty (h : o.cache.data = []) : S.Firm n o :=
  fun hne => absurd h hne

section Primitives

lemma readOneBlock_yields (f : FaultyFile) (k : ℕ) :
    Yields (S.readOneBlock (k * S.blockSize) S.blockSize) f
      (fun r f' => f' = f ∧ (∀ d, r = some d → d = S.block f.raw k) ∧
        (r = none → f.faults.read k = some .fails))
      fun _ f' => f' = f := by
  rw [readOneBlock]
  apply Yields.get
  rw [Nat.mul_div_cancel k S.blockSize_pos]
  cases hk : f.faults.read k with
  | none => exact Yields.pure ⟨rfl, fun d hd => (Option.some.inj hd).symm, fun h => by cases h⟩
  | some fault =>
    cases fault with
    | fails => exact Yields.pure ⟨rfl, fun d hd => (by cases hd), fun _ => rfl⟩
    | raises => exact Yields.of_error rfl rfl

lemma land_length_le (raw : Bytes) (offset : ℕ) (d : Bytes) :
    (land raw offset d).length ≤ max raw.length (offset + d.length) := by
  rw [land]
  split
  · exact Nat.le_max_left _ _
  · exact Nat.le_of_eq (splice_length 0 raw offset d)

lemma block_land {raw d : Bytes} {k : ℕ} (hne : d ≠ []) (hlen : d.length ≤ S.blockSize)
    (hcover : d.length = S.blockSize ∨ raw.length ≤ k * S.blockSize + d.length) :
    S.block (land raw (k * S.blockSize) (S.codec.encode k d)) k = d := by
  have he := S.codec.encode_length k d hlen
  have hne' : S.codec.encode k d ≠ [] := by
    intro h
    rw [h] at he
    exact hne (List.length_eq_zero_iff.mp he.symm)
  rw [block, land, if_neg hne', slice_splice_same 0 raw _ _ _ (by omega) (by omega)]
  exact S.codec.decode_encode hlen

def landed (S : FaultyStore) (f : FaultyFile) (k : ℕ) (d : Bytes) : FaultyFile :=
  { f with raw := land f.raw (k * S.blockSize) d }

lemma writeOneBlock_yields (f : FaultyFile) (k : ℕ) (data : Bytes) :
    Yields (S.writeOneBlock (k * S.blockSize) data) f
      (fun ok f' => (ok = true ∧ f.faults.write k = none ∧
          f' = S.landed f k (S.codec.encode k data)) ∨
        (ok = false ∧ ∃ m, f.faults.write k = some (.fails, m) ∧
          f' = S.landed f k ((S.codec.encode k data).take m)))
      fun _ f' => ∃ m, f.faults.write k = some (.raises, m) ∧
        f' = S.landed f k ((S.codec.encode k data).take m) := by
  rw [writeOneBlock]
  apply Yields.get
  rw [Nat.mul_div_cancel k S.blockSize_pos]
  cases hk : f.faults.write k with
  | none => exact Yields.set (Yields.pure (.inl ⟨rfl, rfl, rfl⟩))
  | some w =>
    obtain ⟨fault, m⟩ := w
    apply Yields.set
    cases fault with
    | fails => exact Yields.pure (.inr ⟨rfl, m, rfl, rfl⟩)
    | raises => exact Yields.of_error rfl ⟨m, rfl, rfl⟩

end Primitives

section Blocks

open BlockFileIO

lemma cacheReadOneBlock_yields (o : Cached FaultyFile) (k m : ℕ) :
    Yields (S.blockFile.cacheReadOneBlock (k * S.blockSize) m) o
      (fun r o' => o'.file = o.file ∧ (S.Coherent o → S.Coherent o' ∧
        ∀ d, r = some d → d = (S.block o.file.raw k).take m) ∧
        (r = none → o.file.faults.read k = some .fails))
      fun _ o' => o'.file = o.file ∧ o'.cache.data = [] := by
  rw [cacheReadOneBlock]
  apply Yields.get
  by_cases hit : k * S.blockSize = o.cache.offset ∧ o.cache.data ≠ []
  · rw [if_pos hit]
    refine Yields.pure ⟨rfl, fun hc => ⟨hc, fun d hd => ?_⟩, fun h => by cases h⟩
    obtain ⟨k', hk', hdata⟩ := hc hit.2
    have : k' = k := Nat.eq_of_mul_eq_mul_right S.blockSize_pos (hk'.symm.trans hit.1.symm)
    rw [← Option.some.inj hd, hdata, this]
  · rw [if_neg hit]
    apply Yields.modify
    refine Yields.bind (Cached.lift_yields ((readOneBlock_yields o.file k).mono ?_ ?_))
    · rintro r f ⟨rfl, hd, hnone⟩
      cases r with
      | none =>
        exact Yields.pure ⟨rfl, fun _ => ⟨coherent_of_empty rfl, fun d h => by cases h⟩, hnone⟩
      | some result =>
        have hr := hd result rfl
        by_cases hnil : result = []
        · simp only [if_pos hnil]
          refine Yields.pure ⟨rfl, fun _ => ⟨coherent_of_empty rfl, fun d h => ?_⟩,
            fun h => by cases h⟩
          rw [← Option.some.inj h, ← hr, hnil, List.take_nil]
        · simp only [if_neg hnil]
          apply Yields.modify
          refine Yields.pure ⟨rfl, fun _ => ⟨fun _ => ⟨k, rfl, hr⟩, fun d h => ?_⟩,
            fun h => by cases h⟩
          rw [← Option.some.inj h, hr]
    · rintro e f rfl
      exact ⟨rfl, rfl⟩

lemma cacheWriteOneBlock_outcomes (o : Cached FaultyFile) (k : ℕ) (data : Bytes) :
    Yields (S.blockFile.cacheWriteOneBlock (k * S.blockSize) data) o
      (fun _ o' => (o.file.faults.write k = none ∧
          o' = ⟨⟨k * S.blockSize, data⟩, S.landed o.file k (S.codec.encode k data)⟩) ∨
        (∃ m, o.file.faults.write k = some (.fails, m) ∧
          o' = ⟨⟨k * S.blockSize, []⟩, S.landed o.file k ((S.codec.encode k data).take m)⟩))
      fun _ o' => ∃ m, o.file.faults.write k = some (.raises, m) ∧
        o' = ⟨⟨k * S.blockSize, data⟩, S.landed o.file k ((S.codec.encode k data).take m)⟩ := by
  apply Yields.modify
  refine Yields.bind (Cached.lift_yields ((writeOneBlock_yields o.file k data).mono ?_ ?_))
  · rintro ok f (⟨rfl, hw, rfl⟩ | ⟨rfl, m, hw, rfl⟩)
    · exact Yields.pure (.inl ⟨hw, rfl⟩)
    · exact Yields.modify (Yields.pure (.inr ⟨m, hw, rfl⟩))
  · rintro e f ⟨m, hw, rfl⟩
    exact ⟨m, hw, rfl⟩

lemma cacheWriteOneBlock_yields {k : ℕ} {data : Bytes} (hf : o.file.faults = faults)
    (hlate : data ≠ [] → faults.RaisesLate S.blockSize k) (hT : o.file.raw.length ≤ T)
    (hend : k * S.blockSize + data.length ≤ T) (hlen : data.length ≤ S.blockSize)
    (hcover : data.length = S.blockSize ∨ o.file.raw.length ≤ k * S.blockSize + data.length)
    (hfirm : data.length = S.blockSize ∨ n ≤ k * S.blockSize + data.length) :
    Yields (S.blockFile.cacheWriteOneBlock (k * S.blockSize) data) o
      (fun _ o' => S.Ready faults n T o') fun _ o' => S.Coherent o' := by
  have he := S.codec.encode_length k data hlen
  have hland (d : Bytes) (hd : d.length ≤ data.length) :
      (S.landed o.file k d).raw.length ≤ T :=
    Nat.le_trans (land_length_le _ _ _) (by omega)
  have hblock (hne : data ≠ []) :
      data = S.block (S.landed o.file k (S.codec.encode k data)).raw k :=
    (block_land hne hlen hcover).symm
  refine (cacheWriteOneBlock_outcomes o k data).mono ?_ ?_
  · rintro ok o' (⟨-, rfl⟩ | ⟨m, -, rfl⟩)
    · refine ⟨fun hne => ⟨k, rfl, hblock hne⟩, fun hne => hfirm.imp_right fun h => ?_, hf,
        hland _ (Nat.le_of_eq he)⟩
      have hne' : S.codec.encode k data ≠ [] := by
        intro h
        rw [h] at he
        exact hne (List.length_eq_zero_iff.mp he.symm)
      simp only [landed, land, if_neg hne', splice_length]
      omega
    · refine ⟨coherent_of_empty rfl, firm_of_empty rfl, hf, hland _ ?_⟩
      rw [List.length_take]
      omega
  · rintro e o' ⟨m, hm, rfl⟩ hne
    have hm' := hlate hne m (hf ▸ hm)
    rw [List.take_of_length_le (by omega)]
    exact ⟨k, rfl, hblock hne⟩

end Blocks

section Reads

open BlockFileIO

lemma slice_content (raw : Bytes) {k p m : ℕ} (hm : m ≤ S.blockSize - p) :
    slice (S.block raw k) p m = slice (S.content raw) (k * S.blockSize + p) m := by
  rw [block, ← slice_mapBlocks S.codec.decode_length S.blockSize_pos, slice_slice,
    Nat.min_eq_left hm]
  rfl

lemma readLoop_yields (hc : S.Coherent o) (fuel k p size : ℕ) (out : Bytes)
    (hp : p < S.blockSize) :
    Yields (S.blockFile.readLoop fuel k p size out) o
      (fun r o' => o'.file = o.file ∧ S.Coherent o' ∧ ∃ m ≤ size,
        r = out ++ slice (S.content o.file.raw) (k * S.blockSize + p) m)
      fun _ o' => o'.file = o.file ∧ o'.cache.data = [] := by
  have hstop {o' : Cached FaultyFile} (hfile : o'.file = o.file) (hc' : S.Coherent o') :
      o'.file = o.file ∧ S.Coherent o' ∧ ∃ m ≤ size,
        out = out ++ slice (S.content o.file.raw) (k * S.blockSize + p) m :=
    ⟨hfile, hc', 0, Nat.zero_le _, by rw [slice_zero, List.append_nil]⟩
  induction fuel generalizing o k p size out with
  | zero => exact Yields.pure (hstop rfl hc)
  | succ fuel ih =>
    rw [readLoop]
    by_cases hsize : size = 0
    · rw [if_pos hsize]
      exact Yields.pure (hstop rfl hc)
    rw [if_neg hsize]
    refine Yields.bind ((cacheReadOneBlock_yields o k _).mono ?_ fun _ _ => id)
    rintro r o₁ ⟨hfile, hread, -⟩
    obtain ⟨hc₁, hd⟩ := hread hc
    cases r with
    | none => exact Yields.pure (hstop hfile hc₁)
    | some block =>
      have hblock := hd block rfl
      have hlen := block_length (S := S) o.file.raw k
      rw [List.take_of_length_le (by rw [hlen]; exact Nat.min_le_left _ _)] at hblock
      rw [← hblock] at hlen
      by_cases hshort : block.length ≤ p
      · simp only [if_pos hshort]
        exact Yields.pure (hstop hfile hc₁)
      simp only [if_neg hshort]
      generalize hm : min (block.length - p) size = m
      have hcopy : slice block p m = slice (S.content o.file.raw) (k * S.blockSize + p) m := by
        rw [hblock, slice_content]
        omega
      by_cases hlast : block.length < S.blockFile.blockSize
      · simp only [if_pos hlast]
        exact Yields.pure ⟨hfile, hc₁, m, by omega, by rw [hcopy]⟩
      · simp only [if_neg hlast]
        have hbs : S.blockFile.blockSize = S.blockSize := rfl
        refine (ih hc₁ (k + 1) 0 (size - m) _ S.blockSize_pos ?_).mono ?_ ?_
        · exact fun hfile' hc' => ⟨hfile', hc', 0, Nat.zero_le _, by rw [slice_zero, List.append_nil]⟩
        · rintro r o₂ ⟨hfile₂, hc₂, l, hl, rfl⟩
          refine ⟨hfile₂.trans hfile, hc₂, m + l, by omega, ?_⟩
          have hpos : l = 0 ∨ (k + 1) * S.blockSize + 0 = k * S.blockSize + p + m := by
            rw [Nat.succ_mul]
            omega
          rcases hpos with rfl | hpos
          · rw [slice_zero, List.append_nil, hcopy, Nat.add_zero]
          · rw [hpos, hfile, hcopy, List.append_assoc, slice_append_slice]
        · exact fun e o₂ he => ⟨he.1.trans hfile, he.2⟩

lemma read_yields (hc : S.Coherent o) (offset m : ℕ) :
    Yields (S.blockFile.read offset m) o
      (fun r o' => o'.file = o.file ∧ S.Coherent o' ∧
        ∀ out, r = some out → out <+: slice (S.content o.file.raw) offset m)
      fun _ o' => o'.file = o.file ∧ o'.cache.data = [] := by
  have hbs : S.blockFile.blockSize = S.blockSize := rfl
  have hdiv := Nat.div_add_mod' offset S.blockSize
  simp only [hbs, BlockFileIO.read]
  by_cases hone : offset % S.blockSize = 0 ∧ m ≤ S.blockSize
  · rw [if_pos hone]
    have hk : offset = offset / S.blockSize * S.blockSize := by omega
    have hread := cacheReadOneBlock_yields (S := S) o (offset / S.blockSize) m
    rw [← hk] at hread
    refine hread.mono ?_ fun _ _ => id
    rintro r o' ⟨hfile, hr, -⟩
    obtain ⟨hc', hd⟩ := hr hc
    refine ⟨hfile, hc', fun out ho => ?_⟩
    have hslice := slice_content (S := S) o.file.raw (k := offset / S.blockSize) (p := 0) hone.2
    rw [Nat.add_zero, ← hk] at hslice
    rw [hd out ho, ← hslice]
    exact List.prefix_refl _
  · rw [if_neg hone]
    refine Yields.bind ((readLoop_yields hc m (offset / S.blockSize) (offset % S.blockSize) m []
      (Nat.mod_lt _ S.blockSize_pos)).mono ?_ fun _ _ => id)
    rintro out o' ⟨hfile, hc', l, hl, rfl⟩
    refine Yields.pure ⟨hfile, hc', fun out ho => ?_⟩
    rw [← Option.some.inj ho, List.nil_append, hdiv]
    have : slice (S.content o.file.raw) offset l =
        (slice (S.content o.file.raw) offset m).take l := by
      rw [slice, slice, List.take_take, Nat.min_eq_left hl]
    rw [this]
    exact List.take_prefix _ _

end Reads

section Writes

open BlockFileIO

lemma padBlock_yields (k readSize : ℕ) {size : ℕ} (hlate : faults.RaisesLate S.blockSize k) (hf : o.file.faults = faults)
    (htop : o.file.raw.length ≤ T) (hend : k * S.blockSize + size ≤ T)
    (hsize : size ≤ S.blockSize)
    (hcover : size = S.blockSize ∨ o.file.raw.length ≤ k * S.blockSize + size)
    (hfirm : size = S.blockSize ∨ n ≤ k * S.blockSize + size) :
    Yields (S.blockFile.padBlock k readSize size) o
      (fun _ o' => S.Ready faults n T o') fun _ o' => S.Coherent o' := by
  refine Yields.bind ((cacheReadOneBlock_yields o k readSize).mono ?_ ?_)
  · rintro block o₁ ⟨hfile, -, -⟩
    have hlen : (padded block size).length = size := resize_length _ _ _
    refine Yields.bind ((cacheWriteOneBlock_yields (n := n) (hfile ▸ hf) (fun _ => hlate) (hfile ▸ htop)
      (hlen.symm ▸ hend) (hlen.symm ▸ hsize) ?_ ?_).mono ?_ ?_)
    · rw [hlen, hfile]
      exact hcover
    · rw [hlen]
      exact hfirm
    · exact fun _ _ h => Yields.pure h
    · exact fun _ _ => id
  · exact fun _ _ he => coherent_of_empty he.2

lemma padBlocks_yields (count k : ℕ) (h : S.Ready faults n T o)
    (hlate : ∀ j, k ≤ j → j < k + count → faults.RaisesLate S.blockSize j)
    (hend : (k + count) * S.blockSize ≤ T) :
    Yields (S.blockFile.padBlocks count k) o
      (fun _ o' => S.Ready faults n T o') fun _ o' => S.Coherent o' := by
  induction count generalizing o k with
  | zero => exact Yields.pure h
  | succ count ih =>
    have hle : (k + 1) * S.blockSize ≤ (k + (count + 1)) * S.blockSize :=
      Nat.mul_le_mul_right _ (by omega)
    have hlen : (List.replicate S.blockSize (0 : UInt8)).length = S.blockSize :=
      List.length_replicate
    rw [Nat.succ_mul] at hle
    rw [padBlocks]
    have hfirst := hlate k (Nat.le_refl k) (by omega)
    refine Yields.bind ((cacheWriteOneBlock_yields (n := n) h.faults_eq (fun _ => hfirst) h.length_le
      (by rw [hlen]; omega) (Nat.le_of_eq hlen) (.inl hlen) (.inl hlen)).mono ?_ fun _ _ => id)
    intro _ o₁ h₁
    exact ih (k + 1) h₁ (fun j hj hj' => hlate j (by omega) (by omega))
      (by rwa [Nat.add_assoc, Nat.add_comm 1])

lemma padFile_yields {oldSize newSize : ℕ} {forceWrite : Bool}
    (hlate : faults.RaiseLate S.blockSize oldSize newSize) (hsize : oldSize < newSize)
    (hf : o.file.faults = faults) (htop : o.file.raw.length ≤ T)
    (hend : newSize / S.blockSize * S.blockSize ≤ T)
    (hforce : forceWrite = true → T = newSize ∧ n ≤ newSize)
    (hready : (S.Coherent o ∧ S.Firm n o) ∨ (forceWrite = true ∧ oldSize % S.blockSize ≠ 0)) :
    Yields (S.blockFile.padFile oldSize newSize forceWrite) o
      (fun _ o' => S.Ready faults n T o') fun _ o' => S.Coherent o' := by
  have hbs : S.blockFile.blockSize = S.blockSize := rfl
  have hmod := Nat.le_of_lt (Nat.mod_lt newSize S.blockSize_pos)
  have hdiv := Nat.div_add_mod' newSize S.blockSize
  have hdiv' := Nat.div_add_mod' oldSize S.blockSize
  rw [padFile]
  simp only [hbs]
  by_cases hsame : oldSize / S.blockSize = newSize / S.blockSize
  · rw [if_pos hsame]
    rw [hsame] at hdiv'
    by_cases hw : forceWrite = true ∧ newSize % S.blockSize ≠ 0
    · obtain ⟨ht, hn⟩ := hforce hw.1
      rw [if_pos hw, hsame]
      have hlate' := hlate _ (Nat.le_of_eq hsame) (by omega)
      exact padBlock_yields _ _ hlate' hf htop (by omega) hmod (.inr (by omega)) (.inr (by omega))
    · rw [if_neg hw]
      have hnot : forceWrite ≠ true := fun h => hw ⟨h, by omega⟩
      obtain ⟨hc, hfirm⟩ := hready.resolve_right fun h => hnot h.1
      exact Yields.pure ⟨hc, hfirm, hf, htop⟩
  · rw [if_neg hsame]
    have hlt : oldSize / S.blockSize < newSize / S.blockSize :=
      Nat.lt_of_le_of_ne (Nat.div_le_div_right (Nat.le_of_lt hsize)) hsame
    have hle : (oldSize / S.blockSize + 1) * S.blockSize ≤ newSize / S.blockSize * S.blockSize :=
      Nat.mul_le_mul_right _ hlt
    rw [Nat.succ_mul] at hle
    have hfirst : Yields (S.blockFile.padFirstBlock oldSize) o
        (fun _ o' => S.Ready faults n T o') fun _ o' => S.Coherent o' := by
      rw [padFirstBlock]
      by_cases hpart : oldSize % S.blockFile.blockSize ≠ 0
      · rw [if_pos hpart]
        have hlate' := hlate _ (Nat.le_refl _) (by omega)
        exact padBlock_yields _ _ hlate' hf htop (Nat.le_trans hle hend) (Nat.le_refl _) (.inl rfl)
          (.inl rfl)
      · rw [if_neg hpart]
        obtain ⟨hc, hfirm⟩ := hready.resolve_right fun h => hpart h.2
        exact Yields.pure ⟨hc, hfirm, hf, htop⟩
    refine Yields.bind (hfirst.mono (fun _ o₁ h₁ => ?_) fun _ _ => id)
    have hmiddle : Yields (S.blockFile.padMiddleBlocks oldSize newSize) o₁
        (fun _ o' => S.Ready faults n T o') fun _ o' => S.Coherent o' := by
      rw [padMiddleBlocks]
      split
      · exact Yields.pure h₁
      · have hpad : oldSize / S.blockSize ≤ S.blockFile.firstToPad oldSize ∧
            S.blockFile.firstToPad oldSize ≤ newSize / S.blockSize := by
          rw [firstToPad, hbs]
          split <;> omega
        refine padBlocks_yields _ _ h₁ (fun j hj hj' => hlate j (by omega) ?_) ?_
        · rw [hbs] at hj'
          have hle' : (j + 1) * S.blockSize ≤ newSize / S.blockSize * S.blockSize :=
            Nat.mul_le_mul_right _ (by omega)
          rw [Nat.succ_mul] at hle'
          have hpos := S.blockSize_pos
          omega
        · rwa [hbs, Nat.add_sub_cancel' hpad.2]
    refine Yields.bind (hmiddle.mono (fun _ o₂ h₂ => ?_) fun _ _ => id)
    simp only [padLastBlock, hbs]
    split
    case isTrue hw =>
      obtain ⟨ht, hn⟩ := hforce hw.1
      have hlen : (List.replicate (newSize % S.blockSize) (0 : UInt8)).length =
          newSize % S.blockSize := List.length_replicate
      have htop₂ := h₂.length_le
      have hlate' := hlate (newSize / S.blockSize) (Nat.le_of_lt hlt) (by omega)
      exact Yields.bind ((cacheWriteOneBlock_yields (n := n) h₂.faults_eq (fun _ => hlate') htop₂
        (by rw [hlen]; omega) (by rwa [hlen]) (.inr (by rw [hlen]; omega))
        (.inr (by rw [hlen]; omega))).mono (fun _ _ h => Yields.pure h) fun _ _ => id)
    case isFalse => exact Yields.pure h₂

lemma blockToWrite_yields {size k off : ℕ} {chunk : Bytes} (hc : S.Coherent o)
    (htop : o.file.raw.length ≤ max size (k * S.blockSize))
    (hlen : off + chunk.length ≤ S.blockSize)
    (hread : o.file.faults.read k = some .fails →
      off + chunk.length = S.blockSize ∨ size ≤ k * S.blockSize + off + chunk.length) :
    Yields (S.blockFile.blockToWrite size (S.blockFile.lastNonEmptyBlock size) k off chunk) o
      (fun data o' => o'.file = o.file ∧ data.length ≤ S.blockSize ∧
        (data.length = S.blockSize ∨ o.file.raw.length ≤ k * S.blockSize + data.length))
      fun _ o' => S.Coherent o' := by
  have hbs : S.blockFile.blockSize = S.blockSize := rfl
  simp only [blockToWrite, hbs]
  split
  case isTrue hwhole => exact Yields.pure ⟨rfl, by omega, by omega⟩
  split
  case isTrue hlast =>
    have hsize : size ≤ k * S.blockSize := by
      have hdiv := Nat.div_add_mod' size S.blockSize
      have hlt := Nat.mod_lt size S.blockSize_pos
      simp only [lastNonEmptyBlock, hbs] at hlast
      split at hlast
      · have hle : size / S.blockSize * S.blockSize ≤ k * S.blockSize :=
          Nat.mul_le_mul_right _ (by omega)
        omega
      · have hle : (size / S.blockSize + 1) * S.blockSize ≤ k * S.blockSize :=
          Nat.mul_le_mul_right _ (by omega)
        rw [Nat.succ_mul] at hle
        omega
    exact Yields.pure ⟨rfl, by simp only [splice_length, List.length_nil]; omega,
      .inr (by simp only [splice_length, List.length_nil]; omega)⟩
  refine Yields.bind ((cacheReadOneBlock_yields o k _).mono ?_ ?_)
  · rintro r o₁ ⟨hfile, hdata, hfail⟩
    refine Yields.pure ⟨hfile, ?_⟩
    cases r with
    | none =>
      have hcover := hread (hfail rfl)
      simp only [Option.getD_none, splice_length, List.length_nil]
      omega
    | some block =>
      have hblock := (hdata hc).2 block rfl
      have hlen' := block_length (S := S) o.file.raw k
      rw [List.take_of_length_le (by rw [hlen']; exact Nat.min_le_left _ _)] at hblock
      rw [← hblock] at hlen'
      simp only [Option.getD_some, splice_length]
      omega
  · exact fun _ _ he => coherent_of_empty he.2

lemma writeLoop_yields {size : ℕ} (fuel k off : ℕ) (inPtr : Bytes) (hoff : off < S.blockSize)
    (hlate : ∀ j, k ≤ j → j * S.blockSize < k * S.blockSize + off + inPtr.length →
      faults.RaisesLate S.blockSize j)
    (h : S.Ready faults 0 (max size (k * S.blockSize)) o)
    (hmerge : S.MergeReads size (k * S.blockSize + off + inPtr.length) faults) :
    Yields (S.blockFile.writeLoop size (S.blockFile.lastNonEmptyBlock size) fuel k off inPtr) o
      (fun _ o' => S.Coherent o') fun _ o' => S.Coherent o' := by
  induction fuel generalizing o k off inPtr with
  | zero => exact Yields.pure h.coherent
  | succ fuel ih =>
    have hbs : S.blockFile.blockSize = S.blockSize := rfl
    rw [writeLoop]
    by_cases hnil : inPtr = []
    · rw [if_pos hnil]
      exact Yields.pure h.coherent
    rw [if_neg hnil]
    have hpos := List.length_pos_iff.mpr hnil
    simp only [hbs]
    generalize ht : min (S.blockSize - off) inPtr.length = t
    have hchunk : (inPtr.take t).length = t := by
      rw [List.length_take]
      omega
    refine Yields.bind ((blockToWrite_yields h.coherent h.length_le ?_ ?_).mono ?_ fun _ _ => id)
    · rw [hchunk]
      omega
    · intro hfail
      rw [hchunk]
      by_cases hfull : off + t = S.blockSize
      · exact .inl hfull
      have hend : k * S.blockSize + off + inPtr.length = (off + t) + S.blockSize * k := by
        rw [Nat.mul_comm]
        omega
      rw [h.faults_eq] at hfail
      rw [MergeReads, hend, Nat.add_mul_div_left _ _ S.blockSize_pos, Nat.add_mul_mod_self_left,
        Nat.div_eq_of_lt (by omega), Nat.mod_eq_of_lt (by omega), Nat.zero_add] at hmerge
      have := hmerge hfail
      rw [Nat.mul_comm] at this
      omega
    rintro data o₁ ⟨hfile, hlen, hcover⟩
    have hnext : (k + 1) * S.blockSize = k * S.blockSize + S.blockSize := Nat.succ_mul _ _
    have htop := h.length_le
    refine Yields.bind ((cacheWriteOneBlock_yields (n := 0)
      (T := max size ((k + 1) * S.blockSize)) (hfile ▸ h.faults_eq)
      (fun _ => hlate k (Nat.le_refl k) (by omega)) (by rw [hfile]; omega)
      (by omega) hlen (hfile ▸ hcover) (.inr (Nat.zero_le _))).mono ?_ fun _ _ => id)
    intro ok o₂ h₂
    cases ok with
    | false => exact Yields.pure h₂.coherent
    | true =>
      refine ih (k + 1) 0 (inPtr.drop t) S.blockSize_pos (fun j hj hlt => ?_) h₂ fun hfail => ?_
      · refine hlate j (by omega) ?_
        rw [List.length_drop] at hlt
        have hle : (k + 1) * S.blockSize ≤ j * S.blockSize := Nat.mul_le_mul_right _ hj
        omega
      by_cases hmore : t < inPtr.length
      · have hend : (k + 1) * S.blockSize + 0 + (inPtr.drop t).length =
            k * S.blockSize + off + inPtr.length := by
          rw [List.length_drop]
          omega
        rw [hend] at hfail ⊢
        exact hmerge hfail
      · rw [List.drop_of_length_le (by omega)]
        exact .inl (by simp)

lemma write_yields {offset : ℕ} {data : Bytes} (hc : S.Coherent o) (hf : o.file.faults = faults)
    (hlate : faults.RaiseLate S.blockSize (min o.file.raw.length offset) (offset + data.length))
    (hmerge : S.MergeReads o.file.raw.length (offset + data.length) faults) :
    Yields (S.blockFile.write offset data) o
      (fun _ o' => S.Coherent o') fun _ o' => S.Coherent o' := by
  have hbs : S.blockFile.blockSize = S.blockSize := rfl
  have hdiv := Nat.div_add_mod' offset S.blockSize
  refine write_yields_of_size (show S.blockFile.getSize o.file = .ok _ o.file from rfl) ?_
  have hgap : Yields (S.blockFile.fillGap o.file.raw.length offset) o
      (fun _ o' => S.Ready faults 0 (max o.file.raw.length
        (offset / S.blockSize * S.blockSize)) o') fun _ o' => S.Coherent o' := by
    have hfirm : S.Firm 0 o := fun _ => .inr (Nat.zero_le _)
    rw [fillGap]
    split
    case isTrue hlt =>
      have hlate' : faults.RaiseLate S.blockSize o.file.raw.length offset := by
        rw [Nat.min_eq_left (Nat.le_of_lt hlt)] at hlate
        exact fun k hk hk' => hlate k hk (by omega)
      exact padFile_yields hlate' hlt hf (Nat.le_max_left _ _) (Nat.le_max_right _ _)
        (fun h => by cases h) (.inl ⟨hc, hfirm⟩)
    case isFalse => exact Yields.pure ⟨hc, hfirm, hf, Nat.le_max_left _ _⟩
  refine Yields.bind (hgap.mono (fun _ o₁ h₁ => ?_) fun _ _ => id)
  have hstart : min o.file.raw.length offset / S.blockSize ≤ offset / S.blockSize :=
    Nat.div_le_div_right (Nat.min_le_right _ _)
  simp only [hbs]
  split
  case isTrue hone =>
    have hk : offset = offset / S.blockSize * S.blockSize := by omega
    have htop := h₁.length_le
    have hdiv' := Nat.div_add_mod' o.file.raw.length S.blockSize
    have hcover : data.length = S.blockSize ∨
        o₁.file.raw.length ≤ offset / S.blockSize * S.blockSize + data.length := by
      rcases hone.2.2 with hfull | ⟨hlast, hle⟩
      · exact .inl hfull
      · rw [hlast] at htop ⊢
        omega
    have hlate' (hne : data ≠ []) : faults.RaisesLate S.blockSize (offset / S.blockSize) := by
      have hpos := List.length_pos_iff.mpr hne
      exact hlate _ hstart (by omega)
    have hwrite := cacheWriteOneBlock_yields (n := 0) (k := offset / S.blockSize)
      (T := o₁.file.raw.length + (offset + data.length)) h₁.faults_eq hlate' (by omega) (by omega)
      hone.2.1 hcover (.inr (Nat.zero_le _))
    rw [← hk] at hwrite
    exact hwrite.mono (fun _ _ h => h.coherent) fun _ _ => id
  case isFalse =>
    refine writeLoop_yields _ _ _ _ (Nat.mod_lt _ S.blockSize_pos) (fun j hj hlt => ?_) h₁ ?_
    · rw [hdiv] at hlt
      exact hlate j (Nat.le_trans hstart hj) hlt
    · rwa [hdiv]

end Writes

section Truncates

open BlockFileIO

def resized (size : ℕ) (o : Cached FaultyFile) : Cached FaultyFile :=
  { o with file := { o.file with raw := resize 0 o.file.raw size } }

lemma truncateBase_yields (o : Cached FaultyFile) (size : ℕ) :
    Yields (Cached.lift (truncateBase size)) o
      (fun _ o' => (o.file.faults.truncate = none ∧ o' = resized size o) ∨
        (o.file.faults.truncate = some .fails ∧ o' = o))
      fun _ o' => o.file.faults.truncate = some .raises ∧ o' = o := by
  refine Cached.lift_yields ?_
  rw [truncateBase]
  apply Yields.get
  cases ht : o.file.faults.truncate with
  | none => exact Yields.set (Yields.pure (.inl ⟨rfl, rfl⟩))
  | some fault =>
    cases fault with
    | fails => exact Yields.pure (.inr ⟨rfl, rfl⟩)
    | raises => exact Yields.of_error rfl ⟨rfl, rfl⟩

lemma firm_of_whole (hc : S.Coherent o) (h : o.file.raw.length % S.blockSize = 0) :
    S.Firm n o := by
  intro hne
  obtain ⟨k, -, hdata⟩ := hc hne
  have hpos := List.length_pos_iff.mpr hne
  have hdiv := Nat.div_add_mod' o.file.raw.length S.blockSize
  rw [hdata, block_length] at hpos ⊢
  have hlt : k * S.blockSize < o.file.raw.length / S.blockSize * S.blockSize := by omega
  have hle : (k + 1) * S.blockSize ≤ o.file.raw.length / S.blockSize * S.blockSize :=
    Nat.mul_le_mul_right _ (Nat.lt_of_mul_lt_mul_right hlt)
  rw [Nat.succ_mul] at hle
  exact .inl (by omega)

lemma Coherent.extend (hc : S.Coherent o) (hfirm : S.Firm n o) (hn : o.file.raw.length ≤ n) :
    S.Coherent (resized n o) := by
  intro hne
  obtain ⟨k, hk, hdata⟩ := hc hne
  refine ⟨k, hk, ?_⟩
  change o.cache.data = S.codec.decode k (slice (resize 0 o.file.raw n) _ _)
  rcases hfirm hne with hwhole | hle
  · rw [hdata, block_length] at hwhole
    have hpos := S.blockSize_pos
    rw [slice_resize_block _ _ (by rw [Nat.succ_mul]; omega) hn]
    exact hdata
  · rw [resize_eq_take 0 hle, List.take_of_length_le hn]
    exact hdata

lemma Coherent.cut (hc : S.Coherent o) {size : ℕ} (hsize : size ≤ o.file.raw.length)
    (hmod : size % S.blockSize = 0) (hbefore : o.cache.data ≠ [] → o.cache.offset < size) :
    S.Coherent (resized size o) := by
  intro hne
  obtain ⟨k, hk, hdata⟩ := hc hne
  have hlt := hbefore hne
  have hdiv := Nat.div_add_mod' size S.blockSize
  have hk' : k < size / S.blockSize := by
    refine Nat.lt_of_mul_lt_mul_right (a := S.blockSize) ?_
    omega
  refine ⟨k, hk, ?_⟩
  change o.cache.data = S.codec.decode k (slice (resize 0 o.file.raw size) _ _)
  rw [resize_eq_take 0 hsize, show size = size / S.blockSize * S.blockSize by omega,
    slice_take_block _ hk']
  exact hdata

variable {size : ℕ}

def Finishes (S : FaultyStore) (size : ℕ) (o : Cached FaultyFile) : Prop :=
  if o.file.faults.truncate = none then S.Coherent (resized size o) else S.Coherent o

lemma Finishes.yields (h : S.Finishes size o) :
    Yields (Cached.lift (truncateBase size)) o
      (fun _ o' => S.Coherent o') fun _ o' => S.Coherent o' := by
  refine (truncateBase_yields o size).mono ?_ ?_
  · rintro res o' (⟨ht, rfl⟩ | ⟨ht, rfl⟩)
    · rwa [Finishes, if_pos ht] at h
    · rwa [Finishes, if_neg (by rw [ht]; simp)] at h
  · rintro e o' ⟨ht, rfl⟩
    rwa [Finishes, if_neg (by rw [ht]; simp)] at h

lemma Ready.finishes (h : S.Ready faults size size o) : S.Finishes size o := by
  rw [Finishes]
  split
  · exact h.coherent.extend h.firm h.length_le
  · exact h.coherent

lemma whole_finishes (hc : S.Coherent o) (hsize : size < o.file.raw.length)
    (hmod : size % S.blockSize = 0) (hcuts : S.Cuts o.cache size o.file.faults) :
    S.Finishes size o := by
  rw [Cuts, if_pos hmod] at hcuts
  rw [Finishes]
  split
  case isTrue ht => exact hc.cut (Nat.le_of_lt hsize) hmod (hcuts ht)
  case isFalse => exact hc

lemma coherent_landed_cut {f : FaultyFile} {d : Bytes} (hlen : d.length = size % S.blockSize)
    (hpos : size % S.blockSize ≠ 0) :
    S.Coherent (resized size ⟨⟨size / S.blockSize * S.blockSize, d⟩,
      S.landed f (size / S.blockSize) (S.codec.encode (size / S.blockSize) d)⟩) := by
  refine fun _ => ⟨size / S.blockSize, rfl, ?_⟩
  have hmod := Nat.mod_lt size S.blockSize_pos
  have hdiv := Nat.div_add_mod' size S.blockSize
  have he := S.codec.encode_length (size / S.blockSize) d (by omega)
  have hne : S.codec.encode (size / S.blockSize) d ≠ [] := by
    intro h
    rw [h] at he
    exact hpos (hlen ▸ he.symm)
  simp only [resized, landed, land, if_neg hne, block]
  have hcut : resize 0 (splice 0 f.raw (size / S.blockSize * S.blockSize)
      (S.codec.encode (size / S.blockSize) d)) size =
        resize 0 f.raw (size / S.blockSize * S.blockSize) ++
          S.codec.encode (size / S.blockSize) d := by
    rw [resize_eq_take 0 (by rw [splice_length]; omega), ← take_splice]
    congr 1
    omega
  have hslice := slice_append_right (resize 0 f.raw (size / S.blockSize * S.blockSize))
    (S.codec.encode (size / S.blockSize) d) S.blockSize
  rw [resize_length, List.take_of_length_le (by omega)] at hslice
  rw [hcut, hslice, S.codec.decode_encode (by omega)]

variable (hc : S.Coherent o)
include hc

lemma truncate_none_yields (hpass : S.passesBase = false)
    (hgrows : o.file.raw.length < size → S.Grows o.file.raw.length size o.file.faults)
    (hcuts : size < o.file.raw.length → S.Cuts o.cache size o.file.faults) :
    Yields (S.blockFile.truncate size none) o
      (fun res o' => res = 0 ∧ S.Finishes size o') fun _ o' => S.Coherent o' := by
  have hbs : S.blockFile.blockSize = S.blockSize := rfl
  refine truncate_yields_of_size (show S.blockFile.getSize o.file = .ok _ o.file from rfl) ?_
  rw [truncateSized]
  simp only [hbs]
  by_cases hgrow : o.file.raw.length < size
  · rw [if_pos hgrow]
    have hready : (S.Coherent o ∧ S.Firm size o) ∨
        (true = true ∧ o.file.raw.length % S.blockSize ≠ 0) := by
      by_cases hmod : o.file.raw.length % S.blockSize = 0
      · exact .inl ⟨hc, firm_of_whole hc hmod⟩
      · exact .inr ⟨rfl, hmod⟩
    have hlate := (hgrows hgrow).resolve_left fun h => by
      rw [hpass] at h
      cases h.1
    refine Yields.bind (Yields.pure (Yields.bind ?_))
    exact (padFile_yields hlate hgrow (T := size) rfl (Nat.le_of_lt hgrow)
      (Nat.div_mul_le_self _ _) (fun _ => ⟨rfl, Nat.le_refl _⟩) hready).mono
      (fun _ _ h => Yields.pure ⟨rfl, h.finishes⟩) fun _ _ => id
  rw [if_neg hgrow]
  by_cases hsame : size = o.file.raw.length
  · rw [if_pos hsame]
    have hfirm : S.Firm size o := fun _ => .inr (Nat.le_of_eq hsame)
    exact Yields.pure ⟨rfl, Ready.finishes ⟨hc, hfirm, rfl, Nat.le_of_eq hsame.symm⟩⟩
  rw [if_neg hsame]
  have hlt : size < o.file.raw.length := by omega
  by_cases hmod : size % S.blockSize = 0
  · rw [if_neg (not_not_intro hmod)]
    exact Yields.pure ⟨rfl, whole_finishes hc hlt hmod (hcuts hlt)⟩
  rw [if_pos hmod]
  have hcuts := hcuts hlt
  simp only [Cuts, if_neg hmod, hpass, Bool.false_eq_true, if_false] at hcuts
  refine Yields.bind ((cacheReadOneBlock_yields o _ _).mono ?_ ?_)
  · rintro block o₁ ⟨hfile, -, -⟩
    have hlen : (padded block (size % S.blockSize)).length = size % S.blockSize :=
      resize_length _ _ _
    refine Yields.bind (Yields.pure (Yields.bind
      ((cacheWriteOneBlock_outcomes o₁ _ _).mono ?_ ?_)))
    · rintro ok o₂ (⟨hw, rfl⟩ | ⟨m, hw, rfl⟩)
      · rw [hfile] at hw
        obtain ⟨m, hm⟩ | ⟨h, -⟩ | ⟨ht, -⟩ := hcuts
        · rw [hw] at hm
          cases hm
        · cases h
        · refine Yields.pure ⟨rfl, ?_⟩
          rw [Finishes, if_pos (by exact hfile ▸ ht)]
          exact coherent_landed_cut hlen hmod
      · refine Yields.pure ⟨rfl, ?_⟩
        rw [Finishes]
        split <;> exact coherent_of_empty rfl
    · rintro e o₂ ⟨m, hw, rfl⟩
      rw [hfile] at hw
      obtain ⟨m', hm⟩ | ⟨h, -⟩ | ⟨-, h⟩ := hcuts
      · rw [hw] at hm
        cases hm
      · cases h
      · exact absurd ⟨m, hw⟩ h
  · exact fun _ _ he => coherent_of_empty he.2

lemma grown_yields (hgrow : o.file.raw.length < size)
    (hgrows : (S.passesBase = true ∧ o.file.faults.truncate = some .raises) ∨
      o.file.faults.RaiseLate S.blockSize o.file.raw.length size) :
    Yields (S.blockFile.truncateSized o.file.raw.length size (some truncateBase)) o
      (fun _ o' => S.Coherent o') fun _ o' => S.Coherent o' := by
  rw [truncateSized, if_pos hgrow]
  refine Yields.bind ((truncateBase_yields o size).mono (fun res o₁ hres => ?_) ?_)
  · have hend : size / S.blockSize * S.blockSize ≤ size := Nat.div_mul_le_self _ _
    have hlate := hgrows.resolve_left fun h => by
      rcases hres with ⟨hres, -⟩ | ⟨hres, -⟩ <;> rw [h.2] at hres <;> cases hres
    have hfaults : o₁.file.faults = o.file.faults := by
      rcases hres with ⟨-, rfl⟩ | ⟨-, rfl⟩ <;> rfl
    have hlen : o₁.file.raw.length ≤ size := by
      rcases hres with ⟨-, rfl⟩ | ⟨-, rfl⟩
      · exact Nat.le_of_eq (resize_length _ _ _)
      · exact Nat.le_of_lt hgrow
    have hready : (S.Coherent o₁ ∧ S.Firm size o₁) ∨
        (true = true ∧ o.file.raw.length % S.blockSize ≠ 0) := by
      by_cases hmod : o.file.raw.length % S.blockSize = 0
      · have hfirm := firm_of_whole (n := size) hc hmod
        rcases hres with ⟨-, rfl⟩ | ⟨-, rfl⟩
        · exact .inl ⟨hc.extend hfirm (Nat.le_of_lt hgrow),
            fun _ => .inr (Nat.le_of_eq (resize_length _ _ _).symm)⟩
        · exact .inl ⟨hc, hfirm⟩
      · exact .inr ⟨rfl, hmod⟩
    exact Yields.bind ((padFile_yields hlate hgrow (T := size) hfaults hlen hend
      (fun _ => ⟨rfl, Nat.le_refl _⟩) hready).mono
      (fun _ _ h => Yields.pure h.coherent) fun _ _ => id)
  · rintro e o₁ ⟨-, rfl⟩
    exact hc

omit hc in
lemma cut_landed_yields (block : Option Bytes)
    (hlate : o.file.faults.RaisesLate S.blockSize (size / S.blockSize)) :
    Yields (S.blockFile.cacheWriteOneBlock (size / S.blockSize * S.blockSize)
        (padded block (size % S.blockSize))) (resized size o)
      (fun _ o' => S.Coherent o') fun _ o' => S.Coherent o' := by
  have hlen : (padded block (size % S.blockSize)).length = size % S.blockSize :=
    resize_length _ _ _
  have hraw : (resized size o).file.raw.length = size := resize_length _ _ _
  have hdiv := Nat.div_add_mod' size S.blockSize
  have hlt := Nat.mod_lt size S.blockSize_pos
  exact (cacheWriteOneBlock_yields (o := resized size o) (n := 0) (T := size) rfl (fun _ => hlate)
    (Nat.le_of_eq hraw) (by omega) (by omega) (.inr (by omega)) (.inr (Nat.zero_le _))).mono
      (fun _ _ h => h.coherent) fun _ _ => id

lemma cut_yields (hpass : S.passesBase = true) (hlt : size < o.file.raw.length)
    (hmod : size % S.blockSize ≠ 0) (hcuts : S.Cuts o.cache size o.file.faults) :
    Yields (S.blockFile.truncateSized o.file.raw.length size (some truncateBase)) o
      (fun _ o' => S.Coherent o') fun _ o' => S.Coherent o' := by
  have hbs : S.blockFile.blockSize = S.blockSize := rfl
  simp only [Cuts, if_neg hmod, hpass, if_true, true_and] at hcuts
  simp only [truncateSized, hbs, baseTruncate]
  rw [if_neg (by omega), if_neg (by omega), if_pos hmod]
  refine Yields.bind ((cacheReadOneBlock_yields o _ _).mono ?_ ?_)
  · rintro block o₁ ⟨hfile, hread, -⟩
    rw [← hfile] at hcuts
    refine Yields.bind ((truncateBase_yields o₁ size).mono ?_ ?_)
    · rintro res o₂ (⟨ht, rfl⟩ | ⟨ht, rfl⟩)
      · have hlate : o₁.file.faults.RaisesLate S.blockSize (size / S.blockSize) := by
          intro m' hm'
          obtain ⟨m, hm⟩ | h | ⟨-, h⟩ := hcuts
          · rw [hm] at hm'
            cases hm'
          · rw [ht] at h
            cases h
          · exact h m' hm'
        exact Yields.bind ((cut_landed_yields block hlate).mono (fun _ _ h => Yields.pure h)
          fun _ _ => id)
      · obtain ⟨m, hm⟩ | h | ⟨h, -⟩ := hcuts
        · refine Yields.bind ((cacheWriteOneBlock_outcomes o₂ _ _).mono ?_ ?_)
          · rintro ok o₃ (⟨hw, rfl⟩ | ⟨m', -, rfl⟩)
            · rw [hm] at hw
              cases hw
            · exact Yields.pure (coherent_of_empty rfl)
          · rintro e o₃ ⟨m', hw, rfl⟩
            rw [hm] at hw
            cases hw
        · rw [ht] at h
          cases h
        · rw [ht] at h
          cases h
    · rintro e o₂ ⟨-, rfl⟩
      exact (hread hc).1
  · exact fun _ _ he => coherent_of_empty he.2

lemma truncate_some_yields (hpass : S.passesBase = true)
    (hgrows : o.file.raw.length < size → S.Grows o.file.raw.length size o.file.faults)
    (hcuts : size < o.file.raw.length → S.Cuts o.cache size o.file.faults) :
    Yields (S.blockFile.truncate size (some truncateBase)) o
      (fun _ o' => S.Coherent o') fun _ o' => S.Coherent o' := by
  refine truncate_yields_of_size (show S.blockFile.getSize o.file = .ok _ o.file from rfl) ?_
  by_cases hgrow : o.file.raw.length < size
  · exact grown_yields hc hgrow (hgrows hgrow)
  by_cases hlt : size < o.file.raw.length
  · by_cases hmod : size % S.blockSize = 0
    · have hwhole := (whole_finishes hc hlt hmod (hcuts hlt)).yields
      have hwhole' : ¬ size % S.blockFile.blockSize ≠ 0 := not_not_intro hmod
      rw [truncateSized, if_neg hgrow, if_neg (Nat.ne_of_lt hlt), if_neg hwhole']
      exact hwhole
    · exact cut_yields hc hpass hlt hmod (hcuts hlt)
  · rw [truncateSized, if_neg hgrow, if_pos (by omega)]
    exact Yields.pure hc

lemma truncate_yields
    (hgrows : o.file.raw.length < size → S.Grows o.file.raw.length size o.file.faults)
    (hcuts : size < o.file.raw.length → S.Cuts o.cache size o.file.faults) :
    Yields (S.truncate size) o (fun _ o' => S.Coherent o') fun _ o' => S.Coherent o' := by
  rw [FaultyStore.truncate]
  cases hpass : S.passesBase with
  | true => exact truncate_some_yields hc hpass hgrows hcuts
  | false =>
    refine Yields.bind ((truncate_none_yields hc hpass hgrows hcuts).mono ?_ fun _ _ => id)
    rintro res o' ⟨rfl, hfin⟩
    exact hfin.yields

end Truncates

section Runs

lemma step_coherent {op : Operation} (hc : S.Coherent o) (careful : S.Careful o op faults) :
    S.Coherent (S.step o op faults) := by
  have hc' : S.Coherent (withFaults faults o) := hc
  have hdone {x : Action (Cached FaultyFile) PUnit}
      (h : Yields x (withFaults faults o) (fun _ o' => S.Coherent o') fun _ o' => S.Coherent o') :
      S.Coherent (finalState x (withFaults faults o)) := h.final
  apply hdone
  cases op with
  | request q =>
    refine Yields.bind (Yields.mono ?_ (fun _ _ h => Yields.pure h) fun _ _ => id)
    cases q with
    | read offset m =>
      refine Yields.bind ((read_yields hc' offset m).mono ?_ ?_)
      · exact fun r o' hr => Yields.pure hr.2.1
      · exact fun _ _ he => coherent_of_empty he.2
    | write offset data =>
      obtain ⟨hlate, hmerge⟩ := careful
      exact Yields.bind ((write_yields hc' rfl hlate hmerge).mono (fun _ _ h => Yields.pure h)
        fun _ _ => id)
  | truncate size =>
    obtain ⟨hgrows, hcuts⟩ := careful
    exact Yields.bind ((truncate_yields hc' hgrows hcuts).mono (fun _ _ h => Yields.pure h)
      fun _ _ => id)

lemma Reached.coherent (h : S.Reached S.Careful o) : S.Coherent o := by
  induction h with
  | fresh file => exact coherent_of_empty rfl
  | step h op faults careful ih => exact step_coherent ih careful

/-- In every state that careful calls lead to, the cache holds what the store holds, and whatever
goes wrong in a read, it returns bytes of the file. -/
theorem reached_cacheTrue (h : S.Reached S.Careful o) :
    S.CacheTrue o ∧ ∀ (faults : Faults) (offset m : ℕ),
      Yields (S.blockFile.accessors.read offset m) (withFaults faults o)
        (fun r _ => ∀ out, r = some out → out <+: slice (S.content o.file.raw) offset m)
        fun _ _ => True := by
  refine ⟨fun hne => ?_, fun faults offset m => ?_⟩
  · obtain ⟨k, hk, hdata⟩ := h.coherent hne
    have hdiv : k * S.blockSize / S.blockSize = k := Nat.mul_div_cancel k S.blockSize_pos
    rw [hk, hdata]
    change S.readOneBlock _ _ _ = _
    simp only [readOneBlock, Action.get_bind, Faults.none, hdiv, block]
    rfl
  · have hc : S.Coherent (withFaults faults o) := h.coherent
    exact (read_yields hc offset m).mono (fun _ _ hr => hr.2.2) fun _ _ _ => trivial

def plainBlocks : FaultyStore where
  blockSize := 4
  blockSize_gt := by decide
  allowHoles := false
  codec := ⟨fun _ d => d, fun _ d => d, fun _ _ _ => rfl, fun _ _ _ => rfl, fun _ => rfl⟩
  passesBase := true

def cutAtBlock : Cached FaultyFile :=
  plainBlocks.step (plainBlocks.step ⟨Cache.empty, ⟨[], .none⟩⟩
    (.request (.write 0 [1, 2, 3, 4, 5])) .none) (.truncate 4) .none

theorem not_reached_cacheTrue :
    (¬∀ (S : FaultyStore) (o : Cached FaultyFile), S.Reached (fun _ _ _ => True) o →
      S.CacheTrue o) ∧
      cutAtBlock.file.raw = [1, 2, 3, 4] ∧
      plainBlocks.blockFile.accessors.read 4 1 cutAtBlock = .ok (some [5]) cutAtBlock := by
  refine ⟨fun h => ?_, rfl, rfl⟩
  have htrue := h plainBlocks cutAtBlock (.step (.step (.fresh _) _ _ trivial) _ _ trivial)
    (List.cons_ne_nil 5 [])
  cases htrue

def secondFails : Faults :=
  { Faults.none with write := fun k => if k = 1 then some (.fails, 0) else none }

def cutInBlock : Cached FaultyFile :=
  plainBlocks.step (plainBlocks.step ⟨Cache.empty, ⟨[], .none⟩⟩
    (.request (.write 0 [1, 2, 3, 4, 5])) secondFails) (.truncate 3) .none

theorem reached_cacheTrue_cutInBlock :
    plainBlocks.CacheTrue cutInBlock ∧ ∀ (faults : Faults) (offset m : ℕ),
      Yields (plainBlocks.blockFile.accessors.read offset m) (withFaults faults cutInBlock)
        (fun r _ => ∀ out, r = some out →
          out <+: slice (plainBlocks.content cutInBlock.file.raw) offset m)
        fun _ _ => True := by
  have hfresh : plainBlocks.Reached plainBlocks.Careful ⟨Cache.empty, ⟨[], .none⟩⟩ := .fresh _
  have hlate (k : ℕ) : secondFails.RaisesLate 4 k := by
    intro m h
    change (if k = 1 then some (Fault.fails, 0) else none) = some (Fault.raises, m) at h
    split at h <;> cases h
  have hwritten := hfresh.step (.request (.write 0 [1, 2, 3, 4, 5])) secondFails
    ⟨fun k _ _ => hlate k, fun h => by cases h⟩
  exact reached_cacheTrue (hwritten.step (.truncate 3) .none
    ⟨fun h => absurd h (by decide), fun _ => .inr (.inr ⟨rfl, fun m h => by cases h⟩)⟩)

end Runs

end FaultyStore

end EncFS
