import EncFS.BlockFileIO.Model
import EncFS.Blockwise

set_option autoImplicit false

namespace EncFS.BlockFileIO

open FlatArray Cached

variable {σ : Type} (B : BlockFileIO σ)

/-- The writes a derived class has to be able to store: whole blocks, or a last block that hides
nothing. Only where holes are allowed may a write leave blocks behind it unwritten. -/
structure Placed (c : Bytes) (k : ℕ) (d : Bytes) : Prop where
  nonempty : d ≠ []
  length_le : d.length ≤ B.blockSize
  whole_or_last : d.length = B.blockSize ∨ c.length ≤ k * B.blockSize + d.length
  no_gap : k * B.blockSize ≤ c.length ∨ (B.allowHoles = true ∧ B.blockSize ∣ c.length)

def flatModel : BlockModel Bytes where
  size := List.length
  block c k := slice c (k * B.blockSize) B.blockSize
  put c k d := splice 0 c (k * B.blockSize) d
  Placed := B.Placed

/-- Primitives that never fail and that store and return blocks faithfully: `R s c` reads "the
blocks stored in `s` make up the content `c`". -/
abbrev BlockStore (R : σ → Bytes → Prop) : Prop := B.Implements B.flatModel R

def Coherent (c : Bytes) (cache : Cache) : Prop :=
  cache.data ≠ [] → ∃ k, cache.offset = k * B.blockSize ∧
    cache.data = slice c (k * B.blockSize) B.blockSize

def Settled (c : Bytes) (cache : Cache) : Prop :=
  cache.data ≠ [] → ∃ k, cache.offset = k * B.blockSize ∧
    (cache.data = slice c (k * B.blockSize) B.blockSize ∨ c.length ≤ k * B.blockSize)

variable {B}

lemma Coherent.settled {c : Bytes} {cache : Cache} (h : B.Coherent c cache) :
    B.Settled c cache := by
  intro hd
  obtain ⟨k, ho, hk⟩ := h hd
  exact ⟨k, ho, .inl hk⟩

lemma coherent_nil {c : Bytes} {off : ℕ} : B.Coherent c ⟨off, []⟩ := fun h => (h rfl).elim

lemma coherent_block (c : Bytes) (k : ℕ) :
    B.Coherent c ⟨k * B.blockSize, slice c (k * B.blockSize) B.blockSize⟩ :=
  fun _ => ⟨k, rfl, rfl⟩

lemma coherent_cut (c : Bytes) (n : ℕ) :
    B.Coherent (c.take n) ⟨n / B.blockSize * B.blockSize,
      slice c (n / B.blockSize * B.blockSize) (n % B.blockSize)⟩ := by
  have hdiv := Nat.div_add_mod' n B.blockSize
  have hlt := Nat.mod_lt n B.blockSize_pos
  have hmin : min B.blockSize (n - n / B.blockSize * B.blockSize) = n % B.blockSize := by
    omega
  refine fun _ => ⟨n / B.blockSize, rfl, ?_⟩
  rw [slice_take, hmin]

lemma coherent_splice {c d : Bytes} {k : ℕ} (h : B.Placed c k d) :
    B.Coherent (splice 0 c (k * B.blockSize) d) ⟨k * B.blockSize, d⟩ :=
  fun _ => ⟨k, rfl, (slice_splice_same 0 c _ _ d h.length_le h.whole_or_last).symm⟩

lemma lookup_eq {c : Bytes} {cache : Cache} {k : ℕ} (hs : B.Settled c cache)
    (h : k * B.blockSize < c.length ∨ B.Coherent c cache) :
    B.lookup cache (slice c (k * B.blockSize) B.blockSize) k =
      slice c (k * B.blockSize) B.blockSize := by
  rw [lookup]
  split
  · rename_i hit
    rcases h with hlt | hc
    · obtain ⟨j, hj, hd⟩ := hs hit.2
      obtain rfl := block_inj (hit.1.trans hj)
      exact hd.resolve_right (by omega)
    · obtain ⟨j, hj, hd⟩ := hc hit.2
      obtain rfl := block_inj (hit.1.trans hj)
      exact hd
  · rfl

lemma coherent_afterRead {c : Bytes} {cache : Cache} (k : ℕ) (h : B.Coherent c cache) :
    B.Coherent c (B.afterRead cache (slice c (k * B.blockSize) B.blockSize) k) := by
  rw [afterRead]
  split
  · exact h
  · split
    · exact coherent_nil
    · exact coherent_block c k

lemma settled_afterRead {c : Bytes} {cache : Cache} (k : ℕ) (h : B.Settled c cache) :
    B.Settled c (B.afterRead cache (slice c (k * B.blockSize) B.blockSize) k) := by
  rw [afterRead]
  split
  · exact h
  · split
    · exact coherent_nil.settled
    · exact (coherent_block c k).settled

lemma coherent_extend {c : Bytes} {cache : Cache} (h : B.Coherent c cache) {n : ℕ}
    (hn : c.length ≤ n) (hwhole : c.length % B.blockSize = 0) :
    B.Coherent (resize 0 c n) cache := by
  intro hne
  obtain ⟨k, hoffset, hdata⟩ := h hne
  refine ⟨k, hoffset, ?_⟩
  have hlt : k * B.blockSize < c.length := by
    by_contra hge
    exact hne (hdata.trans (slice_eq_nil (Nat.not_lt.mp hge)))
  obtain ⟨q, hq⟩ := Nat.dvd_of_mod_eq_zero hwhole
  rw [Nat.mul_comm] at hq
  rw [hq] at hlt
  have hle := Nat.mul_le_mul_right B.blockSize
    (show k + 1 ≤ q from Nat.lt_of_mul_lt_mul_right hlt)
  rw [hdata, slice_resize_block 0 c (hq ▸ hle) hn]

variable {R : σ → Bytes → Prop}

section Reading

variable (hB : B.Reads B.flatModel R)
include hB

lemma cacheReadOneBlock_spec {o : Cached σ} {c : Bytes} (k n : ℕ) (hR : R o.file c)
    (hs : B.Settled c o.cache) :
    ∃ r o', B.cacheReadOneBlock (k * B.blockSize) n o = .ok (some r) o' ∧ R o'.file c ∧
      B.Settled c o'.cache ∧ (B.Coherent c o.cache → B.Coherent c o'.cache) ∧
      (k * B.blockSize < c.length ∨ B.Coherent c o.cache →
        r = (slice c (k * B.blockSize) B.blockSize).take n) := by
  obtain ⟨s', he, hR'⟩ := cacheReadOneBlock_run hB o.cache k n hR
  exact ⟨_, _, he, hR', settled_afterRead k hs, coherent_afterRead k,
    fun h => congrArg (List.take n) (lookup_eq hs h)⟩

omit hB in
lemma cacheWriteOneBlock_spec (hB : B.BlockStore R) {o : Cached σ} {c d : Bytes} {k : ℕ} (hR : R o.file c)
    (hp : B.Placed c k d) :
    ∃ o', B.cacheWriteOneBlock (k * B.blockSize) d o = .ok true o' ∧
      R o'.file (splice 0 c (k * B.blockSize) d) ∧
      B.Coherent (splice 0 c (k * B.blockSize) d) o'.cache := by
  obtain ⟨s', he, hR'⟩ := cacheWriteOneBlock_run hB o.cache hR hp
  exact ⟨_, he, hR', coherent_splice hp⟩

lemma readLoop_spec {c : Bytes} (fuel : ℕ) :
    ∀ (o : Cached σ) (k p size : ℕ) (out : Bytes), size ≤ fuel → p < B.blockSize →
      R o.file c → B.Settled c o.cache →
      ∃ r o', B.readLoop fuel k p size out o = .ok r o' ∧ R o'.file c ∧ B.Settled c o'.cache ∧
        (B.Coherent c o.cache →
          B.Coherent c o'.cache ∧ r = out ++ slice c (k * B.blockSize + p) size) := by
  induction fuel with
  | zero =>
    intro o k p size out hf hp hR hs
    obtain rfl : size = 0 := by omega
    exact ⟨out, o, rfl, hR, hs, fun hc => ⟨hc, by simp⟩⟩
  | succ fuel ih =>
    intro o k p size out hf hp hR hs
    by_cases h0 : size = 0
    · subst h0
      exact ⟨out, o, by simp [readLoop], hR, hs, fun hc => ⟨hc, by simp⟩⟩
    obtain ⟨block, o₁, h₁, hR₁, hs₁, hc₁, hb⟩ :=
      cacheReadOneBlock_spec hB k B.blockSize hR hs
    rw [readLoop, if_neg h0, Action.bind_ok h₁]
    have hblock : B.Coherent c o.cache → block = slice c (k * B.blockSize) B.blockSize :=
      fun hc => by simpa using hb (.inr hc)
    have hlen : B.Coherent c o.cache →
        block.length = min B.blockSize (c.length - k * B.blockSize) :=
      fun hc => by rw [hblock hc, slice_length]
    by_cases hle : block.length ≤ p
    · refine ⟨out, o₁, by simp only [if_pos hle]; rfl, hR₁, hs₁, fun hc => ⟨hc₁ hc, ?_⟩⟩
      have := hlen hc
      rw [slice_eq_nil (by omega), List.append_nil]
    have hcopy : B.Coherent c o.cache → slice block p (min (block.length - p) size) =
        slice c (k * B.blockSize + p) (min (block.length - p) size) := by
      intro hc
      have := hlen hc
      rw [hblock hc, slice_slice, ← hblock hc]
      exact slice_congr (by omega)
    by_cases hlt : block.length < B.blockSize
    · refine ⟨_, o₁, by simp only [if_neg hle, if_pos hlt]; rfl, hR₁, hs₁,
        fun hc => ⟨hc₁ hc, ?_⟩⟩
      have := hlen hc
      rw [hcopy hc]
      exact congrArg _ (slice_congr (by omega))
    · obtain ⟨r, o', h', hR', hs', hc'⟩ := ih o₁ (k + 1) 0 (size - min (block.length - p) size)
        (out ++ slice block p (min (block.length - p) size)) (by omega) B.blockSize_pos hR₁ hs₁
      refine ⟨r, o', by simp only [if_neg hle, if_neg hlt]; exact h', hR', hs', fun hc => ?_⟩
      have := hlen hc
      obtain ⟨hco, hr⟩ := hc' (hc₁ hc)
      refine ⟨hco, ?_⟩
      rw [hr, hcopy hc, List.append_assoc]
      congr 1
      have hnext : slice c ((k + 1) * B.blockSize + 0) (size - min (block.length - p) size) =
          slice c (k * B.blockSize + p + min (block.length - p) size)
            (size - min (block.length - p) size) := by
        rcases Nat.le_total size (block.length - p) with h | h
        · simp [Nat.min_eq_right h]
        · rw [Nat.min_eq_left h, Nat.succ_mul]
          congr 1
          omega
      rw [hnext, slice_append_slice]
      congr 1
      omega

lemma read_spec {o : Cached σ} {c : Bytes} (offset n : ℕ) (hR : R o.file c)
    (hs : B.Settled c o.cache) :
    ∃ r o', B.read offset n o = .ok (some r) o' ∧ R o'.file c ∧ B.Settled c o'.cache ∧
      (B.Coherent c o.cache → B.Coherent c o'.cache ∧ r = slice c offset n) := by
  have hdiv : offset / B.blockSize * B.blockSize + offset % B.blockSize = offset :=
    Nat.div_add_mod' offset B.blockSize
  by_cases hfast : offset % B.blockSize = 0 ∧ n ≤ B.blockSize
  · obtain ⟨r, o', h, hR', hs', hc, hr⟩ :=
      cacheReadOneBlock_spec hB (offset / B.blockSize) n hR hs
    rw [hfast.1, Nat.add_zero] at hdiv
    rw [hdiv] at h hr
    refine ⟨r, o', by simp only [read, if_pos hfast]; exact h, hR', hs', fun hco => ⟨hc hco, ?_⟩⟩
    rw [hr (.inr hco), take_slice, Nat.min_eq_left hfast.2]
  · obtain ⟨r, o', h, hR', hs', hc⟩ := readLoop_spec hB n o (offset / B.blockSize)
      (offset % B.blockSize) n [] (Nat.le_refl n) (Nat.mod_lt _ B.blockSize_pos) hR hs
    rw [hdiv, List.nil_append] at hc
    refine ⟨r, o', ?_, hR', hs', hc⟩
    simp only [read, if_neg hfast]
    rw [Action.bind_ok h]
    rfl

end Reading

def paddedSize (B : BlockFileIO σ) (oldSize newSize : ℕ) (forceWrite : Bool) : ℕ :=
  if forceWrite ∧ newSize % B.blockSize ≠ 0 then newSize
  else if oldSize / B.blockSize = newSize / B.blockSize then oldSize
  else if B.allowHoles then B.firstToPad oldSize * B.blockSize
  else newSize / B.blockSize * B.blockSize

section Padding

variable {c : Bytes}

lemma placed_append {k : ℕ} {d : Bytes} (hd : d ≠ []) (hl : d.length ≤ B.blockSize)
    (hc : k * B.blockSize ≤ c.length) (hc' : c.length ≤ k * B.blockSize + d.length) :
    B.Placed c k d :=
  ⟨hd, hl, .inr hc', .inl hc⟩

lemma puts_zeroWrites (count first : ℕ) (hc : c.length = first * B.blockSize) :
    B.flatModel.PlacedAll c (B.zeroWrites count first) ∧
      B.flatModel.puts c (B.zeroWrites count first) =
        resize 0 c ((first + count) * B.blockSize) := by
  induction count generalizing c first with
  | zero => exact ⟨trivial, by simp [zeroWrites, ← hc]⟩
  | succ count ih =>
    have hbs := B.blockSize_pos
    have hput : splice 0 c (first * B.blockSize) (List.replicate B.blockSize 0) =
        resize 0 c ((first + 1) * B.blockSize) := by
      have := splice_eq_resize (0 : UInt8) c (Nat.le_of_eq hc)
        (Nat.mul_le_mul_right B.blockSize (Nat.le_succ first))
      rwa [Nat.succ_mul, Nat.add_sub_cancel_left, ← Nat.succ_mul] at this
    have hp : B.Placed c first (List.replicate B.blockSize 0) :=
      placed_append (by simp; omega) (by simp) (by omega) (by simp; omega)
    obtain ⟨ih₁, ih₂⟩ := ih (first + 1) (c := resize 0 c ((first + 1) * B.blockSize)) (by simp)
    refine ⟨⟨hp, ?_⟩, ?_⟩
    · change B.flatModel.PlacedAll (splice 0 c (first * B.blockSize) _) _
      rw [hput]
      exact ih₁
    · change B.flatModel.puts (splice 0 c (first * B.blockSize) _) _ = _
      rw [hput]
      refine ih₂.trans ?_
      rw [resize_resize 0 c (.inr (by rw [hc]; exact Nat.mul_le_mul_right _ (by omega)))]
      congr 2
      omega

lemma firstToPad_spec (B : BlockFileIO σ) (m : ℕ) :
    m ≤ B.firstToPad m * B.blockSize ∧
      (m % B.blockSize = 0 → B.firstToPad m * B.blockSize = m) ∧
      (m % B.blockSize ≠ 0 → B.firstToPad m * B.blockSize = m / B.blockSize * B.blockSize + B.blockSize) := by
  have hdiv := Nat.div_add_mod' m B.blockSize
  have hlt := Nat.mod_lt m B.blockSize_pos
  rw [firstToPad]
  split
  · rw [Nat.succ_mul]
    omega
  · omega

lemma firstToPad_le {m n : ℕ} (hmn : m < n) (h : m / B.blockSize ≠ n / B.blockSize) :
    B.firstToPad m ≤ n / B.blockSize := by
  have := Nat.div_le_div_right (c := B.blockSize) (Nat.le_of_lt hmn)
  rw [firstToPad]
  split <;> omega

lemma paddedSize_forced (B : BlockFileIO σ) {m n : ℕ} (hmn : m < n) :
    B.paddedSize m n true = n ∨ B.allowHoles = true ∧
      B.paddedSize m n true % B.blockSize = 0 ∧ m ≤ B.paddedSize m n true ∧
        B.paddedSize m n true ≤ n := by
  have hdm := Nat.div_add_mod' m B.blockSize
  have hdn := Nat.div_add_mod' n B.blockSize
  rw [paddedSize]
  by_cases hpart : n % B.blockSize ≠ 0
  · exact .inl (if_pos ⟨rfl, hpart⟩)
  have hsame : m / B.blockSize ≠ n / B.blockSize := by
    intro hsame
    rw [hsame] at hdm
    omega
  have hfirst := Nat.mul_le_mul_right B.blockSize (firstToPad_le hmn hsame)
  rw [if_neg fun h => hpart h.2, if_neg hsame]
  split
  case isTrue hholes =>
    exact .inr ⟨hholes, Nat.mul_mod_left _ _, (firstToPad_spec B m).1, by omega⟩
  case isFalse => exact .inl (by omega)

lemma puts_padFirst {m : ℕ} (hc : c.length = m) {x : Bytes}
    (hx : x = slice c (m / B.blockSize * B.blockSize) (m % B.blockSize)) :
    B.flatModel.PlacedAll c (B.padFirstWrites x m) ∧
      B.flatModel.puts c (B.padFirstWrites x m) = resize 0 c (B.firstToPad m * B.blockSize) := by
  have hdiv := Nat.div_add_mod' m B.blockSize
  have hlt := Nat.mod_lt m B.blockSize_pos
  obtain ⟨-, hwhole, hpart⟩ := firstToPad_spec B m
  rw [padFirstWrites]
  split
  · rename_i h
    have hput : splice 0 c (m / B.blockSize * B.blockSize) (resize 0 x B.blockSize) =
        resize 0 c (B.firstToPad m * B.blockSize) := by
      rw [hpart h, hx]
      exact splice_tail 0 c (by omega) (by omega) (by omega)
    have hp : B.Placed c (m / B.blockSize) (resize 0 x B.blockSize) :=
      placed_append (List.ne_nil_of_length_pos (by simpa using B.blockSize_pos))
        (by simp) (by omega) (by simp; omega)
    exact ⟨⟨hp, trivial⟩, hput⟩
  · rename_i h
    refine ⟨trivial, ?_⟩
    rw [hwhole (by omega), ← hc]
    exact (resize_self 0 c).symm

lemma puts_padMiddle {m n : ℕ} (hc : c.length = B.firstToPad m * B.blockSize)
    (hle : B.firstToPad m ≤ n / B.blockSize) :
    B.flatModel.PlacedAll c (B.padMiddleWrites m n) ∧
      B.flatModel.puts c (B.padMiddleWrites m n) =
        resize 0 c (if B.allowHoles then B.firstToPad m * B.blockSize
          else n / B.blockSize * B.blockSize) := by
  rw [padMiddleWrites]
  split
  · rw [← hc]
    exact ⟨trivial, (resize_self 0 c).symm⟩
  · obtain ⟨h₁, h₂⟩ := puts_zeroWrites (n / B.blockSize - B.firstToPad m) _ hc
    rw [Nat.add_sub_cancel' hle] at h₂
    exact ⟨h₁, h₂⟩

lemma puts_padLast {n : ℕ} (forceWrite : Bool) (hle : c.length ≤ n / B.blockSize * B.blockSize)
    (hgap : n / B.blockSize * B.blockSize = c.length ∨
      (B.allowHoles = true ∧ B.blockSize ∣ c.length)) :
    B.flatModel.PlacedAll c (B.padLastWrites n forceWrite) ∧
      B.flatModel.puts c (B.padLastWrites n forceWrite) =
        resize 0 c (if forceWrite ∧ n % B.blockSize ≠ 0 then n else c.length) := by
  have hdiv := Nat.div_add_mod' n B.blockSize
  have hlt := Nat.mod_lt n B.blockSize_pos
  rw [padLastWrites]
  split
  · rename_i hf
    refine ⟨⟨⟨by simpa using hf.2, by simp; omega, .inr (by simp; omega), ?_⟩, trivial⟩, ?_⟩
    · exact hgap.imp_left Nat.le_of_eq
    · have := splice_eq_resize (0 : UInt8) c hle (n := n) (by omega)
      rwa [show n - n / B.blockSize * B.blockSize = n % B.blockSize by omega] at this
  · exact ⟨trivial, (resize_self 0 c).symm⟩

lemma puts_padWrites {m n : ℕ} (forceWrite : Bool) (hc : c.length = m) (hmn : m < n) {x : Bytes}
    (hx : x = slice c (m / B.blockSize * B.blockSize) (m % B.blockSize)) :
    B.flatModel.PlacedAll c (B.padWrites x m n forceWrite) ∧
      B.flatModel.puts c (B.padWrites x m n forceWrite) =
        resize 0 c (B.paddedSize m n forceWrite) := by
  have hdm := Nat.div_add_mod' m B.blockSize
  have hdn := Nat.div_add_mod' n B.blockSize
  have hlt := Nat.mod_lt n B.blockSize_pos
  rw [padWrites, paddedSize]
  by_cases hsame : m / B.blockSize = n / B.blockSize
  · rw [if_pos hsame, if_pos hsame]
    split
    · rename_i hf
      have hput : splice 0 c (m / B.blockSize * B.blockSize) (resize 0 x (n % B.blockSize)) =
          resize 0 c n := by
        rw [hx, splice_tail 0 c (by omega) (by rw [hsame] at hdm ⊢; omega) (by omega)]
        congr 1
        rw [hsame]
        omega
      have hp : B.Placed c (m / B.blockSize) (resize 0 x (n % B.blockSize)) :=
        placed_append (List.ne_nil_of_length_pos (by simp; omega)) (by simp; omega)
          (by omega) (by rw [hsame, resize_length]; omega)
      exact ⟨⟨hp, trivial⟩, hput⟩
    · rw [← hc]
      exact ⟨trivial, (resize_self 0 c).symm⟩
  · rw [if_neg hsame, if_neg hsame]
    simp only [BlockModel.placedAll_append, BlockModel.puts_append]
    have hfirst := firstToPad_le hmn hsame
    have hfirst' := Nat.mul_le_mul_right B.blockSize hfirst
    obtain ⟨hge, -, -⟩ := firstToPad_spec B m
    obtain ⟨p₁, e₁⟩ := puts_padFirst hc hx
    rw [e₁]
    obtain ⟨p₂, e₂⟩ := puts_padMiddle (n := n)
      (c := resize 0 c (B.firstToPad m * B.blockSize)) (by simp) hfirst
    rw [e₂]
    generalize hmid : (if B.allowHoles then B.firstToPad m * B.blockSize
      else n / B.blockSize * B.blockSize) = mid at *
    have hmid' : B.firstToPad m * B.blockSize ≤ mid ∧ mid ≤ n / B.blockSize * B.blockSize ∧
        (n / B.blockSize * B.blockSize = mid ∨
          (B.allowHoles = true ∧ B.blockSize ∣ mid)) := by
      subst hmid
      split
      · rename_i hh
        exact ⟨Nat.le_refl _, hfirst', .inr ⟨hh, Nat.dvd_mul_left _ _⟩⟩
      · exact ⟨hfirst', Nat.le_refl _, .inl rfl⟩
    obtain ⟨p₃, e₃⟩ := puts_padLast (n := n)
      (c := resize 0 (resize 0 c (B.firstToPad m * B.blockSize)) mid) forceWrite
      (by simpa using hmid'.2.1) (by simpa using hmid'.2.2)
    refine ⟨⟨⟨p₁, p₂⟩, p₃⟩, ?_⟩
    rw [e₃, resize_length, resize_resize 0 _ (.inr (by simpa using hmid'.1)),
      resize_resize 0 c (.inr (by omega))]

lemma puts_padWrites_zeros {m n : ℕ} (hc : c.length = m) (hmn : m < n) :
    B.flatModel.PlacedAll c (B.padWrites (List.replicate (m % B.blockSize) 0) m n true) ∧
      B.flatModel.puts c (B.padWrites (List.replicate (m % B.blockSize) 0) m n true) =
        resize 0 (resize 0 (c.take (m / B.blockSize * B.blockSize)) m)
          (B.paddedSize m n true) := by
  have hdiv := Nat.div_add_mod' m B.blockSize
  have hlt := Nat.mod_lt m B.blockSize_pos
  generalize hzeroed : resize 0 (c.take (m / B.blockSize * B.blockSize)) m = c₀
  have hlen : c₀.length = m := by rw [← hzeroed, resize_length]
  have hpart : List.replicate (m % B.blockSize) 0 =
      slice c₀ (m / B.blockSize * B.blockSize) (m % B.blockSize) := by
    rw [← hzeroed, slice_resize, slice_eq_nil (by rw [List.length_take]; omega), resize_nil]
    congr 1
    omega
  obtain ⟨hplaced, hputs⟩ := puts_padWrites true hlen hmn hpart
  by_cases hm : m % B.blockSize = 0
  · have hsame : c₀ = c := by
      rw [← hzeroed, List.take_of_length_le (by omega), resize_of_length 0 hc]
    rw [hsame] at hplaced hputs ⊢
    exact ⟨hplaced, hputs⟩
  -- the first write replaces the bytes in which the two contents differ
  have hfirst : ∃ d ws, m ≤ m / B.blockSize * B.blockSize + d.length ∧
      B.padWrites (List.replicate (m % B.blockSize) 0) m n true = (m / B.blockSize, d) :: ws := by
    rw [padWrites]
    split
    · rename_i hsame
      have hn := Nat.div_add_mod' n B.blockSize
      rw [← hsame] at hn
      rw [if_pos ⟨rfl, by omega⟩]
      exact ⟨_, [], by rw [resize_length]; omega, rfl⟩
    · rw [padFirstWrites, if_pos hm]
      exact ⟨_, _, by rw [resize_length]; omega, rfl⟩
  obtain ⟨d, ws, hd, hws⟩ := hfirst
  have hput : splice 0 c (m / B.blockSize * B.blockSize) d =
      splice 0 c₀ (m / B.blockSize * B.blockSize) d := by
    apply List.ext_getElem?
    intro i
    rw [← hzeroed]
    simp only [splice_getElem?, resize_getElem?, List.getElem?_take, List.getD_eq_getElem?_getD]
    grind
  rw [hws] at hplaced hputs ⊢
  obtain ⟨⟨hne, hle, hwhole, hgap⟩, hrest⟩ := hplaced
  rw [hlen] at hwhole hgap
  refine ⟨⟨⟨hne, hle, hc.symm ▸ hwhole, hc.symm ▸ hgap⟩, ?_⟩, ?_⟩
  · change B.flatModel.PlacedAll (splice 0 c _ d) ws
    rw [hput]
    exact hrest
  · change B.flatModel.puts (splice 0 c _ d) ws = _
    rw [hput]
    exact hputs

end Padding

lemma coherent_afterWrites {c : Bytes} {ws : List (ℕ × Bytes)}
    (hp : B.flatModel.PlacedAll c ws) (h : ws ≠ []) (cache : Cache) :
    B.Coherent (B.flatModel.puts c ws) (B.afterWrites cache ws) := by
  induction ws generalizing c cache with
  | nil => exact (h rfl).elim
  | cons w ws ih =>
    by_cases hnil : ws = []
    · subst hnil
      exact coherent_splice hp.1
    · exact ih hp.2 hnil _

lemma padFile_spec (hB : B.BlockStore R) {o : Cached σ} {c : Bytes} {m n : ℕ} (forceWrite : Bool)
    (hR : R o.file c) (hs : B.Settled c o.cache) (hc : c.length = m) (hmn : m < n) :
    ∃ o', B.padFile m n forceWrite o = .ok ⟨⟩ o' ∧
      R o'.file (resize 0 c (B.paddedSize m n forceWrite)) ∧
      (B.Coherent (resize 0 c (B.paddedSize m n forceWrite)) o'.cache ∨
        (B.paddedSize m n forceWrite = m ∧ o'.cache = o.cache)) := by
  have hdm := Nat.div_add_mod' m B.blockSize
  have hlt := Nat.mod_lt m B.blockSize_pos
  have hx : slice c (m / B.blockSize * B.blockSize) (m % B.blockSize) =
      (B.lookup o.cache (slice c (m / B.blockSize * B.blockSize) B.blockSize)
        (m / B.blockSize)).take (m % B.blockSize) := by
    by_cases hm : m % B.blockSize = 0
    · simp [hm]
    · rw [lookup_eq hs (.inl (by omega)), take_slice, Nat.min_eq_left (Nat.le_of_lt hlt)]
  obtain ⟨hp, hput⟩ := puts_padWrites (B := B) forceWrite hc hmn rfl
  obtain ⟨s', he, hR'⟩ := padFile_run hB m n forceWrite hR hx hp
  rw [hput] at hR'
  refine ⟨_, he, hR', ?_⟩
  generalize hw : B.padWrites _ m n forceWrite = ws at hp hput
  by_cases hnil : ws = []
  · subst hnil
    refine .inr ⟨?_, rfl⟩
    have hlen := congrArg List.length hput
    rw [BlockModel.puts_nil, resize_length] at hlen
    omega
  · rw [← hput]
    exact .inl (coherent_afterWrites hp hnil _)

end EncFS.BlockFileIO
