import EncFS.MACFileIO.Refinement

set_option autoImplicit false

namespace EncFS.MACFileIO

open FlatArray MACFile BlockFileIO

variable {τ : Type} {M : MACFileIO τ}

section Layouts

lemma min_locWithHeader (M : MACFileIO τ) {n k : ℕ} (hk : k * M.dataBlockSize < n) :
    min M.bs (locWithHeader n M.bs M.headerSize - k * M.bs) =
      M.headerSize + min M.dataBlockSize (n - k * M.dataBlockSize) := by
  have hd := M.dataBlockSize_pos
  have hbs : M.bs = M.dataBlockSize + M.headerSize := rfl
  by_cases hfull : (k + 1) * M.dataBlockSize ≤ n
  · have hle : (k + 1) * M.bs ≤ locWithHeader n M.bs M.headerSize := mul_le_locWithHeader hd hfull
    rw [Nat.succ_mul] at hfull hle
    omega
  · rw [Nat.succ_mul] at hfull
    have hloc := locWithHeader_add (h := M.headerSize) k (r := n - k * M.dataBlockSize) (by omega)
      (by omega : n - k * M.dataBlockSize ≤ M.dataBlockSize)
    rw [Nat.add_sub_cancel' (Nat.le_of_lt hk)] at hloc
    change locWithHeader n M.bs M.headerSize = k * M.bs + M.headerSize + _ at hloc
    omega

lemma slice_resized (M : MACFileIO τ) (b : Bytes) {n k : ℕ} (hk : k * M.dataBlockSize < n) :
    slice (resize 0 b (locWithHeader n M.bs M.headerSize)) (k * M.bs) M.bs =
      resize 0 (slice b (k * M.bs) M.bs)
        (M.headerSize + min M.dataBlockSize (n - k * M.dataBlockSize)) := by
  rw [slice_resize, min_locWithHeader M hk]

lemma Layout.kept {b c : Bytes} (h : M.Layout b c) {n k : ℕ}
    (hn : (k + 1) * M.dataBlockSize ≤ n) (hc : (k + 1) * M.dataBlockSize ≤ c.length) :
    ∃ header, header.length = M.headerSize ∧
      slice (resize 0 b (locWithHeader n M.bs M.headerSize)) (k * M.bs) M.bs =
        header ++ slice (resize 0 c n) (k * M.dataBlockSize) M.dataBlockSize ∧
      M.Accepted (header ++ slice (resize 0 c n) (k * M.dataBlockSize) M.dataBlockSize) := by
  have hd := M.dataBlockSize_pos
  rw [Nat.succ_mul] at hn hc
  obtain ⟨header, hlen, hblock, ha⟩ := h.block k (by omega)
  have hslice : slice (resize 0 c n) (k * M.dataBlockSize) M.dataBlockSize =
      slice c (k * M.dataBlockSize) M.dataBlockSize := by
    have hwhole : (slice c (k * M.dataBlockSize) M.dataBlockSize).length =
        min M.dataBlockSize (n - k * M.dataBlockSize) := by
      rw [slice_length]
      omega
    rw [slice_resize, ← hwhole, resize_self]
  have hall : (header ++ slice c (k * M.dataBlockSize) M.dataBlockSize).length =
      M.headerSize + min M.dataBlockSize (n - k * M.dataBlockSize) := by
    rw [List.length_append, hlen, slice_length]
    omega
  refine ⟨header, hlen, ?_, hslice ▸ ha⟩
  rw [slice_resized M b (by omega), hblock, ← hall, resize_self, hslice]

lemma Layout.cut {b c : Bytes} (h : M.Layout b c) {n : ℕ} (hn : n ≤ c.length)
    (hwhole : n % M.dataBlockSize = 0) :
    M.Layout (resize 0 b (locWithHeader n M.bs M.headerSize)) (resize 0 c n) where
  length := by rw [resize_length, resize_length]
  block k hk := by
    have hle : (k + 1) * M.dataBlockSize ≤ n := by
      obtain ⟨q, rfl⟩ := Nat.dvd_of_mod_eq_zero hwhole
      rw [resize_length, Nat.mul_comm] at hk
      rw [Nat.mul_comm M.dataBlockSize]
      exact Nat.mul_le_mul_right _ (Nat.lt_of_mul_lt_mul_left hk)
    exact h.kept hle (Nat.le_trans hle hn)

lemma Layout.cutInside {b c header data : Bytes} (h : M.Layout b c) {n : ℕ} (hn : n ≤ c.length)
    (hpart : n % M.dataBlockSize ≠ 0) (hlen : header.length = M.headerSize)
    (hdlen : data.length = n % M.dataBlockSize) (ha : M.Accepted (header ++ data)) :
    M.Layout (resize 0 (FlatArray.splice 0 b (n / M.dataBlockSize * M.bs) (header ++ data))
        (locWithHeader n M.bs M.headerSize)) (c.take (n / M.dataBlockSize * M.dataBlockSize) ++ data) := by
  have hd := M.dataBlockSize_pos
  have hdiv := Nat.div_add_mod' n M.dataBlockSize
  have hlt := Nat.mod_lt n hd
  have hkept : (c.take (n / M.dataBlockSize * M.dataBlockSize)).length =
      n / M.dataBlockSize * M.dataBlockSize := by
    rw [List.length_take]
    omega
  have hall : (c.take (n / M.dataBlockSize * M.dataBlockSize) ++ data).length = n := by
    rw [List.length_append, hkept, hdlen, hdiv]
  have hloc := locWithHeader_add (h := M.headerSize) (n / M.dataBlockSize)
    (Nat.pos_of_ne_zero hpart) (Nat.le_of_lt hlt)
  rw [hdiv] at hloc
  change locWithHeader n M.bs M.headerSize = n / M.dataBlockSize * M.bs + M.headerSize + _ at hloc
  have hsplice : resize 0 (FlatArray.splice 0 b (n / M.dataBlockSize * M.bs) (header ++ data))
      (locWithHeader n M.bs M.headerSize) =
        FlatArray.splice 0 (resize 0 b (locWithHeader n M.bs M.headerSize))
          (n / M.dataBlockSize * M.bs) (header ++ data) := by
    apply resize_splice
    rw [List.length_append, hlen, hdlen, hloc]
    omega
  refine ⟨by rw [resize_length, hall], fun k hk => ?_⟩
  rw [hall] at hk
  have hkq : k ≤ n / M.dataBlockSize := (Nat.le_div_iff_mul_le hd).mpr (Nat.le_of_lt hk)
  rw [hsplice]
  rcases Nat.lt_or_eq_of_le hkq with hkq | rfl
  · have hle := Nat.mul_le_mul_right M.dataBlockSize (show k + 1 ≤ n / M.dataBlockSize from hkq)
    have hle' := Nat.mul_le_mul_right M.bs (show k + 1 ≤ n / M.dataBlockSize from hkq)
    rw [Nat.succ_mul] at hle
    have hsame : slice (c.take (n / M.dataBlockSize * M.dataBlockSize) ++ data)
        (k * M.dataBlockSize) M.dataBlockSize =
          slice (resize 0 c n) (k * M.dataBlockSize) M.dataBlockSize := by
      rw [slice_append_left _ (by omega), resize_eq_take 0 hn, slice_take, slice_take]
      congr 1
      omega
    rw [slice_splice_earlier 0 _ _ hkq (by rw [resize_length]; omega), hsame]
    exact h.kept (by rw [Nat.succ_mul]; omega) (by rw [Nat.succ_mul]; omega)
  · have hslice : slice (c.take (n / M.dataBlockSize * M.dataBlockSize) ++ data)
        (n / M.dataBlockSize * M.dataBlockSize) M.dataBlockSize = data := by
      have hright := slice_append_right (c.take (n / M.dataBlockSize * M.dataBlockSize)) data
        M.dataBlockSize
      have hdata : data.take M.dataBlockSize = data := List.take_of_length_le (by omega)
      rwa [hkept, hdata] at hright
    rw [hslice]
    refine ⟨header, hlen, ?_, ha⟩
    apply slice_splice_same
    · rw [List.length_append, hlen, hdlen]
      change M.headerSize + n % M.dataBlockSize ≤ M.dataBlockSize + M.headerSize
      omega
    · right
      rw [resize_length, List.length_append, hlen, hdlen, hloc]
      omega

lemma Layout.extend {b c : Bytes} (h : M.Layout b c) (hholes : M.allowHoles = true) {n : ℕ}
    (hn : c.length ≤ n) (hwhole : c.length % M.dataBlockSize = 0) :
    M.Layout (resize 0 b (locWithHeader n M.bs M.headerSize)) (resize 0 c n) where
  length := by rw [resize_length, resize_length]
  block k hk := by
    rw [resize_length] at hk
    have hd := M.dataBlockSize_pos
    by_cases hin : (k + 1) * M.dataBlockSize ≤ c.length
    · exact h.kept (Nat.le_trans hin hn) hin
    · have hpast : c.length ≤ k * M.dataBlockSize := by
        obtain ⟨q, hq⟩ := Nat.dvd_of_mod_eq_zero hwhole
        rw [Nat.mul_comm] at hq
        rw [hq] at hin ⊢
        by_contra hlt
        have hkq := Nat.lt_of_mul_lt_mul_right (a := M.dataBlockSize) (Nat.not_le.mp hlt)
        exact hin (Nat.mul_le_mul_right _ hkq)
      refine ⟨List.replicate M.headerSize 0, List.length_replicate, ?_, ?_⟩
      · rw [slice_resized M b hk, h.slice_eq_nil hpast, resize_nil, slice_resize_past 0 _ hpast,
          ← List.replicate_add]
      · rw [slice_resize_past 0 _ hpast, ← List.replicate_add]
        exact accepted_hole M hholes _

end Layouts

section Runs

variable {R : τ → Bytes → Prop} (hb : M.base.FlatStore R)
include hb

lemma truncateBase_run (cache : Cache) {f : MACFile τ} {b c : Bytes} {n : ℕ} (hR : R f.base b)
    (hl : M.Layout (resize 0 b (locWithHeader n M.bs M.headerSize)) c) :
    ∃ f', Cached.lift (lift (M.base.truncate (locWithHeader n M.bs M.headerSize))) ⟨cache, f⟩ =
      .ok 0 ⟨cache, f'⟩ ∧ M.Holds R f' c := by
  obtain ⟨s', hbase, hR'⟩ := hb.truncate (locWithHeader n M.bs M.headerSize) hR
  exact ⟨{ f with base := s' }, Cached.lift_ok (lift_ok hbase), _, hR', hl⟩

lemma truncateBase_grow {cache : Cache} {f : MACFile τ} {c : Bytes} {n : ℕ} (hn : c.length < n)
    (h : M.Holds R f (resize 0 c (M.blockFile.paddedSize c.length n true)))
    (hc : M.blockFile.Coherent (resize 0 c (M.blockFile.paddedSize c.length n true)) cache) :
    ∃ f', Cached.lift (lift (M.base.truncate (locWithHeader n M.bs M.headerSize))) ⟨cache, f⟩ =
        .ok 0 ⟨cache, f'⟩ ∧
      M.blockFile.Represents (M.Holds R) ⟨cache, f'⟩ (resize 0 c n) := by
  obtain ⟨b, hRb, hl⟩ := h
  rcases M.blockFile.paddedSize_forced hn with hp | ⟨hholes, hwhole, hge, hle⟩
  · rw [hp] at hl hc
    have hfit : b.length = locWithHeader n M.bs M.headerSize := by
      rw [hl.length, resize_length]
    obtain ⟨f', hrun, hh⟩ := truncateBase_run hb cache hRb (n := n)
      (c := resize 0 c n) (by rwa [resize_of_length 0 hfit])
    exact ⟨f', hrun, hh, hc⟩
  · generalize M.blockFile.paddedSize c.length n true = p at *
    have hlen : (resize 0 c p).length = p := resize_length 0 c p
    have hsame : resize 0 (resize 0 c p) n = resize 0 c n := resize_resize 0 c (.inr hge)
    have hfit : (resize 0 c p).length ≤ n := by omega
    have hlayout := hl.extend hholes hfit (hlen.symm ▸ hwhole)
    have hcoherent := coherent_extend hc hfit (hlen.symm ▸ hwhole)
    rw [hsame] at hlayout hcoherent
    obtain ⟨f', hrun, hh⟩ := truncateBase_run hb cache hRb hlayout
    exact ⟨f', hrun, hh, hcoherent⟩

variable (hrand : 0 < M.randBytes → ∀ i, M.random.randomize i M.randBytes ≠ none)
  {cache : Cache} {f : MACFile τ} {c : Bytes} (h : M.Holds R f c)
  (hc : M.blockFile.Coherent c cache) {n : ℕ}
include hrand h hc

lemma truncateSized_grow (hn : c.length < n) :
    ∃ cache' f', M.blockFile.truncateSized c.length n none ⟨cache, f⟩ = .ok 0 ⟨cache', f'⟩ ∧
      M.blockFile.Represents (M.Holds R) ⟨cache', f'⟩
        (resize 0 c (M.blockFile.paddedSize c.length n true)) := by
  have hB := blockFile_blockStore hb.toRefinesFlat hrand
  obtain ⟨⟨cache', f'⟩, he, hh, hc'⟩ :=
    padFile_spec hB true (o := ⟨cache, f⟩) h hc.settled rfl hn
  refine ⟨cache', f', ?_, hh, ?_⟩
  · unfold BlockFileIO.truncateSized
    rw [if_pos hn]
    exact Action.bind_ok he
  · rcases hc' with hc' | ⟨hp, hsame⟩
    · exact hc'
    · rw [hp, resize_self, hsame]
      exact hc

open BlockFileIO (padded) in
omit hc in
lemma truncateSized_inside (hn : n < c.length) (hpart : n % M.dataBlockSize ≠ 0) {d : Bytes}
    (hd : d = resize 0 (M.blockFile.lookup cache (slice c (n / M.dataBlockSize * M.dataBlockSize)
      M.dataBlockSize) (n / M.dataBlockSize)) (n % M.dataBlockSize)) :
    ∃ f' b header, M.blockFile.truncateSized c.length n none ⟨cache, f⟩ =
        .ok 0 ⟨⟨n / M.dataBlockSize * M.dataBlockSize, d⟩, f'⟩ ∧
      header.length = M.headerSize ∧ M.Accepted (header ++ d) ∧ M.Layout b c ∧
      R f'.base (FlatArray.splice 0 b (n / M.dataBlockSize * M.bs) (header ++ d)) := by
  have hB := blockFile_blockStore hb.toRefinesFlat hrand
  have hdlen : d.length = n % M.dataBlockSize := by rw [hd, resize_length]
  have hlt := Nat.mod_lt n M.dataBlockSize_pos
  have hmod : n % M.blockFile.blockSize ≠ 0 := hpart
  obtain ⟨f₁, h₁, b, hRb, hl⟩ :=
    cacheReadOneBlock_run hB.toReads cache (n / M.dataBlockSize) M.dataBlockSize h
  obtain ⟨header, f₂, hheader, ha, h₂, hR₂⟩ := writeOneBlock_stores hb.toRefinesFlat hrand hRb
    (n / M.dataBlockSize) (show d ≠ [] from List.ne_nil_of_length_pos (by omega))
  refine ⟨f₂, b, header, ?_, hheader, ha, hl, hR₂⟩
  have hwrite (cache₁ : Cache) : M.blockFile.cacheWriteOneBlock
      (n / M.dataBlockSize * M.dataBlockSize) d ⟨cache₁, f₁⟩ =
        .ok true ⟨⟨n / M.dataBlockSize * M.dataBlockSize, d⟩, f₂⟩ := by
    have hlift : M.blockFile.writeOneBlock (n / M.dataBlockSize * M.dataBlockSize) d f₁ =
        .ok true f₂ := h₂
    rw [cacheWriteOneBlock, Action.bind_ok (Cached.setCache_run cache₁ _ f₁),
      Action.bind_ok (Cached.lift_ok hlift)]
    rfl
  have hpadded : padded (some ((M.blockFile.lookup cache
      (slice c (n / M.dataBlockSize * M.dataBlockSize) M.dataBlockSize)
        (n / M.dataBlockSize)).take M.dataBlockSize)) (n % M.dataBlockSize) = d := by
    rw [padded, Option.getD_some, resize_take 0 _ (Nat.le_of_lt hlt), hd]
  unfold BlockFileIO.truncateSized
  rw [if_neg (by omega), if_neg (by omega), if_pos hmod]
  refine (Action.bind_ok h₁).trans ?_
  change (M.blockFile.cacheWriteOneBlock (n / M.dataBlockSize * M.dataBlockSize)
    (padded (some ((M.blockFile.lookup cache
      (slice c (n / M.dataBlockSize * M.dataBlockSize) M.dataBlockSize)
        (n / M.dataBlockSize)).take M.dataBlockSize)) (n % M.dataBlockSize)) >>= fun _ => pure 0) _ = _
  rw [hpadded]
  exact Action.bind_ok (hwrite _)

omit hb hrand h in
lemma resize_lookup (hn : n < c.length) :
    resize 0 (M.blockFile.lookup cache (slice c (n / M.dataBlockSize * M.dataBlockSize)
        M.dataBlockSize) (n / M.dataBlockSize)) (n % M.dataBlockSize) =
      slice c (n / M.dataBlockSize * M.dataBlockSize) (n % M.dataBlockSize) := by
  have hlt := Nat.mod_lt n M.dataBlockSize_pos
  have hdiv := Nat.div_add_mod' n M.dataBlockSize
  have hblock : M.blockFile.lookup cache (slice c (n / M.dataBlockSize * M.dataBlockSize)
      M.dataBlockSize) (n / M.dataBlockSize) =
        slice c (n / M.dataBlockSize * M.dataBlockSize) M.dataBlockSize :=
    lookup_eq hc.settled (.inr hc)
  rw [hblock, resize_eq_take 0 (by rw [slice_length]; omega), take_slice,
    Nat.min_eq_left (Nat.le_of_lt hlt)]

def CutsCache (M : MACFileIO τ) (cache : Cache) (c : Bytes) (n : ℕ) : Prop :=
  n < c.length → n % M.dataBlockSize = 0 → M.blockFile.Coherent (c.take n) cache

theorem truncate_leaves (n : ℕ) :
    ∃ cache' f', M.truncate n ⟨cache, f⟩ = .ok 0 ⟨cache', f'⟩ ∧ M.Holds R f' (resize 0 c n) ∧
      (M.blockFile.Coherent (resize 0 c n) cache' ↔ M.CutsCache cache c n) := by
  have hB := blockFile_blockStore hb.toRefinesFlat hrand
  obtain ⟨f₁, h₁, hh⟩ := hB.getSize h
  have hrun {cache' : Cache} {f₂ f' : MACFile τ}
      (h₂ : M.blockFile.truncateSized c.length n none ⟨cache, f₁⟩ = .ok 0 ⟨cache', f₂⟩)
      (h₃ : Cached.lift (lift (M.base.truncate (locWithHeader n M.bs M.headerSize))) ⟨cache', f₂⟩ =
        .ok 0 ⟨cache', f'⟩) : M.truncate n ⟨cache, f⟩ = .ok 0 ⟨cache', f'⟩ := by
    rw [truncate, Action.bind_ok ((truncate_of_size h₁ cache n none).trans h₂), if_pos rfl,
      Action.bind_ok h₃]
    rfl
  rcases Nat.lt_trichotomy c.length n with hn | rfl | hn
  · obtain ⟨cache', f₂, h₂, hh₂, hc₂⟩ := truncateSized_grow hb hrand hh hc hn
    obtain ⟨f', h₃, hh', hc'⟩ := truncateBase_grow hb hn hh₂ hc₂
    exact ⟨cache', f', hrun h₂ h₃, hh', iff_of_true hc' fun hlt => absurd hlt (by omega)⟩
  · obtain ⟨b, hRb, hl⟩ := hh
    obtain ⟨f', h₃, hh'⟩ := truncateBase_run hb cache hRb (n := c.length) (c := c) (by
      rwa [← hl.length, resize_self])
    rw [resize_self]
    exact ⟨cache, f', hrun (truncateSized_same _ _ _ _) h₃, hh',
      iff_of_true hc fun hlt => absurd hlt (by omega)⟩
  · by_cases hpart : n % M.dataBlockSize = 0
    · obtain ⟨b, hRb, hl⟩ := hh
      obtain ⟨f', h₃, hh'⟩ := truncateBase_run hb cache hRb
        (hl.cut (Nat.le_of_lt hn) hpart)
      obtain ⟨f₂, h₂, rfl⟩ := truncateSized_whole (B := M.blockFile)
        (cuts_none (fun f f' => f' = f) n) cache (s := f₁) rfl hn hpart
      refine ⟨cache, f', hrun h₂ h₃, hh', ?_⟩
      rw [resize_eq_take 0 (Nat.le_of_lt hn)]
      exact ⟨fun hcut _ _ => hcut, fun hcut => hcut hn hpart⟩
    · obtain ⟨f₂, b, header, h₂, hheader, ha, hl, hR₂⟩ :=
        truncateSized_inside hb hrand hh hn hpart (resize_lookup hc hn).symm
      have hdiv := Nat.div_add_mod' n M.dataBlockSize
      obtain ⟨f', h₃, hh'⟩ := truncateBase_run hb _ hR₂
        (hl.cutInside (Nat.le_of_lt hn) hpart hheader (by rw [slice_length]; omega) ha)
      have hcut : c.take (n / M.dataBlockSize * M.dataBlockSize) ++
          slice c (n / M.dataBlockSize * M.dataBlockSize) (n % M.dataBlockSize) = resize 0 c n := by
        rw [resize_eq_take 0 (Nat.le_of_lt hn)]
        conv_rhs => rw [← hdiv, List.take_add]
        rfl
      rw [hcut] at hh'
      refine ⟨_, f', hrun h₂ h₃, hh', iff_of_true ?_ fun _ hwhole => absurd hwhole hpart⟩
      rw [resize_eq_take 0 (Nat.le_of_lt hn)]
      exact coherent_cut (B := M.blockFile) c n

end Runs

end EncFS.MACFileIO
