import EncFS.BlockFileIO.Store

set_option autoImplicit false

namespace EncFS.BlockFileIO

open FlatArray Cached

variable {σ : Type} {B : BlockFileIO σ} {R : σ → Bytes → Prop}

lemma lastNonEmptyBlock_lt (fileSize k : ℕ) :
    B.lastNonEmptyBlock fileSize < k ↔ fileSize ≤ k * B.blockSize := by
  have hbs := B.blockSize_pos
  have hdiv := Nat.div_add_mod' fileSize B.blockSize
  have hlt := Nat.mod_lt fileSize hbs
  have hmul : fileSize / B.blockSize + 1 ≤ k ↔
      (fileSize / B.blockSize + 1) * B.blockSize ≤ k * B.blockSize :=
    (Nat.mul_le_mul_right_iff hbs).symm
  have hmul' : k ≤ fileSize / B.blockSize ↔
      k * B.blockSize ≤ fileSize / B.blockSize * B.blockSize :=
    (Nat.mul_le_mul_right_iff hbs).symm
  have hmul'' : fileSize / B.blockSize ≤ k ↔
      fileSize / B.blockSize * B.blockSize ≤ k * B.blockSize :=
    (Nat.mul_le_mul_right_iff hbs).symm
  rw [Nat.succ_mul] at hmul
  rw [lastNonEmptyBlock]
  split <;> omega

structure Writable (B : BlockFileIO σ) (fileSize : ℕ) (c : Bytes) (k : ℕ) : Prop where
  size : c.length = fileSize ∨ (fileSize ≤ c.length ∧ c.length ≤ k * B.blockSize)
  no_gap : k * B.blockSize ≤ c.length ∨ (B.allowHoles = true ∧ B.blockSize ∣ c.length)

lemma Writable.next {fileSize k : ℕ} {c d : Bytes} (h : B.Writable fileSize c k)
    (hd : d.length = B.blockSize) :
    B.Writable fileSize (splice 0 c (k * B.blockSize) d) (k + 1) := by
  have hlen : (splice 0 c (k * B.blockSize) d).length =
      max c.length ((k + 1) * B.blockSize) := by
    rw [splice_length, hd, Nat.succ_mul]
  have hk : k * B.blockSize ≤ (k + 1) * B.blockSize := Nat.mul_le_mul_right _ (Nat.le_succ k)
  have := h.size
  exact ⟨by omega, .inl (by omega)⟩

section Writing

variable (hB : B.BlockStore R)
include hB

lemma blockToWrite_spec {o : Cached σ} {c : Bytes} (chunk : Bytes) {fileSize k : ℕ} (p : ℕ)
    (hR : R o.file c) (hs : B.Settled c o.cache) (hw : B.Writable fileSize c k) (hc : chunk ≠ [])
    (hp : p + chunk.length ≤ B.blockSize) :
    ∃ d o', B.blockToWrite fileSize (B.lastNonEmptyBlock fileSize) k p chunk o = .ok d o' ∧
      R o'.file c ∧ B.Placed c k d ∧
      splice 0 c (k * B.blockSize) d = splice 0 c (k * B.blockSize + p) chunk ∧
      p + chunk.length ≤ d.length := by
  have hsize := hw.size
  have hpos := List.length_pos_of_ne_nil hc
  have hmerge := splice_merge (0 : UInt8) c (k * B.blockSize) B.blockSize p chunk hp
  rw [blockToWrite]
  by_cases hdirect : chunk.length = B.blockSize ∨
      (p = 0 ∧ fileSize ≤ k * B.blockSize + chunk.length)
  · simp only [if_pos hdirect]
    obtain rfl : p = 0 := by omega
    exact ⟨chunk, o, rfl, hR, ⟨hc, by omega, by omega, hw.no_gap⟩, rfl, by omega⟩
  simp only [if_neg hdirect]
  by_cases hlast : B.lastNonEmptyBlock fileSize < k
  · simp only [if_pos hlast]
    have hle := (lastNonEmptyBlock_lt fileSize k).mp hlast
    rw [slice_eq_nil (by omega)] at hmerge
    refine ⟨_, o, rfl, hR, ⟨?_, by simp; omega, .inr (by simp; omega), hw.no_gap⟩, hmerge,
      by rw [splice_length]; omega⟩
    exact List.ne_nil_of_length_pos (by simp; omega)
  · simp only [if_neg hlast]
    have hlt : k * B.blockSize < fileSize := by
      have := (lastNonEmptyBlock_lt (B := B) fileSize k).not.mp hlast
      omega
    obtain ⟨r, o', h, hR', -, -, hr⟩ := cacheReadOneBlock_spec hB.toReads k B.blockSize hR hs
    have hr' := hr (.inl (by omega))
    rw [take_slice, Nat.min_self] at hr'
    subst hr'
    rw [Action.bind_ok h]
    refine ⟨_, o', rfl, hR', ⟨?_, by simp; omega, ?_, hw.no_gap⟩, hmerge,
      by rw [Option.getD_some, splice_length]; omega⟩
    · exact List.ne_nil_of_length_pos (by simp; omega)
    · simp only [Option.getD_some, splice_length, slice_length]
      omega

lemma writeLoop_spec {fileSize : ℕ} (fuel : ℕ) :
    ∀ (o : Cached σ) (c : Bytes) (k p : ℕ) (data : Bytes), data.length ≤ fuel → p < B.blockSize →
      data ≠ [] → R o.file c → B.Settled c o.cache → B.Writable fileSize c k →
      ∃ o', B.writeLoop fileSize (B.lastNonEmptyBlock fileSize) fuel k p data o = .ok true o' ∧
        R o'.file (splice 0 c (k * B.blockSize + p) data) ∧
        B.Coherent (splice 0 c (k * B.blockSize + p) data) o'.cache := by
  induction fuel with
  | zero =>
    intro o c k p data hf _ hd
    exact (hd (List.length_eq_zero_iff.mp (by omega))).elim
  | succ fuel ih =>
    intro o c k p data hf hp hd hR hs hw
    have hpos := List.length_pos_of_ne_nil hd
    obtain ⟨toCopy, ht⟩ : ∃ t, t = min (B.blockSize - p) data.length := ⟨_, rfl⟩
    have hchunk : (data.take toCopy).length = toCopy := by simp; omega
    obtain ⟨d, o₁, h₁, hR₁, hp₁, he₁, hl₁⟩ := blockToWrite_spec hB (data.take toCopy) p
      hR hs hw (List.ne_nil_of_length_pos (by omega)) (by omega)
    obtain ⟨o₂, h₂, hR₂, hc₂⟩ := cacheWriteOneBlock_spec hB hR₁ hp₁
    rw [writeLoop, if_neg hd]
    simp only [← ht]
    rw [Action.bind_ok h₁, Action.bind_ok h₂]
    by_cases hrest : data.drop toCopy = []
    · have hall : data.take toCopy = data := by
        have := List.take_append_drop toCopy data
        rwa [hrest, List.append_nil] at this
      rw [he₁, hall] at hR₂ hc₂
      refine ⟨o₂, ?_, hR₂, hc₂⟩
      change B.writeLoop _ _ fuel (k + 1) 0 (data.drop toCopy) o₂ = _
      rw [hrest]
      cases fuel <;> rfl
    · have hfull : toCopy = B.blockSize - p := by
        have := List.length_pos_of_ne_nil hrest
        rw [List.length_drop] at this
        omega
      have hdl := hp₁.length_le
      obtain ⟨o', h', hR', hc'⟩ := ih o₂ _ (k + 1) 0 (data.drop toCopy) (by simp; omega)
        B.blockSize_pos hrest hR₂ hc₂.settled (hw.next (by omega))
      have hnext : (k + 1) * B.blockSize + 0 = k * B.blockSize + p + (data.take toCopy).length := by
        rw [Nat.succ_mul]
        omega
      rw [he₁, hnext, splice_append, List.take_append_drop] at hR' hc'
      exact ⟨o', h', hR', hc'⟩

lemma fillGap_spec {o : Cached σ} {c : Bytes} (offset : ℕ) (hR : R o.file c)
    (hs : B.Settled c o.cache) :
    ∃ o' c', B.fillGap c.length offset o = .ok ⟨⟩ o' ∧ R o'.file c' ∧ B.Settled c' o'.cache ∧
      B.Writable c.length c' (offset / B.blockSize) ∧
      ∀ d, splice 0 c' offset d = splice 0 c offset d := by
  have hdiv := Nat.div_add_mod' offset B.blockSize
  rw [fillGap]
  split
  · rename_i hgap
    obtain ⟨o', h, hR', hc'⟩ := padFile_spec hB false hR hs rfl hgap
    obtain ⟨hge, -, -⟩ := firstToPad_spec B c.length
    have hdc := Nat.div_add_mod' c.length B.blockSize
    have hfacts : c.length ≤ B.paddedSize c.length offset false ∧
        B.paddedSize c.length offset false ≤ offset ∧
        B.Writable c.length (resize 0 c (B.paddedSize c.length offset false))
          (offset / B.blockSize) := by
      rw [paddedSize]
      rw [if_neg (by simp)]
      by_cases hsame : c.length / B.blockSize = offset / B.blockSize
      · rw [if_pos hsame]
        exact ⟨Nat.le_refl _, Nat.le_of_lt hgap, .inl (by simp),
          .inl (by rw [resize_length, ← hsame]; omega)⟩
      · rw [if_neg hsame]
        have hle := Nat.mul_le_mul_right B.blockSize (firstToPad_le hgap hsame)
        split
        · rename_i hh
          exact ⟨hge, by omega, .inr (by simp; omega), 
            .inr ⟨hh, by rw [resize_length]; exact Nat.dvd_mul_left _ _⟩⟩
        · exact ⟨by omega, by omega, .inr (by simp; omega), .inl (by simp)⟩
    refine ⟨o', _, h, hR', ?_, hfacts.2.2, fun d => splice_resize 0 c d hfacts.1 hfacts.2.1⟩
    rcases hc' with hc' | ⟨hsize, hcache⟩
    · exact hc'.settled
    · rw [hsize, resize_self, hcache]
      exact hs
  · exact ⟨o, c, rfl, hR, hs, ⟨.inl rfl, .inl (by omega)⟩, fun _ => rfl⟩

lemma write_spec {o : Cached σ} {c : Bytes} (offset : ℕ) {data : Bytes} (hd : data ≠ [])
    (hR : R o.file c) (hs : B.Settled c o.cache) :
    ∃ o', B.write offset data o = .ok true o' ∧ R o'.file (splice 0 c offset data) ∧
      B.Coherent (splice 0 c offset data) o'.cache := by
  have hdiv := Nat.div_add_mod' offset B.blockSize
  obtain ⟨cache, s⟩ := o
  obtain ⟨s₁, (h₁ : B.getSize s = .ok c.length s₁), hR₁⟩ := hB.getSize hR
  obtain ⟨o₂, c₂, h₂, hR₂, hs₂, hw₂, he₂⟩ := fillGap_spec hB (o := ⟨cache, s₁⟩) offset hR₁ hs
  rw [write_of_size h₁, writeSized, Action.bind_ok h₂]
  by_cases hfast : offset % B.blockSize = 0 ∧ data.length ≤ B.blockSize ∧
      (data.length = B.blockSize ∨ (offset / B.blockSize = c.length / B.blockSize ∧
        c.length % B.blockSize ≤ data.length))
  · rw [if_pos hfast]
    rw [hfast.1, Nat.add_zero] at hdiv
    have hdc := Nat.div_add_mod' c.length B.blockSize
    have hsize := hw₂.size
    have hp : B.Placed c₂ (offset / B.blockSize) data := by
      refine ⟨hd, hfast.2.1, ?_, hw₂.no_gap⟩
      rcases hfast.2.2 with hfull | ⟨hblock, hle⟩
      · exact .inl hfull
      · rw [hblock] at hsize ⊢
        right
        omega
    obtain ⟨o', h', hR', hc'⟩ := cacheWriteOneBlock_spec hB hR₂ hp
    rw [hdiv, he₂] at hR' hc'
    rw [hdiv] at h'
    exact ⟨o', h', hR', hc'⟩
  · rw [if_neg hfast]
    obtain ⟨o', h', hR', hc'⟩ := writeLoop_spec hB data.length o₂ c₂ (offset / B.blockSize)
      (offset % B.blockSize) data (Nat.le_refl _) (Nat.mod_lt _ B.blockSize_pos) hd hR₂ hs₂ hw₂
    rw [hdiv, he₂] at hR' hc'
    exact ⟨o', h', hR', hc'⟩

end Writing

structure Represents (B : BlockFileIO σ) (R : σ → Bytes → Prop) (o : Cached σ) (c : Bytes) :
    Prop where
  stored : R o.file c
  coherent : B.Coherent c o.cache

lemma represents_fresh {s : σ} {c : Bytes} (h : R s c) : B.Represents R ⟨.empty, s⟩ c :=
  ⟨h, coherent_nil⟩

lemma readsFlat (hB : B.Reads B.flatModel R) : B.accessors.ReadsFlat (B.Represents R) where
  getSize := by
    rintro ⟨cache, s⟩ c h
    obtain ⟨s', he, hR⟩ := hB.getSize h.stored
    exact ⟨⟨cache, s'⟩, lift_ok he, hR, h.coherent⟩
  read := by
    intro o c offset n h
    obtain ⟨r, o', he, hR, -, hc⟩ := read_spec hB offset n h.stored h.coherent.settled
    obtain ⟨hco, rfl⟩ := hc h.coherent
    exact ⟨o', he, hR, hco⟩

theorem refinesFlat (hB : B.BlockStore R) : B.accessors.RefinesFlat (B.Represents R) where
  toReadsFlat := readsFlat hB.toReads
  write := by
    intro o c offset data h hd
    obtain ⟨o', he, hR, hc⟩ := write_spec hB offset hd h.stored h.coherent.settled
    exact ⟨o', he, hR, hc⟩

/-- Any run of requests on a fresh object answers as a flat array does, and leaves an object of the
flat array's size that stands for the flat array's content. -/
theorem run_eq_flat_run (hB : B.BlockStore R) {s : σ} {c : Bytes} (hs : R s c)
    (qs : List Request) (hq : ∀ q ∈ qs, q.Valid) :
    ∃ o', B.accessors.run qs ⟨.empty, s⟩ = .ok (FlatFile.run c qs).1 o' ∧
      B.Represents R o' (FlatFile.run c qs).2 ∧
      ∃ o'', B.accessors.getSize o' = .ok (FlatFile.run c qs).2.length o'' := by
  obtain ⟨o', h, hr⟩ := (refinesFlat hB).run (represents_fresh hs) qs hq
  obtain ⟨o'', h', -⟩ := (refinesFlat hB).getSize hr
  exact ⟨o', h, hr, o'', h'⟩

def plainStore (blockSize : ℕ) (h : 1 < blockSize) (allowHoles : Bool) : BlockFileIO Bytes where
  blockSize := blockSize
  blockSize_gt := h
  allowHoles := allowHoles
  getSize := fun c => .ok c.length c
  readOneBlock offset dataLen := fun c => .ok (some (slice c offset dataLen)) c
  writeOneBlock offset data := fun c => .ok true (splice 0 c offset data)

lemma plainStore_blockStore (bs : ℕ) (h : 1 < bs) (holes : Bool) :
    (plainStore bs h holes).BlockStore (fun s c => s = c) where
  getSize := by
    rintro s _ rfl
    exact ⟨s, rfl, rfl⟩
  readOneBlock := by
    rintro s _ k rfl
    exact ⟨s, rfl, rfl⟩
  writeOneBlock := by
    rintro s _ k d rfl _
    exact ⟨_, rfl, rfl⟩

theorem run_eq_flat_run_plainStore :
    ∃ o', (plainStore 4 (by decide) true).accessors.run
        [.write 9 [7], .read 2 20, .write 3 [5, 6], .read 0 4] ⟨.empty, [1, 2, 3]⟩ =
        .ok [.done true, .bytes (some [3, 0, 0, 0, 0, 0, 0, 7]), .done true,
          .bytes (some [1, 2, 3, 5])] o' ∧
      (plainStore 4 (by decide) true).Represents (fun s c => s = c) o'
        [1, 2, 3, 5, 6, 0, 0, 0, 0, 7] ∧
      ∃ o'', (plainStore 4 (by decide) true).accessors.getSize o' = .ok 10 o'' :=
  run_eq_flat_run (plainStore_blockStore 4 (by decide) true) rfl
    [.write 9 [7], .read 2 20, .write 3 [5, 6], .read 0 4] (by simp [Request.Valid])

end EncFS.BlockFileIO
