import EncFS.BlockFileIO.Refinement
import EncFS.CipherFileIO.RawFormat

set_option autoImplicit false

namespace EncFS

open FlatArray Cached
open BlockFileIO (represents_fresh)

def Accessors.Shows {σ : Type} (A : Accessors σ) (s : σ) (c : Bytes) : Prop :=
  (∃ s', A.getSize s = .ok c.length s') ∧
    ∀ offset n, ∃ s', A.read offset n s = .ok (some (slice c offset n)) s'

lemma Accessors.ReadsFlat.shows {σ : Type} {A : Accessors σ} {R : σ → Bytes → Prop}
    (h : A.ReadsFlat R) {s : σ} {c : Bytes} (hs : R s c) : A.Shows s c := by
  obtain ⟨s', hsize, -⟩ := h.getSize hs
  refine ⟨⟨s', hsize⟩, fun offset n => ?_⟩
  obtain ⟨s', hread, -⟩ := h.read offset n hs
  exact ⟨s', hread⟩

lemma Accessors.Shows.length_eq {σ : Type} {A : Accessors σ} {s : σ} {c c' : Bytes}
    (h : A.Shows s c) (h' : A.Shows s c') : c.length = c'.length := by
  obtain ⟨⟨t, hsize⟩, -⟩ := h
  obtain ⟨⟨t', hsize'⟩, -⟩ := h'
  rw [hsize] at hsize'
  injection hsize' with hlength
  exact Int.ofNat_inj.mp hlength

namespace BlockFileIO

variable {σ : Type} (B : BlockFileIO σ)

def WritesNothing (o : Cached σ) (c : Bytes) (offset : ℕ) : Prop :=
  ∃ o', B.write offset [] o = .ok true o' ∧ B.accessors.Shows o' c

def Unpadded (size offset : ℕ) : Prop :=
  offset ≤ size ∨ size / B.blockSize = offset / B.blockSize ∨
    (B.allowHoles = true ∧ B.blockSize ∣ size)

/-- What the derived class does with an empty block at an end on a block boundary: it raises an
error where it asserts that there is something to code, and else nothing can be seen of it. -/
inductive EmptyBlock (R : σ → Bytes → Prop) : Bool → Prop
  | asserted (raises : ∀ c s, R s c → ∃ e s', B.writeOneBlock c.length [] s = .error e s') :
      EmptyBlock R true
  | taken (shows : ∀ c s, R s c → B.blockSize ∣ c.length →
      ∃ s', B.writeOneBlock c.length [] s = .ok true s' ∧
        B.accessors.Shows ⟨⟨c.length, []⟩, s'⟩ c) : EmptyBlock R false

variable {B} {R : σ → Bytes → Prop}

lemma cacheWriteOneBlock_true {o o' : Cached σ} {offset : ℕ} {data : Bytes} :
    B.cacheWriteOneBlock offset data o = .ok true o' ↔
      ∃ s, B.writeOneBlock offset data o.file = .ok true s ∧ o' = ⟨⟨offset, data⟩, s⟩ := by
  have hset : setCache ⟨offset, data⟩ o = .ok ⟨⟩ ⟨⟨offset, data⟩, o.file⟩ := rfl
  rw [cacheWriteOneBlock, Action.bind_ok hset]
  cases hwrite : B.writeOneBlock offset data o.file with
  | error e s =>
    rw [Action.bind_error (lift_error hwrite)]
    simp
  | ok ok s =>
    rw [Action.bind_ok (lift_ok hwrite)]
    cases ok with
    | false =>
      dsimp only
      rw [Action.bind_ok (clearCache_run _ _)]
      simp
    | true => simp [eq_comm]

lemma paddedSize_eq {size offset : ℕ} (h : size < offset) :
    B.paddedSize size offset false = size ↔ B.Unpadded size offset := by
  have hsize := Nat.div_add_mod' size B.blockSize
  have hoffset := Nat.div_add_mod' offset B.blockSize
  rw [paddedSize, if_neg (by simp), Unpadded]
  by_cases hsame : size / B.blockSize = offset / B.blockSize
  · simp [hsame]
  · rw [if_neg hsame]
    have hnot : ¬ offset ≤ size := Nat.not_le.mpr h
    simp only [hsame, hnot, false_or]
    have hle := firstToPad_le (B := B) h hsame
    obtain ⟨hge, hpad, -⟩ := firstToPad_spec B size
    cases hholes : B.allowHoles with
    | true =>
      rw [if_pos rfl]
      constructor
      · intro heq
        exact ⟨rfl, heq ▸ Nat.dvd_mul_left _ _⟩
      · rintro ⟨-, hdvd⟩
        rw [firstToPad, if_neg (not_not_intro (Nat.mod_eq_zero_of_dvd hdvd))]
        exact Nat.div_mul_cancel hdvd
    | false =>
      rw [if_neg (by simp)]
      constructor
      · intro heq
        exact (hsame (by rw [← heq, Nat.mul_div_cancel _ B.blockSize_pos])).elim
      · rintro ⟨hfalse, -⟩
        cases hfalse

section

variable (hB : B.BlockStore R) {o : Cached σ} {c : Bytes} (h : B.Represents R o c)
include hB h

lemma write_nil_outside {offset : ℕ} (hend : ¬ (offset = c.length ∧ B.blockSize ∣ c.length)) :
    ∃ o', B.write offset [] o = .ok true o' ∧
      B.Represents R o' (if c.length < offset then
        resize 0 c (B.paddedSize c.length offset false) else c) := by
  obtain ⟨cache, s⟩ := o
  obtain ⟨s₁, (hsize : B.getSize s = .ok c.length s₁), hR⟩ := hB.getSize h.stored
  have hoffset := Nat.div_add_mod' offset B.blockSize
  have hlength := Nat.div_add_mod' c.length B.blockSize
  have hslow : ¬ (offset % B.blockSize = 0 ∧ ([] : Bytes).length ≤ B.blockSize ∧
      (([] : Bytes).length = B.blockSize ∨ (offset / B.blockSize = c.length / B.blockSize ∧
        c.length % B.blockSize ≤ ([] : Bytes).length))) := by
    rintro ⟨hmod, -, hfull | ⟨hblock, hle⟩⟩
    · exact Nat.ne_of_lt B.blockSize_pos hfull
    · have hzero : c.length % B.blockSize = 0 := Nat.le_zero.mp hle
      refine hend ⟨?_, Nat.dvd_of_mod_eq_zero hzero⟩
      rw [← hoffset, ← hlength, hmod, hzero, hblock]
  rw [write_of_size hsize]
  simp only [writeSized]
  rw [if_neg hslow]
  by_cases hgap : c.length < offset
  · obtain ⟨o', hpad, hR', hcache⟩ := padFile_spec hB (o := ⟨cache, s₁⟩) false hR
      h.coherent.settled rfl hgap
    refine ⟨o', ?_, ?_⟩
    · rw [fillGap, if_pos hgap, Action.bind_ok hpad]
      rfl
    · rw [if_pos hgap]
      refine ⟨hR', ?_⟩
      rcases hcache with hco | ⟨hsame, hcache⟩
      · exact hco
      · rw [hsame, resize_self, hcache]
        exact h.coherent
  · refine ⟨⟨cache, s₁⟩, ?_, ?_⟩
    · rw [fillGap, if_neg hgap]
      rfl
    · rw [if_neg hgap]
      exact ⟨hR, h.coherent⟩

lemma write_nil_end (hdvd : B.blockSize ∣ c.length) {asserts : Bool}
    (hempty : B.EmptyBlock R asserts) : B.WritesNothing o c c.length ↔ asserts = false := by
  obtain ⟨cache, s⟩ := o
  obtain ⟨s₁, (hsize : B.getSize s = .ok c.length s₁), hR⟩ := hB.getSize h.stored
  have hmod := Nat.mod_eq_zero_of_dvd hdvd
  have hrun : B.write c.length [] ⟨cache, s⟩ = B.cacheWriteOneBlock c.length [] ⟨cache, s₁⟩ := by
    rw [write_of_size hsize, writeSized, fillGap, if_neg (Nat.lt_irrefl _)]
    refine (Action.pure_bind_run _ _ _).trans ?_
    rw [if_pos ⟨hmod, Nat.zero_le _, .inr ⟨rfl, by rw [hmod]; exact Nat.zero_le _⟩⟩]
  rw [WritesNothing, hrun]
  simp only [cacheWriteOneBlock_true]
  cases hempty with
  | asserted raises =>
    refine iff_of_false ?_ (by simp)
    rintro ⟨o', ⟨s₂, hwrite, -⟩, -⟩
    obtain ⟨e, s', herror⟩ := raises c s₁ hR
    rw [herror] at hwrite
    cases hwrite
  | taken shows =>
    obtain ⟨s₂, hwrite, hshows⟩ := shows c s₁ hR hdvd
    exact iff_of_true ⟨_, ⟨s₂, hwrite, rfl⟩, hshows⟩ rfl

/-- A write of no bytes changes nothing unless it pads the file or has an empty block coded. -/
theorem write_nothing {asserts : Bool} (hempty : B.EmptyBlock R asserts) (offset : ℕ) :
    B.WritesNothing o c offset ↔ B.Unpadded c.length offset ∧
      (offset = c.length → B.blockSize ∣ c.length → asserts = false) := by
  by_cases hend : offset = c.length ∧ B.blockSize ∣ c.length
  · obtain ⟨rfl, hdvd⟩ := hend
    rw [write_nil_end hB h hdvd hempty]
    simp [Unpadded, hdvd]
  have hvacuous : offset = c.length → B.blockSize ∣ c.length → asserts = false :=
    fun heq hdvd => (hend ⟨heq, hdvd⟩).elim
  rw [and_iff_left hvacuous]
  obtain ⟨o', hrun, ho'⟩ := write_nil_outside hB h hend
  have hshows := (readsFlat hB.toReads).shows ho'
  by_cases hgap : c.length < offset
  · rw [if_pos hgap] at hshows
    rw [← paddedSize_eq hgap]
    constructor
    · rintro ⟨o'', hrun', hshows'⟩
      rw [hrun] at hrun'
      cases hrun'
      simpa using hshows.length_eq hshows'
    · intro hsame
      rw [hsame, resize_self] at hshows
      exact ⟨o', hrun, hshows⟩
  · rw [if_neg hgap] at hshows
    exact iff_of_true ⟨o', hrun, hshows⟩ (.inl (Nat.not_lt.mp hgap))

end

end BlockFileIO

namespace CipherFileIO

variable {τ : Type} {F : CipherFileIO τ}

lemma emptyBlock (hcheck : F.cipher.checksSize = true) (R : CipherFile τ → Bytes → Prop) :
    F.blockFile.EmptyBlock R true := by
  refine .asserted fun c f _ => ?_
  change ∃ e f', F.writeOneBlock c.length [] f = .error e f'
  rw [writeOneBlock]
  cases hneed : F.needHeader f with
  | error e f' => exact ⟨e, f', Action.bind_error hneed⟩
  | ok u f' =>
    refine ⟨.assertFailed, f', ?_⟩
    rw [Action.bind_ok hneed, Action.get_bind, if_pos ⟨hcheck, rfl⟩]
    rfl

theorem not_write_nothing :
    ¬ ∀ (o : Cached (CipherFile Bytes)) (c : Bytes) (offset : ℕ),
      (maskFile false false).blockFile.Represents
        ((maskFile false false).Decodes 0 ((maskFile false false).Owned (fun s c => s = c) 0 0)) o c →
      (maskFile false false).blockFile.WritesNothing o c offset := by
  intro h
  obtain ⟨o', hwrite, -⟩ := h ⟨.empty, ⟨[], 0, 0, 0, 0⟩⟩ [] 0 (represents_fresh
    ⟨[], ⟨rfl, [], rfl, .plain rfl rfl rfl rfl, .inr rfl⟩,
      (decoded_nil (maskCipher_lawful 4) 0).symm⟩)
  cases hwrite

theorem write_nothing_maskFile :
    (maskFile false false).blockFile.WritesNothing ⟨.empty, ⟨[241, 242, 243, 244], 0, 0, 0, 0⟩⟩
        ((maskFile false false).decoded 0 [241, 242, 243, 244]) 2 ↔
      (maskFile false false).blockFile.Unpadded
          ((maskFile false false).decoded 0 [241, 242, 243, 244]).length 2 ∧
        (2 = ((maskFile false false).decoded 0 [241, 242, 243, 244]).length →
          4 ∣ ((maskFile false false).decoded 0 [241, 242, 243, 244]).length → true = false) :=
  BlockFileIO.write_nothing (B := (maskFile false false).blockFile)
    (owned_blockStore (v := 0) plainFile_flatStore (maskCipher_lawful 4) rfl)
    (represents_fresh ⟨[241, 242, 243, 244],
      ⟨rfl, [241, 242, 243, 244], rfl, .plain rfl rfl rfl rfl, .inl rfl⟩, rfl⟩)
    (emptyBlock rfl _) 2

end CipherFileIO

end EncFS
