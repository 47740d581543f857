import EncFS.BlockFileIO.Refinement

set_option autoImplicit false

namespace EncFS

open FlatArray Cached

inductive Call
  | read (block : ℕ)
  | write (block : ℕ)
  deriving DecidableEq, Repr

/-- The members of a derived class, one of whose calls is going to fail: the one that comes after
`left` more calls. Once it has come it is `failed`, and the other calls do what they always do. -/
structure Watched (σ : Type) where
  file : σ
  left : ℕ
  failed : Option Call

namespace Watched

variable {σ α : Type}

def lift (x : Action σ α) : Action (Watched σ) α := fun w =>
  match x w.file with
  | .ok a s => .ok a { w with file := s }
  | .error e s => .error e { w with file := s }

def pass (call : Call) (failure : α) (x : Action σ α) : Action (Watched σ) α := do
  let w ← get
  match w.failed, w.left with
  | none, 0 => do
    set { w with failed := some call }
    pure failure
  | none, left + 1 => do
    set { w with left := left }
    lift x
  | some _, _ => lift x

def forget (o : Cached (Watched σ)) : Cached σ := ⟨o.cache, o.file.file⟩

end Watched

namespace BlockFileIO

variable {σ : Type}

def watch (B : BlockFileIO σ) : BlockFileIO (Watched σ) where
  blockSize := B.blockSize
  blockSize_gt := B.blockSize_gt
  allowHoles := B.allowHoles
  getSize := Watched.lift B.getSize
  readOneBlock offset dataLen :=
    Watched.pass (.read (offset / B.blockSize)) none (B.readOneBlock offset dataLen)
  writeOneBlock offset data :=
    Watched.pass (.write (offset / B.blockSize)) false (B.writeOneBlock offset data)

def SameOutside (old new : Bytes) (start stop : ℕ) : Prop :=
  ∀ i, i < min start old.length ∨ stop ≤ i → new[i]? = old[i]?

lemma sameOutside_splice (c d : Bytes) (start : ℕ) :
    SameOutside c (splice 0 c start d) start (start + d.length) := by
  intro i hi
  rw [splice_getElem?]
  rcases hi with hlt | hle
  · have hi : i < c.length := by omega
    rw [if_pos (by omega), List.getD_eq_getElem?_getD, List.getElem?_eq_getElem hi, Option.getD_some]
  · rw [if_neg (by omega), if_neg (by omega)]

lemma SameOutside.trans {c c' c'' : Bytes} {a b a' b' : ℕ} (h : SameOutside c c' a b)
    (h' : SameOutside c' c'' a' b') (ha : a ≤ a') (hb : b ≤ b') : SameOutside c c'' a b' := by
  intro i hi
  have hold := h i (by omega)
  rcases hi with hlt | hle
  · have hi : i < c'.length := by
      by_contra hge
      rw [List.getElem?_eq_none (by omega), List.getElem?_eq_getElem (by omega)] at hold
      cases hold
    rw [h' i (by omega), hold]
  · rw [h' i (.inr hle), hold]

lemma SameOutside.refl (c : Bytes) (start stop : ℕ) : SameOutside c c start stop :=
  fun _ _ => rfl

structure Steady (B : BlockFileIO σ) (R : σ → Bytes → Prop) : Prop extends B.BlockStore R where
  takes {s c} (k : ℕ) {d : Bytes} : R s c → d ≠ [] → d.length ≤ B.blockSize →
    ∃ s' c', B.writeOneBlock (k * B.blockSize) d s = .ok true s' ∧ R s' c'

namespace Steady

variable {B : BlockFileIO σ} {R : σ → Bytes → Prop}

/-- The file and the cache of an object that is watched are such that its calls are in order. -/
structure Sane (B : BlockFileIO σ) (R : σ → Bytes → Prop) (o : Cached (Watched σ)) : Prop where
  stored : ∃ c, R o.file.file c
  cache_le : o.cache.data.length ≤ B.blockSize

lemma pass_cases {α : Type} (call : Call) (failure : α) {a : α} {x : Action σ α} {w : Watched σ}
    {s : σ} (hx : x w.file = .ok a s) :
    (∃ left, Watched.pass call failure x w = .ok a ⟨s, left, w.failed⟩) ∨
      w.failed = none ∧ Watched.pass call failure x w = .ok failure ⟨w.file, w.left, some call⟩ := by
  obtain ⟨file, left, failed⟩ := w
  cases failed with
  | some call' =>
    left
    refine ⟨left, ?_⟩
    simp only [Watched.pass, Action.get_bind, Watched.lift, hx]
  | none =>
    cases left with
    | zero => exact .inr ⟨rfl, rfl⟩
    | succ left =>
      left
      refine ⟨left, ?_⟩
      simp only [Watched.pass, Action.get_bind, Action.set_bind, Watched.lift, hx]

variable (hB : B.Steady R)
include hB

lemma cacheReadOneBlock_cases {o : Cached (Watched σ)} (k n : ℕ) (ho : Sane B R o) :
    ∃ r o', B.watch.cacheReadOneBlock (k * B.blockSize) n o = .ok r o' ∧ Sane B R o' ∧
      (r.getD []).length ≤ B.blockSize ∧
      (o'.file.failed = o.file.failed ∧
          B.cacheReadOneBlock (k * B.blockSize) n (Watched.forget o) = .ok r (Watched.forget o') ∨
        o.file.failed = none ∧ o'.file.failed = some (.read k) ∧ r = none ∧
          o'.file.file = o.file.file ∧ o'.cache.data = []) := by
  obtain ⟨⟨off, cached⟩, file, left, failed⟩ := o
  obtain ⟨⟨c, hR⟩, hcache⟩ := ho
  have hk : k * B.blockSize / B.blockSize = k := Nat.mul_div_cancel k B.blockSize_pos
  by_cases hit : k * B.blockSize = off ∧ cached ≠ []
  · refine ⟨some (cached.take n), ⟨⟨off, cached⟩, file, left, failed⟩, ?_, ⟨⟨c, hR⟩, hcache⟩, ?_,
      .inl ⟨rfl, ?_⟩⟩
    · simp only [cacheReadOneBlock, Action.get_bind, if_pos hit]
      rfl
    · rw [Option.getD_some, List.length_take]
      exact Nat.le_trans (Nat.min_le_right _ _) hcache
    · simp only [cacheReadOneBlock, Watched.forget, Action.get_bind, if_pos hit]
      rfl
  · obtain ⟨s, hread, hR'⟩ := hB.readOneBlock k hR
    simp only [cacheReadOneBlock, Watched.forget, Action.get_bind, if_neg hit]
    rw [Action.bind_ok (clearCache_run _ file), Action.bind_ok (lift_ok hread),
      Action.bind_ok (clearCache_run _ _)]
    rcases pass_cases (.read k) none (w := ⟨file, left, failed⟩) hread with
      ⟨left', hpass⟩ | ⟨hnone, hpass⟩
    · have hwatch : B.watch.readOneBlock (k * B.blockSize) B.watch.blockSize ⟨file, left, failed⟩ =
          .ok (some (B.flatModel.block c k)) ⟨s, left', failed⟩ := by
        rw [← hpass]
        simp only [watch, hk]
      rw [Action.bind_ok (lift_ok hwatch)]
      have hlen : (B.flatModel.block c k).length ≤ B.blockSize := by
        simp only [flatModel, slice_length]
        exact Nat.min_le_left _ _
      by_cases hempty : B.flatModel.block c k = []
      · simp only [if_pos hempty]
        exact ⟨_, _, rfl, ⟨⟨c, hR'⟩, Nat.zero_le _⟩, Nat.zero_le _, .inl ⟨rfl, rfl⟩⟩
      · simp only [if_neg hempty]
        refine ⟨_, _, rfl, ⟨⟨c, hR'⟩, hlen⟩, ?_, .inl ⟨rfl, rfl⟩⟩
        rw [Option.getD_some, List.length_take]
        exact Nat.le_trans (Nat.min_le_right _ _) hlen
    · have hwatch : B.watch.readOneBlock (k * B.blockSize) B.watch.blockSize ⟨file, left, failed⟩ =
          .ok none ⟨file, left, some (.read k)⟩ := by
        rw [← hpass]
        simp only [watch, hk]
      rw [Action.bind_ok (lift_ok hwatch)]
      exact ⟨none, _, rfl, ⟨⟨c, hR⟩, Nat.zero_le _⟩, Nat.zero_le _, .inr ⟨hnone, rfl, rfl, rfl, rfl⟩⟩

lemma cacheWriteOneBlock_cases {o : Cached (Watched σ)} (k : ℕ) {d : Bytes} (ho : Sane B R o)
    (hd : d ≠ []) (hlen : d.length ≤ B.blockSize) :
    ∃ r o', B.watch.cacheWriteOneBlock (k * B.blockSize) d o = .ok r o' ∧ Sane B R o' ∧
      (r = true ∧ o'.file.failed = o.file.failed ∧
          B.cacheWriteOneBlock (k * B.blockSize) d (Watched.forget o) =
            .ok true (Watched.forget o') ∨
        r = false ∧ o.file.failed = none ∧ o'.file.failed = some (.write k) ∧
          o'.file.file = o.file.file) := by
  obtain ⟨cache, file, left, failed⟩ := o
  obtain ⟨⟨c, hR⟩, hcache⟩ := ho
  have hk : k * B.blockSize / B.blockSize = k := Nat.mul_div_cancel k B.blockSize_pos
  obtain ⟨s, c', hwrite, hR'⟩ := hB.takes k hR hd hlen
  rw [cacheWriteOneBlock, cacheWriteOneBlock, Action.bind_ok (setCache_run _ _ _),
    Watched.forget, Action.bind_ok (setCache_run _ _ _), Action.bind_ok (lift_ok hwrite)]
  rcases pass_cases (.write k) false (w := ⟨file, left, failed⟩) hwrite with
    ⟨left', hpass⟩ | ⟨hnone, hpass⟩
  · have hwatch : B.watch.writeOneBlock (k * B.blockSize) d ⟨file, left, failed⟩ =
        .ok true ⟨s, left', failed⟩ := by
      rw [← hpass]
      simp only [watch, hk]
    rw [Action.bind_ok (lift_ok hwatch)]
    exact ⟨true, _, rfl, ⟨⟨c', hR'⟩, hlen⟩, .inl ⟨rfl, rfl, rfl⟩⟩
  · have hwatch : B.watch.writeOneBlock (k * B.blockSize) d ⟨file, left, failed⟩ =
        .ok false ⟨file, left, some (.write k)⟩ := by
      rw [← hpass]
      simp only [watch, hk]
    rw [Action.bind_ok (lift_ok hwatch)]
    exact ⟨false, _, rfl, ⟨⟨c, hR⟩, Nat.zero_le _⟩, .inr ⟨rfl, hnone, rfl, rfl⟩⟩

omit hB in
structure Traced {α : Type} (K : Call → Prop) (y : Action (Cached σ) α) (o : Cached (Watched σ))
    (a : α) (o' : Cached (Watched σ)) : Prop where
  kept : ∀ call, o.file.failed = some call → o'.file.failed = some call
  same : o.file.failed = none → o'.file.failed = none →
    y (Watched.forget o) = .ok a (Watched.forget o')
  comes : o.file.failed = none → ∀ call, o'.file.failed = some call → K call

omit hB in
def Tracks {α : Type} (B : BlockFileIO σ) (R : σ → Bytes → Prop) (K : Call → Prop)
    (x : Action (Cached (Watched σ)) α) (y : Action (Cached σ) α) : Prop :=
  ∀ o, Sane B R o → ∃ a o', x o = .ok a o' ∧ Sane B R o' ∧ Traced K y o a o'

section

variable {α β : Type} {K : Call → Prop}

omit hB in
lemma Tracks.pure (a : α) : Tracks B R K (Pure.pure a) (Pure.pure a) :=
  fun o ho => ⟨a, o, rfl, ho, fun _ h => h, fun _ _ => rfl, fun h _ h' => by rw [h] at h'; cases h'⟩

omit hB in
lemma Tracks.bind {x : Action (Cached (Watched σ)) α} {y : Action (Cached σ) α}
    {f : α → Action (Cached (Watched σ)) β} {g : α → Action (Cached σ) β}
    (hx : Tracks B R K x y) (hf : ∀ a, Tracks B R K (f a) (g a)) :
    Tracks B R K (x >>= f) (y >>= g) := by
  intro o ho
  obtain ⟨a, o₁, h₁, ho₁, hx₁⟩ := hx o ho
  obtain ⟨b, o₂, h₂, ho₂, hf₂⟩ := hf a o₁ ho₁
  refine ⟨b, o₂, (Action.bind_ok h₁).trans h₂, ho₂, ?_, ?_, ?_⟩
  · intro call h
    exact hf₂.kept call (hx₁.kept call h)
  · intro hnone hnone'
    cases hfailed : o₁.file.failed with
    | none => exact (Action.bind_ok (hx₁.same hnone hfailed)).trans (hf₂.same hfailed hnone')
    | some call =>
      rw [hf₂.kept call hfailed] at hnone'
      cases hnone'
  · intro hnone call h
    cases hfailed : o₁.file.failed with
    | none => exact hf₂.comes hfailed call h
    | some call' =>
      rw [hf₂.kept call' hfailed] at h
      cases h
      exact hx₁.comes hnone call hfailed

omit hB in
lemma Tracks.ite {c : Prop} [Decidable c] {x x' : Action (Cached (Watched σ)) α}
    {y y' : Action (Cached σ) α} (hx : c → Tracks B R K x y) (hx' : ¬c → Tracks B R K x' y') :
    Tracks B R K (if c then x else x') (if c then y else y') := by
  by_cases hc : c
  · rw [if_pos hc, if_pos hc]
    exact hx hc
  · rw [if_neg hc, if_neg hc]
    exact hx' hc

omit hB in
lemma Traced.went_on {y : Action (Cached σ) α} {o o' : Cached (Watched σ)} {a : α}
    (hfailed : o'.file.failed = o.file.failed)
    (hrun : y (Watched.forget o) = .ok a (Watched.forget o')) : Traced K y o a o' where
  kept _ h := hfailed.trans h
  same _ _ := hrun
  comes hnone call h := by
    rw [hfailed, hnone] at h
    cases h

omit hB in
lemma Traced.failed {y : Action (Cached σ) α} {o o' : Cached (Watched σ)} {a : α} {call : Call}
    (hnone : o.file.failed = none) (hfailed : o'.file.failed = some call) (hK : K call) :
    Traced K y o a o' where
  kept _ h := by
    rw [hnone] at h
    cases h
  same _ h := by
    rw [hfailed] at h
    cases h
  comes _ call h := by
    rw [hfailed] at h
    cases h
    exact hK

lemma tracks_read {k : ℕ} (n : ℕ) (hK : K (.read k)) :
    Tracks B R K (B.watch.cacheReadOneBlock (k * B.blockSize) n)
      (B.cacheReadOneBlock (k * B.blockSize) n) := by
  intro o ho
  obtain ⟨r, o', h, ho', -, hcases⟩ := cacheReadOneBlock_cases hB k n ho
  refine ⟨r, o', h, ho', ?_⟩
  rcases hcases with ⟨hfailed, hrun⟩ | ⟨hnone, hfailed, -⟩
  · exact .went_on hfailed hrun
  · exact .failed hnone hfailed hK

lemma tracks_write {k : ℕ} {d : Bytes} (hd : d ≠ []) (hlen : d.length ≤ B.blockSize)
    (hK : K (.write k)) :
    Tracks B R K (B.watch.cacheWriteOneBlock (k * B.blockSize) d)
      (B.cacheWriteOneBlock (k * B.blockSize) d) := by
  intro o ho
  obtain ⟨r, o', h, ho', hcases⟩ := cacheWriteOneBlock_cases hB k ho hd hlen
  refine ⟨r, o', h, ho', ?_⟩
  rcases hcases with ⟨rfl, hfailed, hrun⟩ | ⟨-, hnone, hfailed, -⟩
  · exact .went_on hfailed hrun
  · exact .failed hnone hfailed hK

lemma tracks_padBlock {k readSize size : ℕ} (hsize : 0 < size) (hle : size ≤ B.blockSize)
    (hread : K (.read k)) (hwrite : K (.write k)) :
    Tracks B R K (B.watch.padBlock k readSize size) (B.padBlock k readSize size) := by
  apply Tracks.bind (tracks_read hB readSize hread)
  intro block
  have hlen : (padded block size).length = size := resize_length 0 _ _
  refine Tracks.bind (tracks_write hB ?_ (by omega) hwrite) fun _ => Tracks.pure _
  apply List.ne_nil_of_length_pos
  omega

lemma tracks_padBlocks (count first : ℕ) (hwrite : ∀ k, first ≤ k → k < first + count → K (.write k)) :
    Tracks B R K (B.watch.padBlocks count first) (B.padBlocks count first) := by
  induction count generalizing first with
  | zero => exact Tracks.pure _
  | succ count ih =>
    refine Tracks.bind (tracks_write hB ?_ ?_ (hwrite first (by omega) (by omega))) fun _ => ?_
    · apply List.ne_nil_of_length_pos
      rw [List.length_replicate]
      exact B.blockSize_pos
    · rw [List.length_replicate]
      exact Nat.le_refl _
    · exact ih (first + 1) fun k hk hlt => hwrite k (by omega) (by omega)

lemma tracks_fillGap (size offset : ℕ) :
    Tracks B R (fun call => size / B.blockSize ≠ offset / B.blockSize ∧ size < offset ∧
        ∀ k, call = .write k → k < offset / B.blockSize)
      (B.watch.fillGap size offset) (B.fillGap size offset) := by
  rw [fillGap, fillGap]
  refine Tracks.ite (fun hgap => ?_) fun _ => Tracks.pure _
  have hdiv := Nat.div_le_div_right (c := B.blockSize) (Nat.le_of_lt hgap)
  rw [padFile, padFile]
  refine Tracks.ite (fun _ => Tracks.ite (fun h => by simp at h) fun _ => Tracks.pure _) fun hsame => ?_
  refine Tracks.bind ?_ fun _ => Tracks.bind ?_ fun _ => ?_
  · rw [padFirstBlock, padFirstBlock]
    refine Tracks.ite (fun _ => ?_) fun _ => Tracks.pure _
    apply tracks_padBlock hB B.blockSize_pos (Nat.le_refl _)
    · exact ⟨hsame, hgap, fun k h => by cases h⟩
    · refine ⟨hsame, hgap, fun k h => ?_⟩
      cases h
      exact Nat.lt_of_le_of_ne hdiv hsame
  · rw [padMiddleBlocks, padMiddleBlocks]
    refine Tracks.ite (fun _ => Tracks.pure _) fun _ => ?_
    refine tracks_padBlocks hB _ _ fun k hk hlt => ⟨hsame, hgap, fun j h => ?_⟩
    cases h
    have hfirst := firstToPad_le hgap hsame
    have hwatch : B.watch.firstToPad size = B.firstToPad size := rfl
    have hbs : B.watch.blockSize = B.blockSize := rfl
    rw [hwatch, hbs] at hlt
    omega
  · rw [padLastBlock, padLastBlock]
    exact Tracks.ite (fun h => by simp at h) fun _ => Tracks.pure _

end

lemma blockToWrite_cases {o : Cached (Watched σ)} (size k p : ℕ) (chunk : Bytes)
    (ho : Sane B R o) (hchunk : chunk ≠ []) (hp : p + chunk.length ≤ B.blockSize) :
    ∃ d o', B.watch.blockToWrite size (B.lastNonEmptyBlock size) k p chunk o = .ok d o' ∧
      Sane B R o' ∧ d ≠ [] ∧ d.length ≤ B.blockSize ∧
      (o'.file.failed = o.file.failed ∧
          B.blockToWrite size (B.lastNonEmptyBlock size) k p chunk (Watched.forget o) =
            .ok d (Watched.forget o') ∨
        o.file.failed = none ∧ o'.file.failed = some (.read k)) := by
  have hpos := List.length_pos_of_ne_nil hchunk
  have hsplice (block : Bytes) : splice 0 block p chunk ≠ [] := by
    apply List.ne_nil_of_length_pos
    rw [splice_length]
    omega
  have hbs : B.watch.blockSize = B.blockSize := rfl
  rw [blockToWrite, blockToWrite, hbs]
  by_cases hdirect : chunk.length = B.blockSize ∨
      (p = 0 ∧ size ≤ k * B.blockSize + chunk.length)
  · simp only [if_pos hdirect]
    exact ⟨chunk, o, rfl, ho, hchunk, by omega, .inl ⟨rfl, rfl⟩⟩
  simp only [if_neg hdirect]
  by_cases hlast : B.lastNonEmptyBlock size < k
  · simp only [if_pos hlast]
    refine ⟨_, o, rfl, ho, hsplice [], ?_, .inl ⟨rfl, rfl⟩⟩
    rw [splice_length, List.length_nil]
    omega
  · simp only [if_neg hlast]
    obtain ⟨r, o', h, ho', hlen, hcases⟩ := cacheReadOneBlock_cases hB k B.blockSize ho
    rw [Action.bind_ok h]
    refine ⟨_, o', rfl, ho', hsplice _, ?_, ?_⟩
    · rw [splice_length]
      omega
    · rcases hcases with ⟨hfailed, hrun⟩ | ⟨hnone, hfailed, -⟩
      · left
        refine ⟨hfailed, ?_⟩
        rw [Action.bind_ok hrun]
        rfl
      · exact .inr ⟨hnone, hfailed⟩

lemma writeLoop_succ {o : Cached (Watched σ)} (size fuel k p : ℕ) {data : Bytes} {toCopy : ℕ}
    (ht : toCopy = min (B.blockSize - p) data.length) (hp : p < B.blockSize) (hd : data ≠ [])
    (ho : Sane B R o) :
    ∃ d o₁ o₂, Sane B R o₂ ∧
      (o₁.file.failed = o.file.failed ∧
          B.blockToWrite size (B.lastNonEmptyBlock size) k p (data.take toCopy)
            (Watched.forget o) = .ok d (Watched.forget o₁) ∨
        o.file.failed = none ∧ o₁.file.failed = some (.read k)) ∧
      (o₂.file.failed = o₁.file.failed ∧
          B.cacheWriteOneBlock (k * B.blockSize) d (Watched.forget o₁) =
            .ok true (Watched.forget o₂) ∧
          B.watch.writeLoop size (B.lastNonEmptyBlock size) (fuel + 1) k p data o =
            B.watch.writeLoop size (B.lastNonEmptyBlock size) fuel (k + 1) 0 (data.drop toCopy) o₂ ∨
        o₁.file.failed = none ∧ o₂.file.failed = some (.write k) ∧ o₂.file.file = o₁.file.file ∧
          B.watch.writeLoop size (B.lastNonEmptyBlock size) (fuel + 1) k p data o =
            .ok false o₂) := by
  have hpos := List.length_pos_of_ne_nil hd
  have hbs : B.watch.blockSize = B.blockSize := rfl
  have hchunk : (data.take toCopy).length = toCopy := by
    rw [List.length_take]
    omega
  obtain ⟨d, o₁, h₁, ho₁, hne, hlen, hread⟩ := blockToWrite_cases hB size k p
    (data.take toCopy) ho (List.ne_nil_of_length_pos (by omega)) (by omega)
  obtain ⟨r, o₂, h₂, ho₂, hwrite⟩ := cacheWriteOneBlock_cases hB k ho₁ hne hlen
  refine ⟨d, o₁, o₂, ho₂, hread, ?_⟩
  rw [writeLoop, if_neg hd]
  simp only [hbs, ← ht]
  rw [Action.bind_ok h₁, Action.bind_ok h₂]
  rcases hwrite with ⟨rfl, hfailed, hrun⟩ | ⟨rfl, hnone, hfailed, hfile⟩
  · exact .inl ⟨hfailed, hrun, rfl⟩
  · exact .inr ⟨hnone, hfailed, hfile, rfl⟩

lemma writeLoop_after (size : ℕ) {call : Call} (fuel : ℕ) :
    ∀ (o : Cached (Watched σ)) (k p : ℕ) (data : Bytes), p < B.blockSize → Sane B R o →
      o.file.failed = some call →
      ∃ o', B.watch.writeLoop size (B.lastNonEmptyBlock size) fuel k p data o = .ok true o' ∧
        o'.file.failed = some call := by
  induction fuel with
  | zero => exact fun o k p data _ _ hfailed => ⟨o, rfl, hfailed⟩
  | succ fuel ih =>
    intro o k p data hp ho hfailed
    by_cases hd : data = []
    · refine ⟨o, ?_, hfailed⟩
      rw [writeLoop, if_pos hd]
      rfl
    obtain ⟨d, o₁, o₂, ho₂, hread, hwrite⟩ := writeLoop_succ hB size fuel k p rfl hp hd ho
    have hfailed₁ : o₁.file.failed = some call := by
      rcases hread with ⟨hsame, -⟩ | ⟨hnone, -⟩
      · rw [hsame, hfailed]
      · rw [hnone] at hfailed
        cases hfailed
    rcases hwrite with ⟨hsame, -, hrun⟩ | ⟨hnone, -⟩
    · rw [hrun]
      exact ih o₂ (k + 1) 0 _ B.blockSize_pos ho₂ (hsame.trans hfailed₁)
    · rw [hnone] at hfailed₁
      cases hfailed₁

def LoopReports (R : σ → Bytes → Prop) (c : Bytes) (bs k p n : ℕ) (written : Bool)
    (o : Cached (Watched σ)) : Prop :=
  ∀ call, o.file.failed = some call →
    written = true ∧ (∃ j, call = .read j) ∨
    written = false ∧ (∃ j, call = .write j ∧ k ≤ j) ∧ ∃ c', R o.file.file c' ∧
      SameOutside c c' (k * bs + p) (k * bs + p + n)

omit hB in
lemma LoopReports.of_none {c : Bytes} {bs k p n : ℕ} {written : Bool} {o : Cached (Watched σ)}
    (h : o.file.failed = none) : LoopReports R c bs k p n written o := by
  intro call hcall
  rw [h] at hcall
  cases hcall

omit hB in
lemma LoopReports.after_block {c chunk : Bytes} {bs k p n : ℕ} {written : Bool}
    {o : Cached (Watched σ)} (hchunk : p + chunk.length = bs)
    (h : LoopReports R (splice 0 c (k * bs + p) chunk) bs (k + 1) 0 n written o) :
    LoopReports R c bs k p (chunk.length + n) written o := by
  intro call hcall
  rcases h call hcall with hread | ⟨hfalse, ⟨j, hj, hkj⟩, c', hR', hout⟩
  · exact .inl hread
  · refine .inr ⟨hfalse, ⟨j, hj, by omega⟩, c', hR', ?_⟩
    have hfirst := sameOutside_splice c chunk (k * bs + p)
    have hnext : (k + 1) * bs = k * bs + bs := Nat.succ_mul k bs
    rw [show (k + 1) * bs + 0 + n = k * bs + p + (chunk.length + n) by omega] at hout
    exact hfirst.trans hout (by omega) (by omega)

lemma writeLoop_watched (size fuel : ℕ) :
    ∀ (o : Cached (Watched σ)) (c : Bytes) (k p : ℕ) (data : Bytes), data.length ≤ fuel →
      p < B.blockSize → Sane B R o → R o.file.file c → B.Settled c o.cache → B.Writable size c k →
      o.file.failed = none →
      ∃ written o', B.watch.writeLoop size (B.lastNonEmptyBlock size) fuel k p data o =
          .ok written o' ∧ LoopReports R c B.blockSize k p data.length written o' := by
  induction fuel with
  | zero => exact fun o c k p data _ _ _ _ _ _ hnone => ⟨true, o, rfl, .of_none hnone⟩
  | succ fuel ih =>
    intro o c k p data hf hp ho hR hs hw hnone
    by_cases hd : data = []
    · refine ⟨true, o, ?_, .of_none hnone⟩
      rw [writeLoop, if_pos hd]
      rfl
    have hpos := List.length_pos_of_ne_nil hd
    obtain ⟨toCopy, ht⟩ : ∃ t, t = min (B.blockSize - p) data.length := ⟨_, rfl⟩
    have hchunk : (data.take toCopy).length = toCopy := by
      rw [List.length_take]
      omega
    have hne : data.take toCopy ≠ [] := List.ne_nil_of_length_pos (by omega)
    obtain ⟨d, o₁, o₂, ho₂, hread, hwrite⟩ := writeLoop_succ hB size fuel k p ht hp hd ho
    rcases hread with ⟨hsame₁, hrun₁⟩ | ⟨-, hread⟩
    case inr =>
      rcases hwrite with ⟨hsame₂, -, hrun⟩ | ⟨hnone₁, -⟩
      · obtain ⟨o', h', hfailed⟩ := writeLoop_after hB size fuel o₂ (k + 1) 0
          (data.drop toCopy) B.blockSize_pos ho₂ (hsame₂.trans hread)
        refine ⟨true, o', hrun.trans h', fun call h => .inl ⟨rfl, k, ?_⟩⟩
        rw [hfailed] at h
        exact (Option.some.inj h).symm
      · rw [hread] at hnone₁
        cases hnone₁
    obtain ⟨d', f₁, hrun₁', hR₁, hp₁, hput, hcover⟩ := blockToWrite_spec hB.toImplements
      (o := Watched.forget o) (data.take toCopy) p hR hs hw hne (by omega)
    obtain ⟨rfl, rfl⟩ : d = d' ∧ Watched.forget o₁ = f₁ := by
      rw [hrun₁] at hrun₁'
      cases hrun₁'
      exact ⟨rfl, rfl⟩
    rcases hwrite with ⟨hsame₂, hrun₂, hrun⟩ | ⟨-, hwrite, hfile, hrun⟩
    · obtain ⟨f₂, hrun₂', hR₂, hc₂⟩ := cacheWriteOneBlock_spec hB.toImplements hR₁ hp₁
      obtain rfl : Watched.forget o₂ = f₂ := by
        rw [hrun₂] at hrun₂'
        cases hrun₂'
        rfl
      have hnone₂ : o₂.file.failed = none := hsame₂.trans (hsame₁.trans hnone)
      by_cases hrest : data.drop toCopy = []
      · refine ⟨true, o₂, ?_, .of_none hnone₂⟩
        rw [hrun, hrest]
        cases fuel <;> rfl
      have hfull : toCopy = B.blockSize - p := by
        have := List.length_pos_of_ne_nil hrest
        rw [List.length_drop] at this
        omega
      obtain ⟨written, o', h', hcalls⟩ := ih o₂ _ (k + 1) 0 (data.drop toCopy)
        (by rw [List.length_drop]; omega) B.blockSize_pos ho₂ hR₂ hc₂.settled
        (hw.next (by have := hp₁.length_le; omega)) hnone₂
      rw [hput] at hcalls
      have hall := hcalls.after_block (by omega)
      rw [← List.length_append, List.take_append_drop] at hall
      exact ⟨written, o', hrun.trans h', hall⟩
    · refine ⟨false, o₂, hrun, fun call h => .inr ⟨rfl, ⟨k, ?_, Nat.le_refl k⟩, c, ?_, .refl c _ _⟩⟩
      · rw [hwrite] at h
        exact (Option.some.inj h).symm
      · rw [hfile]
        exact hR₁

omit hB in
lemma cacheWriteOneBlock_nil {o : Cached (Watched σ)} (k : ℕ) {call : Call}
    (hnone : o.file.failed = none)
    (hcall : (finalState (B.watch.cacheWriteOneBlock (k * B.blockSize) []) o).file.failed =
      some call) :
    ∃ o', B.watch.cacheWriteOneBlock (k * B.blockSize) [] o = .ok false o' ∧ call = .write k ∧
      o'.file.file = o.file.file := by
  obtain ⟨cache, file, left, failed⟩ := o
  obtain rfl : failed = none := hnone
  have hk : k * B.blockSize / B.blockSize = k := Nat.mul_div_cancel k B.blockSize_pos
  rw [finalState] at hcall
  rw [cacheWriteOneBlock, Action.bind_ok (setCache_run _ _ _)] at hcall ⊢
  cases left with
  | zero =>
    have hwatch : B.watch.writeOneBlock (k * B.blockSize) [] ⟨file, 0, none⟩ =
        .ok false ⟨file, 0, some (.write k)⟩ := by
      simp only [watch, hk]
      rfl
    rw [Action.bind_ok (lift_ok hwatch)] at hcall ⊢
    exact ⟨_, rfl, (Option.some.inj hcall).symm, rfl⟩
  | succ left =>
    cases hwrite : B.writeOneBlock (k * B.blockSize) [] file with
    | ok r s =>
      have hwatch : B.watch.writeOneBlock (k * B.blockSize) [] ⟨file, left + 1, none⟩ =
          .ok r ⟨s, left, none⟩ := by
        simp only [watch, Watched.pass, Action.get_bind, Action.set_bind, Watched.lift, hwrite]
      rw [Action.bind_ok (lift_ok hwatch)] at hcall
      cases r <;> cases hcall
    | error e s =>
      have hwatch : B.watch.writeOneBlock (k * B.blockSize) [] ⟨file, left + 1, none⟩ =
          .error e ⟨s, left, none⟩ := by
        simp only [watch, Watched.pass, Action.get_bind, Action.set_bind, Watched.lift, hwrite]
      rw [Action.bind_error (lift_error hwatch)] at hcall
      cases hcall

omit hB in
lemma sameOutside_fillGap {c c' : Bytes} {offset : ℕ} (hle : c.length ≤ c'.length)
    (h : splice 0 c' offset [] = splice 0 c offset []) (n : ℕ) :
    SameOutside c c' offset (offset + n) := by
  intro i hi
  have hi' := congrArg (fun x => x[i]?) h
  simp only [splice_getElem?, List.length_nil, List.getD_eq_getElem?_getD] at hi'
  rcases hi with hlt | hge
  · rw [if_pos (by omega), if_pos (by omega), List.getElem?_eq_getElem (l := c') (by omega),
      List.getElem?_eq_getElem (l := c) (by omega), Option.getD_some, Option.getD_some] at hi'
    rw [List.getElem?_eq_getElem (l := c') (by omega),
      List.getElem?_eq_getElem (l := c) (by omega), hi']
  · rwa [if_neg (by omega), if_neg (by omega), if_neg (by omega), if_neg (by omega)] at hi'

omit hB in
def writeRest (W : BlockFileIO σ) (size offset : ℕ) (data : Bytes) : Action (Cached σ) Bool :=
  if offset % W.blockSize = 0 ∧ data.length ≤ W.blockSize ∧
      (data.length = W.blockSize ∨ (offset / W.blockSize = size / W.blockSize ∧
        size % W.blockSize ≤ data.length)) then
    W.cacheWriteOneBlock offset data
  else
    W.writeLoop size (W.lastNonEmptyBlock size) data.length (offset / W.blockSize)
      (offset % W.blockSize) data

lemma writeRest_after {o : Cached (Watched σ)} {size offset : ℕ} (data : Bytes) {call : Call}
    (ho : Sane B R o) (hfailed : o.file.failed = some call)
    (hblock : size / B.blockSize ≠ offset / B.blockSize) :
    ∃ o', writeRest B.watch size offset data o = .ok true o' ∧ o'.file.failed = some call := by
  have hdiv := Nat.div_add_mod' offset B.blockSize
  have hbs : B.watch.blockSize = B.blockSize := rfl
  rw [writeRest, hbs]
  by_cases hfast : offset % B.blockSize = 0 ∧ data.length ≤ B.blockSize ∧
      (data.length = B.blockSize ∨ (offset / B.blockSize = size / B.blockSize ∧
        size % B.blockSize ≤ data.length))
  · rw [if_pos hfast]
    have hlen : data.length = B.blockSize :=
      hfast.2.2.resolve_right fun h => hblock h.1.symm
    have hpos := B.blockSize_pos
    obtain ⟨r, o', h, -, hcases⟩ := cacheWriteOneBlock_cases hB (offset / B.blockSize) ho
      (List.ne_nil_of_length_pos (by omega)) hfast.2.1
    rw [hfast.1, Nat.add_zero] at hdiv
    rw [hdiv] at h
    rcases hcases with ⟨rfl, hsame, -⟩ | ⟨-, hnone, -⟩
    · exact ⟨o', h, hsame.trans hfailed⟩
    · rw [hnone] at hfailed
      cases hfailed
  · rw [if_neg hfast]
    exact writeLoop_after hB size _ o _ _ data (Nat.mod_lt _ B.blockSize_pos) ho hfailed

lemma writeRest_before {o : Cached (Watched σ)} {size offset : ℕ} {c : Bytes} (data : Bytes)
    {call : Call} (ho : Sane B R o) (hR : R o.file.file c) (hs : B.Settled c o.cache)
    (hw : B.Writable size c (offset / B.blockSize)) (hnone : o.file.failed = none)
    (hcall : (finalState (writeRest B.watch size offset data) o).file.failed = some call) :
    ∃ written o', writeRest B.watch size offset data o = .ok written o' ∧
      (written = true ∧ (∃ j, call = .read j) ∨
        written = false ∧ (∃ j, call = .write j ∧ offset / B.blockSize ≤ j) ∧
          ∃ c', R o'.file.file c' ∧ SameOutside c c' offset (offset + data.length)) := by
  have hdiv := Nat.div_add_mod' offset B.blockSize
  have hbs : B.watch.blockSize = B.blockSize := rfl
  rw [writeRest, hbs] at hcall ⊢
  by_cases hfast : offset % B.blockSize = 0 ∧ data.length ≤ B.blockSize ∧
      (data.length = B.blockSize ∨ (offset / B.blockSize = size / B.blockSize ∧
        size % B.blockSize ≤ data.length))
  · rw [if_pos hfast] at hcall ⊢
    rw [hfast.1, Nat.add_zero] at hdiv
    by_cases hd : data = []
    · subst hd
      rw [← hdiv] at hcall
      obtain ⟨o', h, rfl, hfile⟩ := cacheWriteOneBlock_nil (offset / B.blockSize) hnone hcall
      rw [hdiv] at h
      refine ⟨false, o', h, .inr ⟨rfl, ⟨_, rfl, Nat.le_refl _⟩, c, ?_, .refl c _ _⟩⟩
      rwa [hfile]
    · obtain ⟨r, o', h, -, hcases⟩ := cacheWriteOneBlock_cases hB (offset / B.blockSize) ho hd
        hfast.2.1
      rw [hdiv] at h
      rw [finalState, h] at hcall
      rcases hcases with ⟨-, hsame, -⟩ | ⟨rfl, -, hwrite, hfile⟩
      · rw [hsame, hnone] at hcall
        cases hcall
      · rw [hwrite] at hcall
        refine ⟨false, o', h, .inr ⟨rfl, ⟨_, (Option.some.inj hcall).symm, Nat.le_refl _⟩, c, ?_,
          .refl c _ _⟩⟩
        rwa [hfile]
  · rw [if_neg hfast] at hcall ⊢
    obtain ⟨written, o', h, hcalls⟩ := writeLoop_watched hB size data.length o c
      (offset / B.blockSize) (offset % B.blockSize) data (Nat.le_refl _)
      (Nat.mod_lt _ B.blockSize_pos) ho hR hs hw hnone
    rw [LoopReports, hdiv] at hcalls
    have hlast : B.watch.lastNonEmptyBlock size = B.lastNonEmptyBlock size := rfl
    rw [hlast, finalState_ok h] at hcall
    exact ⟨written, o', h, hcalls call hcall⟩

/-- Exactly when the call that fails is a write of a block from the first one of the request on, the
failure is reported and all that is outside of the range of the request stays as it was. -/
theorem write_failure {o : Cached (Watched σ)} {c : Bytes}
    (ho : B.Represents R (Watched.forget o) c) (hnone : o.file.failed = none) (offset : ℕ)
    (data : Bytes) {call : Call}
    (hcall : (finalState (B.watch.write offset data) o).file.failed = some call) :
    ∃ written o', B.watch.write offset data o = .ok written o' ∧
      ((written = false ∧ ∃ c', R o'.file.file c' ∧
          SameOutside c c' offset (offset + data.length)) ↔
        ∃ k, call = .write k ∧ offset / B.blockSize ≤ k) := by
  obtain ⟨cache, file, left, failed⟩ := o
  obtain rfl : failed = none := hnone
  obtain ⟨hR, hco⟩ := ho
  have hcache : cache.data.length ≤ B.blockSize := by
    by_cases hdata : cache.data = []
    · rw [hdata]
      exact Nat.zero_le _
    · obtain ⟨k, -, hk⟩ := hco hdata
      have hk' : cache.data = slice c (k * B.blockSize) B.blockSize := hk
      rw [hk', slice_length]
      exact Nat.min_le_left _ _
  obtain ⟨s₁, hsize, hR₁⟩ := hB.getSize hR
  have hsize' : B.watch.getSize ⟨file, left, none⟩ = .ok c.length ⟨s₁, left, none⟩ := by
    have h : B.getSize file = .ok c.length s₁ := hsize
    simp only [watch, Watched.lift, h]
  obtain ⟨⟨⟩, o₂, h₂, ho₂, htrace⟩ := tracks_fillGap hB c.length offset ⟨cache, s₁, left, none⟩
    ⟨⟨c, hR₁⟩, hcache⟩
  have hrun : B.watch.write offset data ⟨cache, file, left, none⟩ =
      writeRest B.watch c.length offset data o₂ := by
    rw [write_of_size hsize', writeSized, Action.bind_ok h₂]
    rfl
  rw [finalState, hrun] at hcall
  rw [hrun]
  cases hfailed : o₂.file.failed with
  | some pad =>
    obtain ⟨hblock, -, hbefore⟩ := htrace.comes rfl pad hfailed
    obtain ⟨o', h', hfailed'⟩ := writeRest_after hB data ho₂ hfailed hblock
    rw [h', hfailed'] at hcall
    obtain rfl := Option.some.inj hcall
    refine ⟨true, o', h', ⟨fun h => absurd h.1 (by decide), ?_⟩⟩
    rintro ⟨k, rfl, hk⟩
    exact absurd (hbefore k rfl) (by omega)
  | none =>
    obtain ⟨f₂, c₂, hgap, hR₂, hs₂, hw₂, he₂⟩ := fillGap_spec hB.toImplements
      (o := ⟨cache, s₁⟩) offset hR₁ hco.settled
    obtain rfl : Watched.forget o₂ = f₂ := by
      have hsame := htrace.same rfl hfailed
      rw [Watched.forget, hgap] at hsame
      cases hsame
      rfl
    obtain ⟨written, o', h', hcases⟩ := writeRest_before hB data ho₂ hR₂ hs₂ hw₂ hfailed hcall
    refine ⟨written, o', h', ?_⟩
    have hout := sameOutside_fillGap (by have := hw₂.size; omega) (he₂ []) data.length
    rcases hcases with ⟨rfl, j, rfl⟩ | ⟨rfl, hwrite, c', hR', hout'⟩
    · refine ⟨fun h => absurd h.1 (by decide), ?_⟩
      rintro ⟨k, hk, -⟩
      cases hk
    · exact ⟨fun _ => hwrite, fun _ => ⟨rfl, c', hR', hout.trans hout' (Nat.le_refl _) (Nat.le_refl _)⟩⟩

end Steady

theorem not_write_failure :
    ∃ o', (plainStore 4 (by decide) false).watch.write 1 [9] ⟨.empty, [1, 2, 3], 0, none⟩ =
        .ok true o' ∧
      o'.file.failed = some (.read 0) ∧ o'.file.file = [0, 9, 3] :=
  ⟨_, rfl, rfl, rfl⟩

lemma plainStore_steady (bs : ℕ) (h : 1 < bs) (holes : Bool) :
    (plainStore bs h holes).Steady fun s c => s = c where
  toImplements := plainStore_blockStore bs h holes
  takes := by
    rintro s _ k d rfl _ _
    exact ⟨_, _, rfl, rfl⟩

theorem write_failure_plainStore :
    ∃ written o', (plainStore 4 (by decide) false).watch.write 1 [5, 6, 7, 8]
        ⟨.empty, [1, 2, 3], 2, none⟩ = .ok written o' ∧
      ((written = false ∧ ∃ c', o'.file.file = c' ∧ SameOutside [1, 2, 3] c' 1 (1 + 4)) ↔
        ∃ k, Call.write 1 = .write k ∧ 1 / 4 ≤ k) :=
  Steady.write_failure (plainStore_steady 4 (by decide) false)
    (o := ⟨.empty, [1, 2, 3], 2, none⟩) ⟨rfl, coherent_nil⟩ rfl 1 [5, 6, 7, 8] rfl

end BlockFileIO

end EncFS
