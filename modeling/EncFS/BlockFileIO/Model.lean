import EncFS.BlockFileIO

set_option autoImplicit false

namespace EncFS.BlockFileIO

open FlatArray Cached

variable {σ γ : Type}

structure BlockModel (γ : Type) where
  size : γ → ℕ
  block : γ → ℕ → Bytes
  put : γ → ℕ → Bytes → γ
  Placed : γ → ℕ → Bytes → Prop

namespace BlockModel

variable (M : BlockModel γ)

def puts (g : γ) (ws : List (ℕ × Bytes)) : γ :=
  ws.foldl (fun g w => M.put g w.1 w.2) g

def PlacedAll : γ → List (ℕ × Bytes) → Prop
  | _, [] => True
  | g, w :: ws => M.Placed g w.1 w.2 ∧ PlacedAll (M.put g w.1 w.2) ws

@[simp] lemma puts_nil (g : γ) : M.puts g [] = g := rfl

@[simp] lemma puts_cons (g : γ) (w : ℕ × Bytes) (ws : List (ℕ × Bytes)) :
    M.puts g (w :: ws) = M.puts (M.put g w.1 w.2) ws := rfl

lemma puts_append (g : γ) (ws vs : List (ℕ × Bytes)) :
    M.puts g (ws ++ vs) = M.puts (M.puts g ws) vs :=
  List.foldl_append

lemma placedAll_append (g : γ) (ws vs : List (ℕ × Bytes)) :
    M.PlacedAll g (ws ++ vs) ↔ M.PlacedAll g ws ∧ M.PlacedAll (M.puts g ws) vs := by
  induction ws generalizing g with
  | nil => simp [PlacedAll]
  | cons w ws ih => simp [PlacedAll, ih, and_assoc]

end BlockModel

variable (B : BlockFileIO σ)

structure Reads (M : BlockModel γ) (R : σ → γ → Prop) : Prop where
  getSize {s g} : R s g → ∃ s', B.getSize s = .ok (M.size g) s' ∧ R s' g
  readOneBlock {s g} (k : ℕ) : R s g →
    ∃ s', B.readOneBlock (k * B.blockSize) B.blockSize s = .ok (some (M.block g k)) s' ∧ R s' g

structure Implements (M : BlockModel γ) (R : σ → γ → Prop) : Prop extends B.Reads M R where
  writeOneBlock {s g} {k : ℕ} {d : Bytes} : R s g → M.Placed g k d →
    ∃ s', B.writeOneBlock (k * B.blockSize) d s = .ok true s' ∧ R s' (M.put g k d)

def Hit (cache : Cache) (k : ℕ) : Prop :=
  k * B.blockSize = cache.offset ∧ cache.data ≠ []

instance (cache : Cache) (k : ℕ) : Decidable (B.Hit cache k) :=
  inferInstanceAs (Decidable (_ ∧ _))

def lookup (cache : Cache) (block : Bytes) (k : ℕ) : Bytes :=
  if B.Hit cache k then cache.data else block

def afterRead (cache : Cache) (block : Bytes) (k : ℕ) : Cache :=
  if B.Hit cache k then cache
  else if block = [] then ⟨cache.offset, []⟩ else ⟨k * B.blockSize, block⟩

def afterWrites (cache : Cache) (ws : List (ℕ × Bytes)) : Cache :=
  ws.foldl (fun _ w => ⟨w.1 * B.blockSize, w.2⟩) cache

variable {B}

lemma blockSize_pos (B : BlockFileIO σ) : 0 < B.blockSize :=
  Nat.lt_trans Nat.zero_lt_one B.blockSize_gt

lemma block_inj {a b : ℕ} (h : a * B.blockSize = b * B.blockSize) : a = b :=
  Nat.eq_of_mul_eq_mul_right B.blockSize_pos h

@[simp] lemma afterWrites_nil (cache : Cache) : B.afterWrites cache [] = cache := rfl

@[simp] lemma afterWrites_cons (cache : Cache) (w : ℕ × Bytes) (ws : List (ℕ × Bytes)) :
    B.afterWrites cache (w :: ws) = B.afterWrites ⟨w.1 * B.blockSize, w.2⟩ ws := rfl

lemma afterWrites_append (cache : Cache) (ws vs : List (ℕ × Bytes)) :
    B.afterWrites cache (ws ++ vs) = B.afterWrites (B.afterWrites cache ws) vs :=
  List.foldl_append

lemma afterWrites_map (cache : Cache) (ks : List ℕ) (e : ℕ → Bytes) :
    B.afterWrites cache (ks.map fun k => (k, e k)) =
      match ks.getLast? with
      | none => cache
      | some k => ⟨k * B.blockSize, e k⟩ := by
  induction ks generalizing cache with
  | nil => rfl
  | cons k ks ih =>
    rw [List.map_cons, afterWrites_cons, ih, List.getLast?_cons]
    cases ks.getLast? <;> rfl

variable {M : BlockModel γ} {R : σ → γ → Prop}

lemma cacheReadOneBlock_run (hB : B.Reads M R) (cache : Cache) {s : σ} {g : γ} (k n : ℕ) (hR : R s g) :
    ∃ s', B.cacheReadOneBlock (k * B.blockSize) n ⟨cache, s⟩ =
      .ok (some ((B.lookup cache (M.block g k) k).take n))
        ⟨B.afterRead cache (M.block g k) k, s'⟩ ∧ R s' g := by
  by_cases hit : B.Hit cache k
  · refine ⟨s, ?_, hR⟩
    simp only [cacheReadOneBlock, Action.get_bind, lookup, afterRead, if_pos hit]
    rw [if_pos (show k * B.blockSize = cache.offset ∧ cache.data ≠ [] from hit)]
    rfl
  · obtain ⟨s', he, hR'⟩ := hB.readOneBlock k hR
    refine ⟨s', ?_, hR'⟩
    simp only [cacheReadOneBlock, Action.get_bind, lookup, afterRead, if_neg hit]
    rw [if_neg (show ¬(k * B.blockSize = cache.offset ∧ cache.data ≠ []) from hit),
      Action.bind_ok (clearCache_run _ s), Action.bind_ok (lift_ok he)]
    by_cases hd : M.block g k = []
    · simp [hd]
    · simp only [if_neg hd]
      rfl

lemma cacheWriteOneBlock_run (hB : B.Implements M R) (cache : Cache) {s : σ} {g : γ} {k : ℕ}
    {d : Bytes} (hR : R s g) (hp : M.Placed g k d) :
    ∃ s', B.cacheWriteOneBlock (k * B.blockSize) d ⟨cache, s⟩ =
      .ok true ⟨⟨k * B.blockSize, d⟩, s'⟩ ∧ R s' (M.put g k d) := by
  obtain ⟨s', he, hR'⟩ := hB.writeOneBlock hR hp
  refine ⟨s', ?_, hR'⟩
  rw [cacheWriteOneBlock, Action.bind_ok (setCache_run _ _ s), Action.bind_ok (lift_ok he)]
  rfl

def zeroWrites (B : BlockFileIO σ) (count first : ℕ) : List (ℕ × Bytes) :=
  (List.range' first count).map fun k => (k, List.replicate B.blockSize 0)

def padFirstWrites (B : BlockFileIO σ) (x : Bytes) (oldSize : ℕ) : List (ℕ × Bytes) :=
  if oldSize % B.blockSize ≠ 0 then [(oldSize / B.blockSize, resize 0 x B.blockSize)] else []

def padMiddleWrites (B : BlockFileIO σ) (oldSize newSize : ℕ) : List (ℕ × Bytes) :=
  if B.allowHoles then []
  else B.zeroWrites (newSize / B.blockSize - B.firstToPad oldSize) (B.firstToPad oldSize)

def padLastWrites (B : BlockFileIO σ) (newSize : ℕ) (forceWrite : Bool) : List (ℕ × Bytes) :=
  if forceWrite ∧ newSize % B.blockSize ≠ 0 then
    [(newSize / B.blockSize, List.replicate (newSize % B.blockSize) 0)]
  else []

def padWrites (B : BlockFileIO σ) (x : Bytes) (oldSize newSize : ℕ) (forceWrite : Bool) :
    List (ℕ × Bytes) :=
  if oldSize / B.blockSize = newSize / B.blockSize then
    if forceWrite ∧ newSize % B.blockSize ≠ 0 then
      [(oldSize / B.blockSize, resize 0 x (newSize % B.blockSize))]
    else []
  else
    B.padFirstWrites x oldSize ++ B.padMiddleWrites oldSize newSize ++
      B.padLastWrites newSize forceWrite

section Padding

variable (hB : B.Implements M R)
include hB

lemma padBlocks_run {cache : Cache} {s : σ} {g : γ} (count first : ℕ) (hR : R s g)
    (hp : M.PlacedAll g (B.zeroWrites count first)) :
    ∃ s', B.padBlocks count first ⟨cache, s⟩ =
      .ok ⟨⟩ ⟨B.afterWrites cache (B.zeroWrites count first), s'⟩ ∧
      R s' (M.puts g (B.zeroWrites count first)) := by
  induction count generalizing cache s g first with
  | zero => exact ⟨s, rfl, hR⟩
  | succ count ih =>
    obtain ⟨s₁, h₁, hR₁⟩ := cacheWriteOneBlock_run hB cache hR hp.1
    obtain ⟨s₂, h₂, hR₂⟩ := ih (first + 1) hR₁ hp.2
    refine ⟨s₂, ?_, hR₂⟩
    rw [padBlocks, Action.bind_ok h₁]
    exact h₂

lemma padBlock_run {cache : Cache} {s : σ} {g : γ} {x : Bytes} (k readSize size : ℕ)
    (hR : R s g) (hx : x = (B.lookup cache (M.block g k) k).take readSize)
    (hp : M.Placed g k (resize 0 x size)) :
    ∃ s', B.padBlock k readSize size ⟨cache, s⟩ =
      .ok ⟨⟩ ⟨⟨k * B.blockSize, resize 0 x size⟩, s'⟩ ∧ R s' (M.put g k (resize 0 x size)) := by
  subst hx
  obtain ⟨s₁, h₁, hR₁⟩ := cacheReadOneBlock_run hB.toReads cache k readSize hR
  obtain ⟨s₂, h₂, hR₂⟩ := cacheWriteOneBlock_run hB _ hR₁ hp
  refine ⟨s₂, ?_, hR₂⟩
  rw [padBlock, Action.bind_ok h₁]
  exact Action.bind_ok h₂

lemma padMiddleBlocks_run {cache : Cache} {s : σ} {g : γ} (oldSize newSize : ℕ) (hR : R s g)
    (hp : M.PlacedAll g (B.padMiddleWrites oldSize newSize)) :
    ∃ s', B.padMiddleBlocks oldSize newSize ⟨cache, s⟩ =
      .ok ⟨⟩ ⟨B.afterWrites cache (B.padMiddleWrites oldSize newSize), s'⟩ ∧
      R s' (M.puts g (B.padMiddleWrites oldSize newSize)) := by
  unfold padMiddleWrites at hp ⊢
  rw [padMiddleBlocks]
  split
  · exact ⟨s, rfl, hR⟩
  · rename_i hh
    rw [if_neg hh] at hp
    exact padBlocks_run hB _ _ hR hp

lemma padLastBlock_run {cache : Cache} {s : σ} {g : γ} (newSize : ℕ) (forceWrite : Bool)
    (hR : R s g) (hp : M.PlacedAll g (B.padLastWrites newSize forceWrite)) :
    ∃ s', B.padLastBlock newSize forceWrite ⟨cache, s⟩ =
      .ok ⟨⟩ ⟨B.afterWrites cache (B.padLastWrites newSize forceWrite), s'⟩ ∧
      R s' (M.puts g (B.padLastWrites newSize forceWrite)) := by
  unfold padLastWrites at hp ⊢
  rw [padLastBlock]
  split
  · rename_i hf
    rw [if_pos hf] at hp
    obtain ⟨s₁, h₁, hR₁⟩ := cacheWriteOneBlock_run hB cache hR hp.1
    exact ⟨s₁, Action.bind_ok h₁, hR₁⟩
  · exact ⟨s, rfl, hR⟩

lemma padFile_run {cache : Cache} {s : σ} {g : γ} {x : Bytes} (oldSize newSize : ℕ)
    (forceWrite : Bool) (hR : R s g)
    (hx : x = (B.lookup cache (M.block g (oldSize / B.blockSize))
      (oldSize / B.blockSize)).take (oldSize % B.blockSize))
    (hp : M.PlacedAll g (B.padWrites x oldSize newSize forceWrite)) :
    ∃ s', B.padFile oldSize newSize forceWrite ⟨cache, s⟩ =
      .ok ⟨⟩ ⟨B.afterWrites cache (B.padWrites x oldSize newSize forceWrite), s'⟩ ∧
      R s' (M.puts g (B.padWrites x oldSize newSize forceWrite)) := by
  unfold padWrites at hp ⊢
  rw [padFile]
  split
  · rename_i hsame
    rw [if_pos hsame] at hp
    split
    · rename_i hf
      rw [if_pos hf] at hp
      exact padBlock_run hB _ _ _ hR hx hp.1
    · exact ⟨s, rfl, hR⟩
  · rename_i hsame
    rw [if_neg hsame, BlockModel.placedAll_append, BlockModel.placedAll_append] at hp
    obtain ⟨⟨hp₁, hp₂⟩, hp₃⟩ := hp
    have hfirst : ∃ s₁, B.padFirstBlock oldSize ⟨cache, s⟩ =
        .ok ⟨⟩ ⟨B.afterWrites cache (B.padFirstWrites x oldSize), s₁⟩ ∧
        R s₁ (M.puts g (B.padFirstWrites x oldSize)) := by
      unfold padFirstWrites at hp₁ ⊢
      rw [padFirstBlock]
      split
      · rename_i hpart
        rw [if_pos hpart] at hp₁
        exact padBlock_run hB _ _ _ hR hx hp₁.1
      · exact ⟨s, rfl, hR⟩
    obtain ⟨s₁, h₁, hR₁⟩ := hfirst
    obtain ⟨s₂, h₂, hR₂⟩ := padMiddleBlocks_run hB oldSize newSize hR₁ hp₂
    rw [← BlockModel.puts_append] at hR₂
    obtain ⟨s₃, h₃, hR₃⟩ := padLastBlock_run hB newSize forceWrite hR₂ hp₃
    refine ⟨s₃, ?_, by rw [BlockModel.puts_append]; exact hR₃⟩
    rw [Action.bind_ok h₁, Action.bind_ok h₂, h₃, afterWrites_append, afterWrites_append]

end Padding

end EncFS.BlockFileIO
