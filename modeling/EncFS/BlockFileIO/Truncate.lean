import EncFS.Blockwise
import EncFS.BlockFileIO.Store

set_option autoImplicit false

namespace EncFS.BlockFileIO

open FlatArray Cached

variable {σ γ : Type}

def paddedBlocks (B : BlockFileIO σ) (m n : ℕ) : List ℕ :=
  if m / B.blockSize = n / B.blockSize then
    if n % B.blockSize ≠ 0 then [m / B.blockSize] else []
  else
    (if m % B.blockSize ≠ 0 then [m / B.blockSize] else []) ++
      (if B.allowHoles then []
        else List.range' (B.firstToPad m) (n / B.blockSize - B.firstToPad m)) ++
      (if n % B.blockSize ≠ 0 then [n / B.blockSize] else [])

def paddedBlock (B : BlockFileIO σ) (x : Bytes) (m n k : ℕ) : Bytes :=
  resize 0 (if k * B.blockSize < m then x else []) (min B.blockSize (n - k * B.blockSize))

variable {B : BlockFileIO σ}

@[simp] lemma paddedBlock_length (x : Bytes) (m n k : ℕ) :
    (B.paddedBlock x m n k).length = min B.blockSize (n - k * B.blockSize) := by
  rw [paddedBlock, resize_length]

lemma paddedBlock_zero {x : Bytes} {m n k : ℕ} (h : m ≤ k * B.blockSize) :
    B.paddedBlock x m n k = List.replicate (min B.blockSize (n - k * B.blockSize)) 0 := by
  rw [paddedBlock, if_neg (by omega), resize_nil]

lemma mem_paddedBlocks {m n : ℕ} (hmn : m < n) (k : ℕ) :
    k ∈ B.paddedBlocks m n ↔ m < (k + 1) * B.blockSize ∧ k * B.blockSize < n ∧
      (k * B.blockSize < m ∨ B.allowHoles = false ∨ n < (k + 1) * B.blockSize) := by
  have hbs := B.blockSize_pos
  have hle : m / B.blockSize ≤ n / B.blockSize := Nat.div_le_div_right (Nat.le_of_lt hmn)
  rw [lt_succ_mul_iff hbs, lt_succ_mul_iff hbs, mul_lt_iff hbs, mul_lt_iff hbs, paddedBlocks]
  by_cases hsame : m / B.blockSize = n / B.blockSize
  · have hpart : n % B.blockSize ≠ 0 := by
      have hm := Nat.div_add_mod' m B.blockSize
      have hn := Nat.div_add_mod' n B.blockSize
      rw [hsame] at hm
      omega
    rw [if_pos hsame, if_pos hpart, List.mem_singleton]
    omega
  · rw [if_neg hsame]
    simp only [List.mem_append, List.mem_ite_nil_left, List.mem_ite_nil_right, List.mem_singleton,
      List.mem_range'_1, firstToPad]
    cases B.allowHoles with
    | true =>
      simp only [not_true_eq_false, false_and, or_false, false_or, reduceCtorEq]
      omega
    | false =>
      simp only [Bool.false_eq_true, not_false_eq_true, true_and, true_or, or_true, and_true]
      split
      · omega
      · omega

def ReachesEnd (B : BlockFileIO σ) (m n : ℕ) : Prop :=
  B.allowHoles = true → n % B.blockSize = 0 → n < m + B.blockSize

lemma reachesEnd_iff {m n : ℕ} (hmn : m < n) :
    B.ReachesEnd m n ↔ ∃ k ∈ B.paddedBlocks m n,
      k * B.blockSize + min B.blockSize (n - k * B.blockSize) = n := by
  have hbs := B.blockSize_pos
  constructor
  · intro h
    have hdiv := Nat.div_add_mod' (n - 1) B.blockSize
    have hlt := Nat.mod_lt (n - 1) hbs
    refine ⟨(n - 1) / B.blockSize, (mem_paddedBlocks hmn _).mpr ?_, by omega⟩
    rw [Nat.succ_mul]
    refine ⟨by omega, by omega, ?_⟩
    cases hh : B.allowHoles with
    | false => exact .inr (.inl rfl)
    | true =>
      by_cases hn : n % B.blockSize = 0
      · have := h hh hn
        omega
      · refine .inr (.inr (Nat.lt_of_le_of_ne (by omega) ?_))
        rintro heq
        refine hn ?_
        rw [heq, ← Nat.succ_mul, Nat.mul_mod_left]
  · rintro ⟨k, hk, hend⟩ hh hn
    obtain ⟨-, hlt, h | h | h⟩ := (mem_paddedBlocks hmn k).mp hk
    · omega
    · exact absurd (hh.symm.trans h) (by decide)
    · obtain ⟨q, rfl⟩ := Nat.dvd_of_mod_eq_zero hn
      rw [Nat.mul_comm B.blockSize] at h hlt
      have hqk := Nat.lt_of_mul_lt_mul_right h
      have hkq := Nat.lt_of_mul_lt_mul_right hlt
      omega

lemma paddedSize_self (B : BlockFileIO σ) (n : ℕ) : B.paddedSize n n true = n := by
  rw [paddedSize]
  split
  · rfl
  · rw [if_pos rfl]

lemma paddedSize_eq_iff {m n : ℕ} (hmn : m < n) :
    B.paddedSize m n true = n ↔ B.ReachesEnd m n := by
  have hbs := B.blockSize_pos
  have hm := Nat.div_add_mod' m B.blockSize
  have hn := Nat.div_add_mod' n B.blockSize
  have hlt := Nat.mod_lt m hbs
  obtain ⟨-, hwhole, hpart⟩ := B.firstToPad_spec m
  rw [paddedSize, ReachesEnd]
  by_cases h0 : n % B.blockSize = 0
  · have hne : m / B.blockSize ≠ n / B.blockSize := by
      intro hsame
      rw [hsame] at hm
      omega
    rw [if_neg (by simp [h0]), if_neg hne]
    cases hh : B.allowHoles with
    | false =>
      refine iff_of_true ?_ fun h => absurd h (by decide)
      rw [if_neg (by decide)]
      omega
    | true =>
      rw [if_pos rfl, forall_prop_of_true rfl, forall_prop_of_true h0]
      have hstep : (m / B.blockSize + 1) * B.blockSize =
          m / B.blockSize * B.blockSize + B.blockSize := Nat.succ_mul _ _
      have hle : (m / B.blockSize + 1) * B.blockSize ≤ n := by
        rw [← hn, h0, Nat.add_zero]
        have := Nat.div_le_div_right (c := B.blockSize) (Nat.le_of_lt hmn)
        exact Nat.mul_le_mul_right _ (Nat.lt_of_le_of_ne this hne)
      by_cases hm0 : m % B.blockSize = 0
      · rw [hwhole hm0]
        omega
      · rw [hpart hm0]
        refine ⟨by omega, fun hnear => ?_⟩
        rcases Nat.lt_or_ge (m / B.blockSize + 1) (n / B.blockSize) with hfar | hnext
        · have := Nat.mul_le_mul_right B.blockSize (show m / B.blockSize + 2 ≤ _ from hfar)
          rw [Nat.add_mul] at this
          omega
        · have := Nat.mul_le_mul_right B.blockSize hnext
          omega
  · rw [if_pos ⟨rfl, h0⟩]
    exact iff_of_true rfl fun _ h => absurd h h0

lemma getLast_paddedBlocks {m n : ℕ} (h : n % B.blockSize ≠ 0) :
    (B.paddedBlocks m n).getLast? = some (n / B.blockSize) := by
  rw [paddedBlocks]
  split
  · rename_i hsame
    rw [hsame]
    rfl
  · rw [List.getLast?_append]
    rfl

lemma padWrites_eq {x : Bytes} {m n : ℕ} (hmn : m < n) (hx : x.length ≤ m % B.blockSize) :
    B.padWrites x m n true =
      (B.paddedBlocks m n).map fun k => (k, B.paddedBlock x m n k) := by
  have hbs := B.blockSize_pos
  have hm := Nat.div_add_mod' m B.blockSize
  have hn := Nat.div_add_mod' n B.blockSize
  have hn' := Nat.mod_lt n hbs
  rw [padWrites, paddedBlocks]
  by_cases hsame : m / B.blockSize = n / B.blockSize
  · have hmod : m % B.blockSize < n % B.blockSize := by
      rw [hsame] at hm
      omega
    have hlen : min B.blockSize (n - m / B.blockSize * B.blockSize) = n % B.blockSize := by
      rw [hsame]
      omega
    have hnil : ¬m / B.blockSize * B.blockSize < m → x = [] :=
      fun h => List.length_eq_zero_iff.mp (by omega)
    rw [if_pos hsame, if_pos hsame, if_pos ⟨rfl, by omega⟩, if_pos (by omega), List.map_singleton,
      paddedBlock, hlen]
    split
    · rfl
    · rename_i h
      rw [hnil h]
  · rw [if_neg hsame, if_neg hsame, List.map_append, List.map_append]
    have hfirst := firstToPad_le hmn hsame
    congr 1
    · congr 1
      · rw [padFirstWrites]
        split
        · have := Nat.mul_le_mul_right B.blockSize hfirst
          rename_i h
          rw [firstToPad, if_pos h, Nat.succ_mul] at this
          rw [List.map_singleton, paddedBlock, if_pos (by omega), Nat.min_eq_left (by omega)]
        · rfl
      · rw [padMiddleWrites]
        split
        · rfl
        · refine List.map_congr_left fun k hk => ?_
          obtain ⟨hge, hlt⟩ := List.mem_range'_1.mp hk
          have hlow := Nat.mul_le_mul_right B.blockSize hge
          have hhigh := Nat.mul_le_mul_right B.blockSize (show k + 1 ≤ n / B.blockSize by omega)
          rw [Nat.succ_mul] at hhigh
          have := (firstToPad_spec B m).1
          rw [paddedBlock_zero (by omega), Nat.min_eq_left (by omega)]
    · rw [padLastWrites]
      by_cases h : n % B.blockSize = 0
      · simp [h]
      · have := Nat.mul_le_mul_right B.blockSize hfirst
        have := (firstToPad_spec B m).1
        rw [if_pos ⟨rfl, h⟩, if_pos h, List.map_singleton, paddedBlock_zero (by omega)]
        congr 3
        omega

lemma padWrites_ne_nil {x : Bytes} {m n : ℕ} (hmn : m < n) (hx : x.length ≤ m % B.blockSize)
    (h : m % B.blockSize ≠ 0 ∨ m / B.blockSize = n / B.blockSize) :
    B.padWrites x m n true ≠ [] := by
  have hm := Nat.div_add_mod' m B.blockSize
  have hn := Nat.div_add_mod' n B.blockSize
  have hlt := Nat.mod_lt m B.blockSize_pos
  have hlt' := Nat.mod_lt n B.blockSize_pos
  have hfirst : m / B.blockSize ∈ B.paddedBlocks m n := by
    rw [mem_paddedBlocks hmn, Nat.succ_mul]
    refine ⟨by omega, by omega, ?_⟩
    rcases h with h | h
    · exact .inl (by omega)
    · rw [h]
      exact .inr (.inr (by omega))
  rw [padWrites_eq hmn hx]
  exact List.ne_nil_of_mem (List.mem_map_of_mem hfirst)

variable {M : BlockModel γ} {R : σ → γ → Prop}

def Cuts (base : Option (ℕ → Action σ ℤ)) (R : σ → γ → Prop) (n : ℕ) (cut : γ → γ) : Prop :=
  ∀ s g, R s g → ∃ s', R s' (cut g) ∧
    ∀ cache, baseTruncate base n ⟨cache, s⟩ = .ok 0 ⟨cache, s'⟩

lemma cuts_none (R : σ → γ → Prop) (n : ℕ) : Cuts none R n id :=
  fun s _ h => ⟨s, h, fun _ => rfl⟩

lemma baseTruncate_none (n : ℕ) (s : σ) :
    ∃ res s', ∀ cache, baseTruncate none n ⟨cache, s⟩ = .ok res ⟨cache, s'⟩ :=
  ⟨0, s, fun _ => rfl⟩

lemma cuts_some {truncate : ℕ → Action σ ℤ} {n : ℕ} {cut : γ → γ}
    (h : ∀ {s g}, R s g → ∃ s', truncate n s = .ok 0 s' ∧ R s' (cut g)) :
    Cuts (some truncate) R n cut := by
  intro s g hR
  obtain ⟨s', he, hR'⟩ := h hR
  exact ⟨s', hR', fun cache => lift_ok he⟩

lemma truncateSized_same (B : BlockFileIO σ) (base : Option (ℕ → Action σ ℤ)) (n : ℕ)
    (o : Cached σ) : B.truncateSized n n base o = .ok 0 o := by
  rw [truncateSized, if_neg (Nat.lt_irrefl n), if_pos rfl]
  rfl

section Truncate

variable (hB : B.Implements M R) {base : Option (ℕ → Action σ ℤ)} {m n : ℕ} {cut : γ → γ}
  (hbase : Cuts base R n cut)
include hB hbase

lemma truncateSized_grow (cache : Cache) {s : σ} {g : γ} {x : Bytes} (hR : R s g) (hn : m < n)
    (hx : x = (B.lookup cache (M.block (cut g) (m / B.blockSize)) (m / B.blockSize)).take
      (m % B.blockSize))
    (hp : M.PlacedAll (cut g) (B.padWrites x m n true)) :
    ∃ s', B.truncateSized m n base ⟨cache, s⟩ =
      .ok 0 ⟨B.afterWrites cache (B.padWrites x m n true), s'⟩ ∧
      R s' (M.puts (cut g) (B.padWrites x m n true)) := by
  obtain ⟨s₁, hR₁, h₁⟩ := hbase _ _ hR
  obtain ⟨s₂, h₂, hR₂⟩ := padFile_run hB m n true hR₁ hx hp
  refine ⟨s₂, ?_, hR₂⟩
  rw [truncateSized, if_pos hn, Action.bind_ok (h₁ cache), Action.bind_ok h₂]
  rfl

lemma truncateSized_inside {cache : Cache} {s : σ} {g : γ} {d : Bytes} (hR : R s g)
    (hn : n < m) (hpart : n % B.blockSize ≠ 0)
    (hd : d = resize 0 (B.lookup cache (M.block g (n / B.blockSize)) (n / B.blockSize))
      (n % B.blockSize))
    (hp : M.Placed (cut g) (n / B.blockSize) d) :
    ∃ s', B.truncateSized m n base ⟨cache, s⟩ = .ok 0 ⟨⟨n / B.blockSize * B.blockSize, d⟩, s'⟩ ∧
      R s' (M.put (cut g) (n / B.blockSize) d) := by
  have hlt := Nat.mod_lt n B.blockSize_pos
  obtain ⟨s₁, h₁, hR₁⟩ := cacheReadOneBlock_run hB.toReads cache (n / B.blockSize) B.blockSize hR
  obtain ⟨s₂, hR₂, h₂⟩ := hbase _ _ hR₁
  obtain ⟨s₃, h₃, hR₃⟩ := cacheWriteOneBlock_run hB _ hR₂ hp
  refine ⟨s₃, ?_, hR₃⟩
  rw [truncateSized, if_neg (by omega), if_neg (by omega), if_pos hpart,
    Action.bind_ok h₁, Action.bind_ok (h₂ _), padded, Option.getD_some,
    resize_take 0 _ (Nat.le_of_lt hlt), ← hd, Action.bind_ok h₃]
  rfl

omit hB in
lemma truncateSized_whole (cache : Cache) {s : σ} {g : γ} (hR : R s g) (hn : n < m)
    (hwhole : n % B.blockSize = 0) :
    ∃ s', B.truncateSized m n base ⟨cache, s⟩ = .ok 0 ⟨cache, s'⟩ ∧ R s' (cut g) := by
  obtain ⟨s₁, hR₁, h₁⟩ := hbase _ _ hR
  refine ⟨s₁, ?_, hR₁⟩
  rw [truncateSized, if_neg (by omega), if_neg (by omega), if_neg (not_not.mpr hwhole), h₁ cache]

end Truncate

end EncFS.BlockFileIO
