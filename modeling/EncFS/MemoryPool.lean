import EncFS.FileIO
import Mathlib.Data.List.Pairwise
import Mathlib.Data.List.Perm.Basic

/-! The pool of temporary blocks: a list of blocks that are free, with what is in memory. -/

set_option autoImplicit false

namespace EncFS

structure BlockList where
  data : ℕ
  size : ℕ
  deriving DecidableEq, Repr

namespace BlockList

def Has (b : BlockList) (a : ℕ) : Prop := b.data ≤ a ∧ a < b.data + b.size

instance (b : BlockList) (a : ℕ) : Decidable (b.Has a) := inferInstanceAs (Decidable (_ ∧ _))

structure Apart (b b' : BlockList) : Prop where
  ne : b.data ≠ b'.data
  disjoint : ∀ a, b.Has a → ¬b'.Has a

lemma Apart.symm {b b' : BlockList} (h : b.Apart b') : b'.Apart b :=
  ⟨h.ne.symm, fun a ha ha' => h.disjoint a ha' ha⟩

end BlockList

/-- The new memory is none that is in use. -/
structure Malloc where
  address : List BlockList → ℕ → ℕ
  fresh {live : List BlockList} {b : BlockList} (size : ℕ) :
    b ∈ live → BlockList.Apart ⟨address live size, size⟩ b

structure MemBlock where
  internalData : BlockList
  requested : ℕ
  deriving DecidableEq, Repr

structure MemoryPool where
  free : List BlockList
  made : List BlockList
  memory : ℕ → UInt8

namespace MemoryPool

def zeroBlock (memory : ℕ → UInt8) (b : BlockList) : ℕ → UInt8 :=
  fun a => if b.Has a then 0 else memory a

def allocate (m : Malloc) (taken : List MemBlock) (size : ℕ) (pool : MemoryPool) :
    MemBlock × MemoryPool :=
  match pool.free.find? fun block => size ≤ block.size with
  | some block =>
    (⟨block, size⟩, { pool with free := pool.free.eraseP fun block => size ≤ block.size })
  | none =>
    let block := ⟨m.address (pool.free ++ taken.map MemBlock.internalData) size, size⟩
    (⟨block, size⟩,
      { pool with made := block :: pool.made, memory := zeroBlock pool.memory block })

def release (mb : MemBlock) (pool : MemoryPool) : MemoryPool :=
  { pool with
    free := mb.internalData :: pool.free
    memory := zeroBlock pool.memory mb.internalData }

def store (mb : MemBlock) (bytes : Bytes) (pool : MemoryPool) : MemoryPool :=
  { pool with
    memory := fun a =>
      if mb.internalData.Has a ∧ a < mb.internalData.data + bytes.length then
        bytes.getD (a - mb.internalData.data) 0
      else
        pool.memory a }

/-- Every block is free or taken, once. No two share memory, those that are taken are large enough,
and those that are free are zero. -/
structure Sound (pool : MemoryPool) (taken : List MemBlock) : Prop where
  complete : pool.made.Perm (pool.free ++ taken.map MemBlock.internalData)
  apart : (pool.free ++ taken.map MemBlock.internalData).Pairwise BlockList.Apart
  large : ∀ mb ∈ taken, mb.requested ≤ mb.internalData.size
  zeroed : ∀ b ∈ pool.free, ∀ a, b.Has a → pool.memory a = 0

namespace Sound

variable {pool : MemoryPool} {taken taken' : List MemBlock} {mb : MemBlock}

lemma perm (h : pool.Sound taken) (hp : taken.Perm taken') : pool.Sound taken' where
  complete := h.complete.trans ((hp.map _).append_left pool.free)
  apart := (((hp.map _).append_left pool.free).pairwise_iff fun h => h.symm).mp h.apart
  large mb hmb := h.large mb (hp.mem_iff.mpr hmb)
  zeroed := h.zeroed

lemma free_apart (h : pool.Sound taken) (hmb : mb ∈ taken) {b : BlockList} (hb : b ∈ pool.free) :
    BlockList.Apart b mb.internalData :=
  (List.pairwise_append.mp h.apart).2.2 b hb _ (List.mem_map_of_mem hmb)

lemma allocate (m : Malloc) (h : pool.Sound taken) (size : ℕ) :
    (pool.allocate m taken size).2.Sound ((pool.allocate m taken size).1 :: taken) := by
  rw [MemoryPool.allocate]
  cases hfind : pool.free.find? fun block => size ≤ block.size with
  | some block =>
    obtain ⟨hsize, before, after, hfree, hsmall⟩ := List.find?_eq_some_iff_append.mp hfind
    have herase : pool.free.eraseP (fun block => size ≤ block.size) = before ++ after := by
      rw [hfree, List.eraseP_append_right, 
        List.eraseP_cons_of_pos (p := fun block : BlockList => decide (size ≤ block.size)) hsize]
      exact fun b hb => by simpa using hsmall b hb
    have hperm : (pool.free ++ taken.map MemBlock.internalData).Perm
        ((before ++ after) ++ block :: taken.map MemBlock.internalData) := by
      rw [hfree, List.append_assoc, List.append_assoc]
      exact List.Perm.append_left before (List.perm_middle.symm)
    refine ⟨?_, ?_, ?_, fun b hb => h.zeroed b (List.mem_of_mem_eraseP hb)⟩
    · dsimp only
      rw [herase]
      exact h.complete.trans hperm
    · dsimp only
      rw [herase]
      exact (hperm.pairwise_iff fun h => h.symm).mp h.apart
    · exact List.forall_mem_cons.mpr ⟨of_decide_eq_true hsize, h.large⟩
  | none =>
    have hfresh : ∀ b ∈ pool.free ++ taken.map MemBlock.internalData, BlockList.Apart
        ⟨m.address (pool.free ++ taken.map MemBlock.internalData) size, size⟩ b :=
      fun b hb => m.fresh size hb
    refine ⟨?_, ?_, List.forall_mem_cons.mpr ⟨Nat.le_refl size, h.large⟩, fun b hb a ha => ?_⟩
    · exact (h.complete.cons _).trans List.perm_middle.symm
    · exact (List.perm_middle.pairwise_iff fun h => h.symm).mpr
        (List.pairwise_cons.mpr ⟨hfresh, h.apart⟩)
    · have hother := (hfresh b (List.mem_append_left _ hb)).symm.disjoint a ha
      change zeroBlock pool.memory _ a = 0
      rw [zeroBlock, if_neg hother]
      exact h.zeroed b hb a ha

lemma store (h : pool.Sound taken) (hmb : mb ∈ taken) (bytes : Bytes) :
    (pool.store mb bytes).Sound taken where
  complete := h.complete
  apart := h.apart
  large := h.large
  zeroed b hb a ha := by
    have hother : ¬mb.internalData.Has a := (h.free_apart hmb hb).disjoint a ha
    simp only [MemoryPool.store, hother, false_and, if_false]
    exact h.zeroed b hb a ha

lemma release (h : pool.Sound taken) (hmb : mb ∈ taken) :
    (pool.release mb).Sound (taken.erase mb) := by
  have hperm : (pool.free ++ taken.map MemBlock.internalData).Perm
      ((pool.release mb).free ++ (taken.erase mb).map MemBlock.internalData) := by
    have hmap := ((List.perm_cons_erase hmb).map MemBlock.internalData).append_left pool.free
    exact hmap.trans List.perm_middle
  refine ⟨h.complete.trans hperm, (hperm.pairwise_iff fun h => h.symm).mp h.apart,
    fun mb' hmb' => h.large mb' (List.mem_of_mem_erase hmb'), fun b hb a ha => ?_⟩
  change zeroBlock pool.memory mb.internalData a = 0
  rw [zeroBlock]
  by_cases hin : mb.internalData.Has a
  · exact if_pos hin
  · rw [if_neg hin]
    obtain rfl | hb := List.mem_cons.mp hb
    · exact absurd ha hin
    · exact h.zeroed b hb a ha

end Sound

end MemoryPool

end EncFS
