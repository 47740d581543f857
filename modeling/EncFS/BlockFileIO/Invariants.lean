import EncFS.BlockFileIO

set_option autoImplicit false

namespace EncFS.BlockFileIO

open Cached

variable {σ : Type} {B : BlockFileIO σ} {I : σ → Prop} {α : Type}

def OfFile (I : σ → Prop) (o : Cached σ) : Prop :=
  I o.file

lemma preserves_lift {x : Action σ α} (hx : Preserves I x) : Preserves (OfFile I) (lift x) :=
  fun o ho => lift_yields ((hx o.file ho).mono (fun _ _ h => h) fun _ _ h => h)

lemma preserves_setCache (cache : Cache) : Preserves (OfFile I) (setCache (σ := σ) cache) :=
  fun _ ho => .of_ok rfl ho

lemma preserves_clearCache : Preserves (OfFile I) (clearCache (σ := σ)) :=
  fun _ ho => .of_ok rfl ho

section Reading

variable (hread : ∀ offset n, Preserves I (B.readOneBlock offset n))
include hread

lemma preserves_cacheReadOneBlock (offset n : ℕ) :
    Preserves (OfFile I) (B.cacheReadOneBlock offset n) := by
  refine .get fun o ho => ?_
  by_cases hit : offset = o.cache.offset ∧ o.cache.data ≠ []
  · rw [if_pos hit]
    exact .pure ho
  rw [if_neg hit]
  refine Preserves.bind preserves_clearCache (fun _ => ?_) o ho
  refine .bind (preserves_lift (hread offset B.blockSize)) fun r => ?_
  cases r with
  | none => exact .pure none
  | some result =>
    exact .ite (fun _ => .pure _) fun _ => .bind (preserves_setCache _) fun _ => .pure _

lemma preserves_readLoop (fuel k p size : ℕ) (out : Bytes) :
    Preserves (OfFile I) (B.readLoop fuel k p size out) := by
  induction fuel generalizing k p size out with
  | zero => exact .pure out
  | succ fuel ih =>
    refine .ite (fun _ => .pure out) fun _ => ?_
    refine .bind (preserves_cacheReadOneBlock hread _ _) fun r => ?_
    cases r with
    | none => exact .pure out
    | some block => exact .ite (fun _ => .pure out) fun _ => .ite (fun _ => .pure _) fun _ => ih _ _ _ _

lemma preserves_read (offset n : ℕ) : Preserves (OfFile I) (B.read offset n) :=
  .ite (fun _ => preserves_cacheReadOneBlock hread offset n) fun _ =>
    .bind (preserves_readLoop hread _ _ _ _ _) fun _ => .pure _

section Writing

variable (hsize : Preserves I B.getSize)
  (hwrite : ∀ offset data, Preserves I (B.writeOneBlock offset data))
include hwrite

omit hread in
lemma preserves_cacheWriteOneBlock (offset : ℕ) (data : Bytes) :
    Preserves (OfFile I) (B.cacheWriteOneBlock offset data) := by
  refine .bind (preserves_setCache _) fun _ => .bind (preserves_lift (hwrite offset data)) fun ok => ?_
  cases ok with
  | true => exact .pure true
  | false => exact .bind preserves_clearCache fun _ => .pure false

lemma preserves_padBlock (k readSize size : ℕ) :
    Preserves (OfFile I) (B.padBlock k readSize size) :=
  .bind (preserves_cacheReadOneBlock hread _ _) fun _ =>
    .bind (preserves_cacheWriteOneBlock hwrite _ _) fun _ => .pure _

omit hread in
lemma preserves_padBlocks (count k : ℕ) : Preserves (OfFile I) (B.padBlocks count k) := by
  induction count generalizing k with
  | zero => exact .pure _
  | succ count ih => exact .bind (preserves_cacheWriteOneBlock hwrite _ _) fun _ => ih _

lemma preserves_padFile (oldSize newSize : ℕ) (forceWrite : Bool) :
    Preserves (OfFile I) (B.padFile oldSize newSize forceWrite) := by
  have hpad (k readSize size : ℕ) := preserves_padBlock hread hwrite k readSize size
  refine .ite (fun _ => .ite (fun _ => hpad _ _ _) fun _ => .pure _) fun _ => ?_
  refine .bind (.ite (fun _ => hpad _ _ _) fun _ => .pure _) fun _ => ?_
  refine .bind (.ite (fun _ => .pure _) fun _ => preserves_padBlocks hwrite _ _) fun _ => ?_
  exact .ite (fun _ => .bind (preserves_cacheWriteOneBlock hwrite _ _) fun _ => .pure _)
    fun _ => .pure _

omit hwrite in
lemma preserves_cacheReadNegative (offset : ℕ) :
    Preserves (OfFile I) (B.cacheReadNegative offset) := by
  refine .get fun o ho => ?_
  by_cases hit : offset = o.cache.offset ∧ o.cache.data ≠ []
  · rw [if_pos hit]
    exact .of_error rfl ho
  rw [if_neg hit]
  refine Preserves.bind preserves_clearCache (fun _ => ?_) o ho
  refine .bind (preserves_lift (hread offset B.blockSize)) fun r => ?_
  cases r with
  | none => exact .pure _
  | some result =>
    exact .ite (fun _ => .pure _) fun _ => .bind (preserves_setCache _) fun _ => .throw _

lemma preserves_padFileBelow (oldSize : ℤ) (newSize : ℕ) (forceWrite : Bool) :
    Preserves (OfFile I) (B.padFileBelow oldSize newSize forceWrite) := by
  have hzeros (offset n : ℕ) := preserves_cacheWriteOneBlock hwrite offset (List.replicate n 0)
  have hzero (size : ℕ) : Preserves (OfFile I) (B.padZero size) :=
    .bind (preserves_cacheReadNegative hread 0) fun _ => .bind (hzeros _ _) fun _ => .pure _
  refine .ite (fun _ => .throw _) fun _ => .ite (fun _ => .ite (fun _ => hzero _) fun _ => .pure _) ?_
  · refine fun _ => .bind (hzero _) fun _ => ?_
    refine .bind (.ite (fun _ => .pure _) fun _ => preserves_padBlocks hwrite _ _) fun _ => ?_
    exact .ite (fun _ => .bind (hzeros _ _) fun _ => .pure _) fun _ => .pure _

omit hwrite in
lemma preserves_blockToWrite (fileSize : ℕ) (last : ℤ) (k p : ℕ) (chunk : Bytes) :
    Preserves (OfFile I) (B.blockToWrite fileSize last k p chunk) :=
  .ite (fun _ => .pure _) fun _ => .ite (fun _ => .pure _) fun _ =>
    .bind (preserves_cacheReadOneBlock hread _ _) fun _ => .pure _

lemma preserves_writeLoop (fileSize : ℕ) (last : ℤ) (fuel k p : ℕ) (inPtr : Bytes) :
    Preserves (OfFile I) (B.writeLoop fileSize last fuel k p inPtr) := by
  induction fuel generalizing k p inPtr with
  | zero => exact .pure true
  | succ fuel ih =>
    refine .ite (fun _ => .pure true) fun _ => ?_
    refine .bind (preserves_blockToWrite hread _ _ _ _ _) fun data => ?_
    refine .bind (preserves_cacheWriteOneBlock hwrite _ _) fun ok => ?_
    cases ok with
    | false => exact .pure false
    | true => exact ih _ _ _

include hsize

lemma preserves_write (offset : ℕ) (data : Bytes) : Preserves (OfFile I) (B.write offset data) := by
  have hblock := preserves_cacheWriteOneBlock hwrite offset data
  have hloop (fileSize : ℕ) (last : ℤ) (k p : ℕ) :=
    preserves_writeLoop hread hwrite fileSize last data.length k p data
  refine .bind (preserves_lift hsize) fun fileSize => .ite (fun _ => ?_) fun _ => ?_
  · refine .bind (.ite (fun _ => preserves_padFile hread hwrite _ _ _) fun _ => .pure _) fun _ => ?_
    exact .ite (fun _ => hblock) fun _ => hloop _ _ _ _
  · refine .bind (preserves_padFileBelow hread hwrite _ _ _) fun _ => ?_
    exact .ite (fun _ => hblock) fun _ => hloop _ _ _ _

lemma preserves_truncate {base : Option (ℕ → Action σ ℤ)}
    (hbase : ∀ truncate ∈ base, ∀ size, Preserves I (truncate size)) (size : ℕ) :
    Preserves (OfFile I) (B.truncate size base) := by
  have htruncate (size : ℕ) : Preserves (OfFile I) (baseTruncate base size) := by
    cases base with
    | none => exact .pure 0
    | some truncate => exact preserves_lift (hbase truncate rfl size)
  refine .bind (preserves_lift hsize) fun oldSize => .ite (fun _ => ?_) fun _ =>
    .bind (htruncate size) fun _ => .bind (preserves_padFileBelow hread hwrite _ _ _) fun _ => .pure 0
  refine .ite (fun _ => .bind (htruncate size) fun _ =>
    .bind (preserves_padFile hread hwrite _ _ _) fun _ => .pure 0) fun _ => ?_
  refine .ite (fun _ => .pure 0) fun _ => .ite (fun _ => ?_) fun _ => htruncate size
  refine .bind (preserves_cacheReadOneBlock hread _ _) fun _ => .bind (htruncate size) fun _ => ?_
  exact .bind (preserves_cacheWriteOneBlock hwrite _ _) fun _ => .pure _

end Writing

end Reading

end EncFS.BlockFileIO
