import EncFS.Borrowing
import EncFS.CipherFileIO
import EncFS.MACFileIO
import EncFS.MemoryPool

/-! The layers of a file with the temporary blocks they take out of the pool. -/

set_option autoImplicit false

namespace EncFS

open FlatArray

/-- Where a layer calls what is below it, if it may hold a block of its own there. -/
inductive Site
  | reading (blockSize offset left : ℕ)
  | writing (blockSize fileSize offset k left : ℕ)
  | padding
  | cutting
  | macRead
  | macWrite
  deriving DecidableEq, Repr

/-- The read has a block of its own from the first block on that is not read to the result itself,
and the write from the first on that is not written from the request itself. -/
def Site.Holds : Site → Prop
  | .reading bs offset left => offset % bs ≠ 0 ∨ left < bs
  | .writing bs fileSize offset k left => offset % bs ≠ 0 ∨ (left < bs ∧ k * bs + left < fileSize)
  | .padding | .cutting | .macRead | .macWrite => True

instance : DecidablePred Site.Holds
  | .reading _ _ _ => inferInstanceAs (Decidable (_ ∨ _))
  | .writing _ _ _ _ _ => inferInstanceAs (Decidable (_ ∨ _ ∧ _))
  | .padding | .cutting | .macRead | .macWrite => .isTrue trivial

abbrev Pooled (σ α : Type) : Type 1 := Borrowing Site RlogError σ MemBlock α

def Cached.lens (σ : Type) : Borrowing.Lens RlogError σ (Cached σ) where
  lift := Cached.lift
  lift_pure _ := rfl
  lift_throw _ := rfl
  lift_bind x f := by
    funext o
    simp only [Cached.lift, Bind.bind, EStateM.bind]
    cases x o.file <;> rfl

def MACFile.lens (τ : Type) : Borrowing.Lens RlogError τ (MACFile τ) where
  lift := MACFile.lift
  lift_pure _ := rfl
  lift_throw _ := rfl
  lift_bind x f := by
    funext o
    simp only [MACFile.lift, Bind.bind, EStateM.bind]
    cases x o.base <;> rfl

/-- A derived class whose one-block operations may use the pool: but for that they are those of
`plain`, and what they take they give back. -/
structure PooledBlockFile (σ : Type) where
  plain : BlockFileIO σ
  readOneBlock : (offset dataLen : ℕ) → Pooled σ (Option Bytes)
  writeOneBlock : (offset : ℕ) → (data : Bytes) → Pooled σ Bool
  readOneBlock_denotes (offset n : ℕ) :
    (readOneBlock offset n).Denotes id (plain.readOneBlock offset n)
  writeOneBlock_denotes (offset : ℕ) (data : Bytes) :
    (writeOneBlock offset data).Denotes id (plain.writeOneBlock offset data)
  readOneBlock_keeps (offset n : ℕ) : (readOneBlock offset n).Keeps Site.Holds
  writeOneBlock_keeps (offset : ℕ) (data : Bytes) : (writeOneBlock offset data).Keeps Site.Holds

namespace PooledBlockFile

open Cached BlockFileIO

variable {σ : Type} (P : PooledBlockFile σ)

def cacheReadOneBlock (offset dataLen : ℕ) : Pooled (Cached σ) (Option Bytes) := do
  let o ← callOf get
  if offset = o.cache.offset ∧ o.cache.data ≠ [] then
    pure (some (o.cache.data.take dataLen))
  else
    callOf clearCache
    match ← (P.readOneBlock offset P.plain.blockSize).lift (Cached.lens σ) with
    | none => pure none
    | some result =>
      if result = [] then
        pure (some [])
      else
        callOf (setCache ⟨offset, result⟩)
        pure (some (result.take dataLen))

def cacheWriteOneBlock (offset : ℕ) (data : Bytes) : Pooled (Cached σ) Bool := do
  callOf (setCache ⟨offset, data⟩)
  match ← (P.writeOneBlock offset data).lift (Cached.lens σ) with
  | true => pure true
  | false =>
    callOf clearCache
    pure false

def temporary : Option MemBlock → Pooled (Cached σ) (Option MemBlock)
  | some b => pure (some b)
  | none => do
    let b ← takeOf P.plain.blockSize
    pure (some b)

def fill (mb : Option MemBlock) (data : Bytes) : Pooled (Cached σ) PUnit :=
  match mb with
  | some b => writeTo b data
  | none => pure ⟨⟩

def releaseIf : Option MemBlock → Pooled (Cached σ) PUnit
  | some b => giveBack b
  | none => pure ⟨⟩

def blockToRead (partialOffset size : ℕ) (mb : Option MemBlock) :
    Pooled (Cached σ) (Option MemBlock) :=
  if partialOffset = 0 ∧ P.plain.blockSize ≤ size then pure mb else P.temporary mb

def fillBlock (partialOffset size : ℕ) (mb : Option MemBlock) (block : Bytes) :
    Pooled (Cached σ) PUnit :=
  if partialOffset = 0 ∧ P.plain.blockSize ≤ size then pure ⟨⟩ else fill mb block

def readLoop (offset : ℕ) : (fuel blockNum partialOffset size : ℕ) → (out : Bytes) →
    (mb : Option MemBlock) → Pooled (Cached σ) (Bytes × Option MemBlock)
  | 0, _, _, _, out, mb => pure (out, mb)
  | fuel + 1, blockNum, partialOffset, size, out, mb =>
    if size = 0 then
      pure (out, mb)
    else do
      let mb ← P.blockToRead partialOffset size mb
      match ← (P.cacheReadOneBlock (blockNum * P.plain.blockSize) P.plain.blockSize).within
          (.reading P.plain.blockSize offset size) with
      | none => pure (out, mb)
      | some block =>
        P.fillBlock partialOffset size mb block
        if block.length ≤ partialOffset then
          pure (out, mb)
        else
          let cpySize := min (block.length - partialOffset) size
          let out' := out ++ slice block partialOffset cpySize
          if block.length < P.plain.blockSize then
            pure (out', mb)
          else
            readLoop offset fuel (blockNum + 1) 0 (size - cpySize) out' mb

def read (offset dataLen : ℕ) : Pooled (Cached σ) (Option Bytes) :=
  let partialOffset := offset % P.plain.blockSize
  let blockNum := offset / P.plain.blockSize
  if partialOffset = 0 ∧ dataLen ≤ P.plain.blockSize then
    P.cacheReadOneBlock offset dataLen
  else do
    let (out, mb) ← P.readLoop offset dataLen blockNum partialOffset dataLen [] none
    releaseIf mb
    pure (some out)

def padWrite (offset : ℕ) (data : Bytes) : Pooled (Cached σ) Bool :=
  (P.cacheWriteOneBlock offset data).within .padding

def padBlocks (mb : MemBlock) : (count block : ℕ) → Pooled (Cached σ) PUnit
  | 0, _ => pure ⟨⟩
  | count + 1, block => do
    writeTo mb (List.replicate P.plain.blockSize 0)
    let _ ← P.padWrite (block * P.plain.blockSize) (List.replicate P.plain.blockSize 0)
    padBlocks mb count (block + 1)

def padBlock (mb : MemBlock) (k readSize size : ℕ) : Pooled (Cached σ) PUnit := do
  writeTo mb (List.replicate size 0)
  let block ← (P.cacheReadOneBlock (k * P.plain.blockSize) readSize).within .padding
  writeTo mb (padded block size)
  let _ ← P.padWrite (k * P.plain.blockSize) (padded block size)
  pure ⟨⟩

def padFirstBlock (mb : MemBlock) (oldSize : ℕ) : Pooled (Cached σ) PUnit :=
  if oldSize % P.plain.blockSize ≠ 0 then
    P.padBlock mb (oldSize / P.plain.blockSize) (oldSize % P.plain.blockSize) P.plain.blockSize
  else
    pure ⟨⟩

def padMiddleBlocks (mb : MemBlock) (oldSize newSize : ℕ) : Pooled (Cached σ) PUnit :=
  if P.plain.allowHoles then
    pure ⟨⟩
  else
    P.padBlocks mb (newSize / P.plain.blockSize - P.plain.firstToPad oldSize)
      (P.plain.firstToPad oldSize)

def padLastBlock (mb : MemBlock) (newSize : ℕ) (forceWrite : Bool) : Pooled (Cached σ) PUnit :=
  if forceWrite ∧ newSize % P.plain.blockSize ≠ 0 then do
    writeTo mb (List.replicate (newSize % P.plain.blockSize) 0)
    let _ ← P.padWrite (newSize / P.plain.blockSize * P.plain.blockSize)
      (List.replicate (newSize % P.plain.blockSize) 0)
    pure ⟨⟩
  else
    pure ⟨⟩

def padSameBlock (mb : MemBlock) (oldSize newSize : ℕ) : Pooled (Cached σ) PUnit :=
  if newSize % P.plain.blockSize ≠ 0 then
    P.padBlock mb (oldSize / P.plain.blockSize) (oldSize % P.plain.blockSize)
      (newSize % P.plain.blockSize)
  else
    pure ⟨⟩

def padFile (oldSize newSize : ℕ) (forceWrite : Bool) : Pooled (Cached σ) PUnit :=
  if oldSize / P.plain.blockSize = newSize / P.plain.blockSize then
    if forceWrite then do
      let mb ← takeOf P.plain.blockSize
      P.padSameBlock mb oldSize newSize
      giveBack mb
    else
      pure ⟨⟩
  else do
    let mb ← takeOf P.plain.blockSize
    P.padFirstBlock mb oldSize
    P.padMiddleBlocks mb oldSize newSize
    P.padLastBlock mb newSize forceWrite
    giveBack mb

def cacheReadNegative (offset : ℕ) : Pooled (Cached σ) PUnit := do
  let o ← callOf get
  if offset = o.cache.offset ∧ o.cache.data ≠ [] then
    raiseOf .undefined
  else
    callOf clearCache
    match ← (P.readOneBlock offset P.plain.blockSize).lift (Cached.lens σ) with
    | none => pure ⟨⟩
    | some result =>
      if result = [] then
        pure ⟨⟩
      else
        callOf (setCache ⟨offset, result⟩)
        raiseOf .undefined

def padZero (mb : MemBlock) (size : ℕ) : Pooled (Cached σ) PUnit := do
  writeTo mb (List.replicate size 0)
  (P.cacheReadNegative 0).within .padding
  let _ ← P.padWrite 0 (List.replicate size 0)
  pure ⟨⟩

def padZeroIf (mb : MemBlock) (size : ℕ) : Pooled (Cached σ) PUnit :=
  if size ≠ 0 then P.padZero mb size else pure ⟨⟩

def padMiddleBlocksBelow (mb : MemBlock) (newSize : ℕ) : Pooled (Cached σ) PUnit :=
  if P.plain.allowHoles then
    pure ⟨⟩
  else
    P.padBlocks mb (newSize / P.plain.blockSize - 1) 1

def padFileBelow (oldSize : ℤ) (newSize : ℕ) (forceWrite : Bool) : Pooled (Cached σ) PUnit :=
  if oldSize ≤ -P.plain.blockSize then do
    let _ ← takeOf P.plain.blockSize
    (raiseOf .undefined).within .padding
  else if newSize / P.plain.blockSize = 0 then
    if forceWrite then do
      let mb ← takeOf P.plain.blockSize
      P.padZeroIf mb (newSize % P.plain.blockSize)
      giveBack mb
    else
      pure ⟨⟩
  else do
    let mb ← takeOf P.plain.blockSize
    P.padZero mb P.plain.blockSize
    P.padMiddleBlocksBelow mb newSize
    P.padLastBlock mb newSize forceWrite
    giveBack mb

def fillGap (fileSize offset : ℕ) : Pooled (Cached σ) PUnit :=
  if fileSize < offset then P.padFile fileSize offset false else pure ⟨⟩

def mergedBlock (site : Site) (lastNonEmptyBlock : ℤ) (blockNum partialOffset : ℕ)
    (chunk : Bytes) : Pooled (Cached σ) Bytes :=
  if lastNonEmptyBlock < blockNum then
    pure (splice 0 [] partialOffset chunk)
  else do
    let block ← (P.cacheReadOneBlock (blockNum * P.plain.blockSize) P.plain.blockSize).within site
    pure (splice 0 (block.getD []) partialOffset chunk)

def blockToWrite (site : Site) (fileSize : ℕ) (lastNonEmptyBlock : ℤ)
    (blockNum partialOffset : ℕ) (chunk : Bytes) (mb : Option MemBlock) :
    Pooled (Cached σ) (Bytes × Option MemBlock) :=
  let offset := blockNum * P.plain.blockSize
  if chunk.length = P.plain.blockSize ∨ (partialOffset = 0 ∧ fileSize ≤ offset + chunk.length) then
    pure (chunk, mb)
  else do
    let mb ← P.temporary mb
    fill mb (List.replicate P.plain.blockSize 0)
    let data ← P.mergedBlock site lastNonEmptyBlock blockNum partialOffset chunk
    fill mb data
    pure (data, mb)

def writeLoop (offset fileSize : ℕ) (lastNonEmptyBlock : ℤ) :
    (fuel blockNum partialOffset : ℕ) → (inPtr : Bytes) → (mb : Option MemBlock) →
      Pooled (Cached σ) (Bool × Option MemBlock)
  | 0, _, _, _, mb => pure (true, mb)
  | fuel + 1, blockNum, partialOffset, inPtr, mb =>
    if inPtr = [] then
      pure (true, mb)
    else do
      let toCopy := min (P.plain.blockSize - partialOffset) inPtr.length
      let site := .writing P.plain.blockSize fileSize offset blockNum inPtr.length
      let (data, mb) ← P.blockToWrite site fileSize lastNonEmptyBlock blockNum partialOffset
        (inPtr.take toCopy) mb
      match ← (P.cacheWriteOneBlock (blockNum * P.plain.blockSize) data).within site with
      | false => pure (false, mb)
      | true =>
        writeLoop offset fileSize lastNonEmptyBlock fuel (blockNum + 1) 0 (inPtr.drop toCopy) mb

def writeBlocks (fileSize : ℕ) (lastNonEmptyBlock : ℤ) (offset : ℕ) (data : Bytes) :
    Pooled (Cached σ) Bool := do
  let (ok, mb) ← P.writeLoop offset fileSize lastNonEmptyBlock data.length
    (offset / P.plain.blockSize) (offset % P.plain.blockSize) data none
  releaseIf mb
  pure ok

def writeSized (fileSize offset : ℕ) (data : Bytes) : Pooled (Cached σ) Bool := do
  let bs := P.plain.blockSize
  P.fillGap fileSize offset
  if offset % bs = 0 ∧ data.length ≤ bs ∧
      (data.length = bs ∨ (offset / bs = fileSize / bs ∧ fileSize % bs ≤ data.length)) then
    P.cacheWriteOneBlock offset data
  else
    P.writeBlocks fileSize (P.plain.lastNonEmptyBlock fileSize) offset data

def writeBelow (fileSize : ℤ) (offset : ℕ) (data : Bytes) : Pooled (Cached σ) Bool := do
  let bs := P.plain.blockSize
  P.padFileBelow fileSize offset false
  if offset % bs = 0 ∧ data.length ≤ bs ∧ (data.length = bs ∨ offset / bs = 0) then
    P.cacheWriteOneBlock offset data
  else
    P.writeBlocks 0 0 offset data

def write (offset : ℕ) (data : Bytes) : Pooled (Cached σ) Bool := do
  let fileSize ← callOf (Cached.lift P.plain.getSize)
  if 0 ≤ fileSize then
    P.writeSized fileSize.toNat offset data
  else
    P.writeBelow fileSize offset data

def truncateSized (oldSize size : ℕ) (base : Option (ℕ → Action σ ℤ)) : Pooled (Cached σ) ℤ := do
  let bs := P.plain.blockSize
  let partialBlock := size % bs
  if oldSize < size then
    let _ ← callOf (baseTruncate base size)
    P.padFile oldSize size true
    pure 0
  else if size = oldSize then
    pure 0
  else if partialBlock ≠ 0 then
    let mb ← takeOf bs
    let block ← (P.cacheReadOneBlock (size / bs * bs) bs).within .cutting
    writeTo mb (block.getD [])
    let res ← (callOf (baseTruncate base size)).within .cutting
    let _ ← (P.cacheWriteOneBlock (size / bs * bs) (padded block partialBlock)).within .cutting
    giveBack mb
    pure res
  else
    callOf (baseTruncate base size)

def truncate (size : ℕ) (base : Option (ℕ → Action σ ℤ)) : Pooled (Cached σ) ℤ := do
  let oldSize ← callOf (Cached.lift P.plain.getSize)
  if 0 ≤ oldSize then
    P.truncateSized oldSize.toNat size base
  else do
    let _ ← callOf (baseTruncate base size)
    P.padFileBelow oldSize size true
    pure 0

section Keeps

open Borrowing

variable {P} {mb : Option MemBlock} {b : MemBlock}

lemma cacheReadOneBlock_keeps (offset dataLen : ℕ) :
    (P.cacheReadOneBlock offset dataLen).Keeps Site.Holds := by
  refine .bind (.call _) fun o => .ite (.pure _ rfl) (.bind (.call _) fun _ => ?_)
  refine .bind ((P.readOneBlock_keeps _ _).lift _) fun r => ?_
  cases r with
  | none => exact .pure none rfl
  | some result => exact .ite (.pure _ rfl) (.bind (.call _) fun _ => .pure _ rfl)

lemma cacheWriteOneBlock_keeps (offset : ℕ) (data : Bytes) :
    (P.cacheWriteOneBlock offset data).Keeps Site.Holds := by
  refine .bind (.call _) fun _ => .bind ((P.writeOneBlock_keeps _ _).lift _) fun ok => ?_
  cases ok with
  | true => exact .pure true rfl
  | false => exact .bind (.call _) fun _ => .pure false rfl

section

variable {α : Type} {out : α → Option MemBlock}

lemma temporary_bind {f : Option MemBlock → Pooled (Cached σ) α}
    (hf : ∀ b, (f (some b)).Passes Site.Holds (some b) out) :
    (P.temporary mb >>= f).Passes Site.Holds mb out := by
  cases mb with
  | some b => exact hf b
  | none =>
    rw [temporary, bind_bind]
    exact .bind (.take _) hf

lemma blockToRead_bind {p size : ℕ} {f : Option MemBlock → Pooled (Cached σ) α}
    (hf : ∀ mb', (mb'.isSome = true ↔ ¬(p = 0 ∧ P.plain.blockSize ≤ size) ∨ mb.isSome = true) →
      (f mb').Passes Site.Holds mb' out) :
    (P.blockToRead p size mb >>= f).Passes Site.Holds mb out := by
  rw [blockToRead]
  by_cases hwhole : p = 0 ∧ P.plain.blockSize ≤ size
  · rw [if_pos hwhole]
    exact hf mb (by simp [hwhole])
  · rw [if_neg hwhole]
    exact temporary_bind fun b => hf (some b) (by simp [hwhole])

end

lemma fill_passes (data : Bytes) :
    (fill mb data : Pooled (Cached σ) PUnit).Passes Site.Holds mb fun _ => mb := by
  cases mb with
  | some b => exact .write b data
  | none => exact .pure _ rfl

lemma releaseIf_passes : (releaseIf mb : Pooled (Cached σ) PUnit).Passes Site.Holds mb fun _ => none := by
  cases mb with
  | some b => exact .give b
  | none => exact .pure _ rfl

lemma fillBlock_passes (p size : ℕ) (block : Bytes) :
    (P.fillBlock p size mb block).Passes Site.Holds mb fun _ => mb :=
  .ite (.pure _ rfl) (fill_passes block)

lemma readLoop_passes {offset : ℕ} (fuel k p size : ℕ) (out : Bytes) (mb : Option MemBlock)
    (hp : p ≠ 0 → offset % P.plain.blockSize ≠ 0)
    (hlater : p = 0 → offset % P.plain.blockSize ≠ 0 → mb.isSome = true)
    (hmb : mb.isSome = true → offset % P.plain.blockSize ≠ 0 ∨ size < P.plain.blockSize) :
    (P.readLoop offset fuel k p size out mb).Passes Site.Holds mb Prod.snd := by
  induction fuel generalizing k p size out mb with
  | zero => exact .pure (out, mb) rfl
  | succ fuel ih =>
    refine .ite (.pure (out, mb) rfl) (blockToRead_bind fun mb' hmb' => ?_)
    have hholds : (Site.reading P.plain.blockSize offset size).Holds ↔ mb'.isSome = true := by
      rw [hmb', Site.Holds]
      constructor
      · intro h
        by_cases hwhole : p = 0 ∧ P.plain.blockSize ≤ size
        · exact .inr (hlater hwhole.1 (h.resolve_right (Nat.not_lt.mpr hwhole.2)))
        · exact .inl hwhole
      · rintro (hpart | hsome)
        · by_cases h0 : p = 0
          · exact .inr (Nat.not_le.mp fun hle => hpart ⟨h0, hle⟩)
          · exact .inl (hp h0)
        · exact hmb hsome
    refine .bind (.of_keeps (cacheReadOneBlock_keeps _ _) hholds) fun r => ?_
    cases r with
    | none => exact .pure (out, mb') rfl
    | some block =>
      refine .bind (fillBlock_passes p size block) fun _ => .ite (.pure (out, mb') rfl) ?_
      refine .ite (.pure (_, mb') rfl) (ih _ _ _ _ mb' (fun h => absurd rfl h) ?_ fun hsome => ?_)
      · exact fun _ hpart => hholds.mp (.inl hpart)
      · exact (hholds.mpr hsome).imp_right (Nat.lt_of_le_of_lt (Nat.sub_le _ _))

lemma read_keeps (offset dataLen : ℕ) : (P.read offset dataLen).Keeps Site.Holds := by
  refine .ite (cacheReadOneBlock_keeps _ _) (.bind (readLoop_passes _ _ _ _ _ none id ?_ ?_) ?_)
  · exact fun h hpart => absurd h hpart
  · exact fun h => absurd h (by decide)
  · exact fun r => .bind releaseIf_passes fun _ => .pure _ rfl

lemma padWrite_passes (offset : ℕ) (data : Bytes) :
    (P.padWrite offset data).Passes Site.Holds (some b) fun _ => some b :=
  .of_keeps (cacheWriteOneBlock_keeps _ _) (iff_of_true trivial rfl)

lemma padBlock_passes (k readSize size : ℕ) :
    (P.padBlock b k readSize size).Passes Site.Holds (some b) fun _ => some b := by
  refine .bind (.write b _) fun _ =>
    .bind (.of_keeps (cacheReadOneBlock_keeps _ _) (iff_of_true trivial rfl)) fun _ => ?_
  exact .bind (.write b _) fun _ => .bind (padWrite_passes _ _) fun _ => .pure _ rfl

lemma padBlocks_passes (count block : ℕ) :
    (P.padBlocks b count block).Passes Site.Holds (some b) fun _ => some b := by
  induction count generalizing block with
  | zero => exact .pure _ rfl
  | succ count ih =>
    exact .bind (.write b _) fun _ => .bind (padWrite_passes _ _) fun _ => ih (block + 1)

lemma padSameBlock_passes (oldSize newSize : ℕ) :
    (P.padSameBlock b oldSize newSize).Passes Site.Holds (some b) fun _ => some b :=
  .ite (padBlock_passes _ _ _) (.pure _ rfl)

lemma padFirstBlock_passes (oldSize : ℕ) :
    (P.padFirstBlock b oldSize).Passes Site.Holds (some b) fun _ => some b :=
  .ite (padBlock_passes _ _ _) (.pure _ rfl)

lemma padMiddleBlocks_passes (oldSize newSize : ℕ) :
    (P.padMiddleBlocks b oldSize newSize).Passes Site.Holds (some b) fun _ => some b :=
  .ite (.pure _ rfl) (padBlocks_passes _ _)

lemma padLastBlock_passes (newSize : ℕ) (forceWrite : Bool) :
    (P.padLastBlock b newSize forceWrite).Passes Site.Holds (some b) fun _ => some b :=
  .ite (.bind (.write b _) fun _ => .bind (padWrite_passes _ _) fun _ => .pure _ rfl) (.pure _ rfl)

lemma padFile_keeps (oldSize newSize : ℕ) (forceWrite : Bool) :
    (P.padFile oldSize newSize forceWrite).Keeps Site.Holds := by
  refine .ite (.ite (.bind (.take _) fun b => ?_) (.pure _ rfl)) (.bind (.take _) fun b => ?_)
  · exact .bind (padSameBlock_passes _ _) fun _ => .give b
  · refine .bind (padFirstBlock_passes _) fun _ => .bind (padMiddleBlocks_passes _ _) fun _ => ?_
    exact .bind (padLastBlock_passes _ _) fun _ => .give b

lemma cacheReadNegative_keeps (offset : ℕ) : (P.cacheReadNegative offset).Keeps Site.Holds := by
  refine .bind (.call _) fun o => .ite (.raised _) (.bind (.call _) fun _ => ?_)
  refine .bind ((P.readOneBlock_keeps _ _).lift _) fun r => ?_
  cases r with
  | none => exact .pure _ rfl
  | some result => exact .ite (.pure _ rfl) (.bind (.call _) fun _ => .raised _)

lemma padZero_passes (size : ℕ) :
    (P.padZero b size).Passes Site.Holds (some b) fun _ => some b := by
  refine .bind (.write b _) fun _ =>
    .bind (.of_keeps (cacheReadNegative_keeps 0) (iff_of_true trivial rfl)) fun _ => ?_
  exact .bind (padWrite_passes _ _) fun _ => .pure _ rfl

lemma padZeroIf_passes (size : ℕ) :
    (P.padZeroIf b size).Passes Site.Holds (some b) fun _ => some b :=
  .ite (padZero_passes _) (.pure _ rfl)

lemma padMiddleBlocksBelow_passes (newSize : ℕ) :
    (P.padMiddleBlocksBelow b newSize).Passes Site.Holds (some b) fun _ => some b :=
  .ite (.pure _ rfl) (padBlocks_passes _ _)

lemma padFileBelow_keeps (oldSize : ℤ) (newSize : ℕ) (forceWrite : Bool) :
    (P.padFileBelow oldSize newSize forceWrite).Keeps Site.Holds := by
  refine .ite (.bind (.take _) fun b => .raise _ (iff_of_true trivial rfl)) (.ite (.ite ?_ ?_) ?_)
  · exact .bind (.take _) fun b => .bind (padZeroIf_passes _) fun _ => .give b
  · exact .pure _ rfl
  · refine .bind (.take _) fun b => .bind (padZero_passes _) fun _ => ?_
    refine .bind (padMiddleBlocksBelow_passes _) fun _ => ?_
    exact .bind (padLastBlock_passes _ _) fun _ => .give b

lemma fillGap_keeps (fileSize offset : ℕ) : (P.fillGap fileSize offset).Keeps Site.Holds :=
  .ite (padFile_keeps _ _ _) (.pure _ rfl)

lemma mergedBlock_passes {site : Site} (hsite : site.Holds) (last : ℤ) (k p : ℕ) (chunk : Bytes) :
    (P.mergedBlock site last k p chunk).Passes Site.Holds (some b) fun _ => some b := by
  refine .ite (.pure _ rfl) (.bind ?_ fun _ => .pure _ rfl)
  exact .of_keeps (cacheReadOneBlock_keeps _ _) (iff_of_true hsite rfl)

lemma blockToWrite_bind {α : Type} {out : α → Option MemBlock} {site : Site} {fileSize : ℕ}
    {last : ℤ} {k p : ℕ} {chunk : Bytes} {whole : Prop}
    (hwhole : whole ↔ chunk.length = P.plain.blockSize ∨
      (p = 0 ∧ fileSize ≤ k * P.plain.blockSize + chunk.length)) (hsite : ¬whole → site.Holds)
    {f : Bytes × Option MemBlock → Pooled (Cached σ) α}
    (hf : ∀ data mb', (mb'.isSome = true ↔ ¬whole ∨ mb.isSome = true) →
      (f (data, mb')).Passes Site.Holds mb' out) :
    (P.blockToWrite site fileSize last k p chunk mb >>= f).Passes Site.Holds mb out := by
  rw [blockToWrite]
  by_cases h : whole
  · rw [if_pos (hwhole.mp h)]
    exact hf chunk mb (by simp [h])
  · rw [if_neg fun h' => h (hwhole.mpr h'), bind_bind]
    refine temporary_bind fun b => ?_
    rw [bind_bind]
    refine .bind (fill_passes _) fun _ => ?_
    rw [bind_bind]
    refine .bind (mergedBlock_passes (hsite h) _ _ _ _) fun data => ?_
    rw [bind_bind]
    exact .bind (fill_passes data) fun _ => hf data (some b) (by simp [h])

lemma writeLoop_passes {offset fileSize : ℕ} (last : ℤ) (fuel k p : ℕ) (inPtr : Bytes)
    (mb : Option MemBlock) (hlt : p < P.plain.blockSize)
    (hp : p ≠ 0 → offset % P.plain.blockSize ≠ 0)
    (hlater : p = 0 → offset % P.plain.blockSize ≠ 0 → mb.isSome = true)
    (hmb : inPtr ≠ [] → mb.isSome = true →
      (Site.writing P.plain.blockSize fileSize offset k inPtr.length).Holds) :
    (P.writeLoop offset fileSize last fuel k p inPtr mb).Passes Site.Holds mb Prod.snd := by
  induction fuel generalizing k p inPtr mb with
  | zero => exact .pure (true, mb) rfl
  | succ fuel ih =>
    rw [writeLoop]
    by_cases hnil : inPtr = []
    · rw [if_pos hnil]
      exact .pure (true, mb) rfl
    rw [if_neg hnil]
    dsimp only
    set n := min (P.plain.blockSize - p) inPtr.length with hn
    have hlen : (inPtr.take n).length = n := by
      rw [List.length_take]
      omega
    have hpart : offset % P.plain.blockSize = 0 → p = 0 := fun h0 => by
      by_contra hne
      exact hp hne h0
    have hsite : ¬(n = P.plain.blockSize ∨ (p = 0 ∧ fileSize ≤ k * P.plain.blockSize + n)) →
        (Site.writing P.plain.blockSize fileSize offset k inPtr.length).Holds := by
      intro h
      rw [Site.Holds]
      by_cases h0 : offset % P.plain.blockSize = 0
      · have := hpart h0
        exact .inr (by omega)
      · exact .inl h0
    refine blockToWrite_bind (by rw [hlen]) hsite fun data mb' hmb' => ?_
    have hholds : (Site.writing P.plain.blockSize fileSize offset k inPtr.length).Holds ↔
        mb'.isSome = true := by
      rw [hmb']
      constructor
      · rintro (hunaligned | ⟨hshort, hinside⟩)
        · by_cases h0 : p = 0
          · exact .inr (hlater h0 hunaligned)
          · exact .inl (by omega)
        · exact .inl (by omega)
      · rintro (h | hsome)
        · exact hsite h
        · exact hmb hnil hsome
    refine .bind (.of_keeps (cacheWriteOneBlock_keeps _ _) hholds) fun ok => ?_
    cases ok with
    | false => exact .pure (false, mb') rfl
    | true =>
      refine ih (k + 1) 0 _ mb' (Nat.zero_lt_of_lt P.plain.blockSize_gt) (fun h => absurd rfl h) ?_ fun hmore hsome => ?_
      · exact fun _ hunaligned => hholds.mp (.inl hunaligned)
      · have hdrop : n < inPtr.length := by
          have := List.length_pos_iff.mpr hmore
          rw [List.length_drop] at this
          omega
        by_cases h0 : offset % P.plain.blockSize = 0
        · have hshort := (hholds.mpr hsome).resolve_left (not_not_intro h0)
          have := hpart h0
          omega
        · exact .inl h0

lemma writeBlocks_keeps (fileSize : ℕ) (last : ℤ) (offset : ℕ) (data : Bytes) :
    (P.writeBlocks fileSize last offset data).Keeps Site.Holds := by
  refine .bind (writeLoop_passes _ _ _ _ _ none (Nat.mod_lt _ (Nat.zero_lt_of_lt P.plain.blockSize_gt)) id ?_ ?_) ?_
  · exact fun h hpart => absurd h hpart
  · exact fun _ h => absurd h (by decide)
  · exact fun r => .bind releaseIf_passes fun _ => .pure _ rfl

lemma write_keeps (offset : ℕ) (data : Bytes) : (P.write offset data).Keeps Site.Holds := by
  refine .bind (.call _) fun fileSize => .ite ?_ ?_
  · refine .bind (fillGap_keeps _ _) fun _ => ?_
    exact .ite (cacheWriteOneBlock_keeps _ _) (writeBlocks_keeps _ _ _ _)
  · refine .bind (padFileBelow_keeps _ _ _) fun _ => ?_
    exact .ite (cacheWriteOneBlock_keeps _ _) (writeBlocks_keeps _ _ _ _)

lemma truncate_keeps (size : ℕ) (base : Option (ℕ → Action σ ℤ)) :
    (P.truncate size base).Keeps Site.Holds := by
  have hcutting {α : Type} {p : Pooled (Cached σ) α} (hp : p.Keeps Site.Holds) (b : MemBlock) :
      (p.within .cutting).Passes Site.Holds (some b) fun _ => some b :=
    .of_keeps hp (iff_of_true trivial rfl)
  refine .bind (.call _) fun oldSize => .ite (.ite ?_ (.ite (.pure _ rfl) (.ite ?_ (.call _)))) ?_
  · exact .bind (.call _) fun _ => .bind (padFile_keeps _ _ _) fun _ => .pure _ rfl
  · refine .bind (.take _) fun b => .bind (hcutting (cacheReadOneBlock_keeps _ _) b) fun _ => ?_
    refine .bind (.write b _) fun _ => .bind (hcutting (.call _) b) fun _ => ?_
    refine .bind (hcutting (cacheWriteOneBlock_keeps _ _) b) fun _ => .bind (.give b) fun _ => ?_
    exact .pure _ rfl
  · exact .bind (.call _) fun _ => .bind (padFileBelow_keeps _ _ _) fun _ => .pure _ rfl

end Keeps

section Denotes

open Borrowing

variable {P} {mb : Option MemBlock} {b : MemBlock}

lemma cacheReadOneBlock_denotes (offset dataLen : ℕ) :
    (P.cacheReadOneBlock offset dataLen).Denotes id (P.plain.cacheReadOneBlock offset dataLen) := by
  refine .bind (.call _) fun o => .ite (.pure _) (.bind (.call _) fun _ => ?_)
  refine .bind ((P.readOneBlock_denotes _ _).lift _) fun r => ?_
  cases r with
  | none => exact .pure none
  | some result => exact .ite (.pure _) (.bind (.call _) fun _ => .pure _)

lemma cacheWriteOneBlock_denotes (offset : ℕ) (data : Bytes) :
    (P.cacheWriteOneBlock offset data).Denotes id (P.plain.cacheWriteOneBlock offset data) := by
  refine .bind (.call _) fun _ => .bind ((P.writeOneBlock_denotes _ _).lift _) fun ok => ?_
  cases ok with
  | true => exact .pure true
  | false => exact .bind (.call _) fun _ => .pure false

abbrev Silent {α : Type} (p : Pooled (Cached σ) α) : Prop :=
  p.Denotes (fun _ => PUnit.unit) (pure PUnit.unit)

lemma temporary_silent : Silent (P.temporary mb) := by
  cases mb with
  | some b => rfl
  | none => exact fun _ => rfl

lemma fill_silent (data : Bytes) : Silent (fill mb data : Pooled (Cached σ) PUnit) := by
  cases mb with
  | some b => rfl
  | none => rfl

lemma releaseIf_silent : Silent (releaseIf mb : Pooled (Cached σ) PUnit) := by
  cases mb with
  | some b => rfl
  | none => rfl

lemma blockToRead_silent (p size : ℕ) : Silent (P.blockToRead p size mb) := by
  rw [blockToRead]
  split
  · rfl
  · exact temporary_silent

lemma fillBlock_silent (p size : ℕ) (block : Bytes) : Silent (P.fillBlock p size mb block) := by
  rw [fillBlock]
  split
  · rfl
  · exact fill_silent block

lemma readLoop_denotes (offset fuel k p size : ℕ) (out : Bytes) (mb : Option MemBlock) :
    (P.readLoop offset fuel k p size out mb).Denotes Prod.fst
      (P.plain.readLoop fuel k p size out) := by
  induction fuel generalizing k p size out mb with
  | zero => exact .pure (out, mb)
  | succ fuel ih =>
    refine .ite (.pure (out, mb)) (.silent (blockToRead_silent p size) fun mb' => ?_)
    refine .bind ((cacheReadOneBlock_denotes _ _).within _) fun r => ?_
    cases r with
    | none => exact .pure (out, mb')
    | some block =>
      refine .silent (fillBlock_silent p size block) fun _ => ?_
      exact .ite (.pure (out, mb')) (.ite (.pure (_, mb')) (ih _ _ _ _ mb'))

lemma read_denotes (offset dataLen : ℕ) :
    (P.read offset dataLen).Denotes id (P.plain.read offset dataLen) := by
  refine .ite (cacheReadOneBlock_denotes _ _) ?_
  exact .bind (readLoop_denotes _ _ _ _ _ _ none) fun r => .silent releaseIf_silent fun _ => .pure _

lemma padWrite_denotes (offset : ℕ) (data : Bytes) :
    (P.padWrite offset data).Denotes id (P.plain.cacheWriteOneBlock offset data) :=
  (cacheWriteOneBlock_denotes offset data).within _

lemma padBlock_denotes (k readSize size : ℕ) :
    (P.padBlock b k readSize size).Denotes id (P.plain.padBlock k readSize size) := by
  refine .silent rfl fun _ => .bind ((cacheReadOneBlock_denotes _ _).within _) fun block => ?_
  exact .silent rfl fun _ => .bind (padWrite_denotes _ _) fun _ => .pure _

lemma padBlocks_denotes (count block : ℕ) :
    (P.padBlocks b count block).Denotes id (P.plain.padBlocks count block) := by
  induction count generalizing block with
  | zero => exact .pure _
  | succ count ih =>
    exact .silent rfl fun _ => .bind (padWrite_denotes _ _) fun _ => ih (block + 1)

lemma padFirstBlock_denotes (oldSize : ℕ) :
    (P.padFirstBlock b oldSize).Denotes id (P.plain.padFirstBlock oldSize) :=
  .ite (padBlock_denotes _ _ _) (.pure _)

lemma padMiddleBlocks_denotes (oldSize newSize : ℕ) :
    (P.padMiddleBlocks b oldSize newSize).Denotes id (P.plain.padMiddleBlocks oldSize newSize) :=
  .ite (.pure _) (padBlocks_denotes _ _)

lemma padLastBlock_denotes (newSize : ℕ) (forceWrite : Bool) :
    (P.padLastBlock b newSize forceWrite).Denotes id (P.plain.padLastBlock newSize forceWrite) :=
  .ite (.silent rfl fun _ => .bind (padWrite_denotes _ _) fun _ => .pure _) (.pure _)

lemma padSameBlock_denotes (oldSize newSize : ℕ) :
    (P.padSameBlock b oldSize newSize).Denotes id
      (if newSize % P.plain.blockSize ≠ 0 then
        P.plain.padBlock (oldSize / P.plain.blockSize) (oldSize % P.plain.blockSize)
          (newSize % P.plain.blockSize)
      else pure ⟨⟩) :=
  .ite (padBlock_denotes _ _ _) (.pure _)

lemma padFile_denotes (oldSize newSize : ℕ) (forceWrite : Bool) :
    (P.padFile oldSize newSize forceWrite).Denotes id
      (P.plain.padFile oldSize newSize forceWrite) := by
  refine .ite ?_ (.silent (fun _ => rfl) fun b => ?_)
  · cases forceWrite with
    | false => rfl
    | true =>
      simp only [true_and, if_true]
      exact .silent (fun _ => rfl) fun b => .last (padSameBlock_denotes _ _) fun _ => rfl
  · refine .bind (padFirstBlock_denotes _) fun _ => .bind (padMiddleBlocks_denotes _ _) fun _ => ?_
    exact .last (padLastBlock_denotes _ _) fun _ => rfl

lemma cacheReadNegative_denotes (offset : ℕ) :
    (P.cacheReadNegative offset).Denotes id (P.plain.cacheReadNegative offset) := by
  refine .bind (.call _) fun o => .ite (.raise _) (.bind (.call _) fun _ => ?_)
  refine .bind ((P.readOneBlock_denotes _ _).lift _) fun r => ?_
  cases r with
  | none => exact .pure _
  | some result => exact .ite (.pure _) (.bind (.call _) fun _ => .raise _)

lemma padZero_denotes (size : ℕ) :
    (P.padZero b size).Denotes id (P.plain.padZero size) := by
  refine .silent rfl fun _ => .bind ((cacheReadNegative_denotes 0).within _) fun _ => ?_
  exact .bind (padWrite_denotes _ _) fun _ => .pure _

lemma padFileBelow_denotes (oldSize : ℤ) (newSize : ℕ) (forceWrite : Bool) :
    (P.padFileBelow oldSize newSize forceWrite).Denotes id
      (P.plain.padFileBelow oldSize newSize forceWrite) := by
  refine .ite (.silent (fun _ => rfl) fun _ => (Denotes.raise _).within _) (.ite ?_ ?_)
  · cases forceWrite with
    | false => rfl
    | true =>
      simp only [true_and, if_true]
      refine .silent (fun _ => rfl) fun b => .last (.ite (padZero_denotes _) (.pure _)) fun _ => rfl
  · refine .silent (fun _ => rfl) fun b => .bind (padZero_denotes _) fun _ => ?_
    refine .bind (.ite (.pure _) (padBlocks_denotes _ _)) fun _ => ?_
    exact .last (padLastBlock_denotes _ _) fun _ => rfl

lemma fillGap_denotes (fileSize offset : ℕ) :
    (P.fillGap fileSize offset).Denotes id (P.plain.fillGap fileSize offset) :=
  .ite (padFile_denotes _ _ _) (.pure _)

lemma mergedBlock_denotes (site : Site) (last : ℤ) (k p : ℕ) (chunk : Bytes) :
    (P.mergedBlock site last k p chunk).Denotes id
      (if last < k then
        pure (splice 0 [] p chunk)
      else do
        let block ← P.plain.cacheReadOneBlock (k * P.plain.blockSize) P.plain.blockSize
        pure (splice 0 (block.getD []) p chunk)) :=
  .ite (.pure _) (.bind ((cacheReadOneBlock_denotes _ _).within _) fun _ => .pure _)

lemma blockToWrite_denotes (site : Site) (fileSize : ℕ) (last : ℤ) (k p : ℕ) (chunk : Bytes)
    (mb : Option MemBlock) :
    (P.blockToWrite site fileSize last k p chunk mb).Denotes Prod.fst
      (P.plain.blockToWrite fileSize last k p chunk) := by
  refine .ite (.pure (chunk, mb)) (.silent temporary_silent fun mb' => ?_)
  refine .silent (fill_silent _) fun _ =>
    .last (mergedBlock_denotes site last k p chunk) fun data => ?_
  exact .silent (fill_silent data) fun _ => .pure (data, mb')

lemma writeLoop_denotes (offset fileSize : ℕ) (last : ℤ) (fuel k p : ℕ) (inPtr : Bytes)
    (mb : Option MemBlock) :
    (P.writeLoop offset fileSize last fuel k p inPtr mb).Denotes Prod.fst
      (P.plain.writeLoop fileSize last fuel k p inPtr) := by
  induction fuel generalizing k p inPtr mb with
  | zero => exact .pure (true, mb)
  | succ fuel ih =>
    refine .ite (.pure (true, mb)) (.bind (blockToWrite_denotes _ _ _ _ _ _ mb) fun r => ?_)
    refine .bind ((cacheWriteOneBlock_denotes _ _).within _) fun ok => ?_
    cases ok with
    | false => exact .pure (false, r.2)
    | true => exact ih _ _ _ r.2

lemma writeBlocks_denotes (fileSize : ℕ) (last : ℤ) (offset : ℕ) (data : Bytes) :
    (P.writeBlocks fileSize last offset data).Denotes id
      (P.plain.writeLoop fileSize last data.length (offset / P.plain.blockSize)
        (offset % P.plain.blockSize) data) :=
  .last (writeLoop_denotes _ _ _ _ _ _ _ none) fun _ => .silent releaseIf_silent fun _ => .pure _

lemma write_denotes (offset : ℕ) (data : Bytes) :
    (P.write offset data).Denotes id (P.plain.write offset data) := by
  refine .bind (.call _) fun fileSize => .ite (.bind (fillGap_denotes _ _) fun _ => ?_)
    (.bind (padFileBelow_denotes _ _ _) fun _ => ?_)
  · exact .ite (cacheWriteOneBlock_denotes _ _) (writeBlocks_denotes _ _ _ _)
  · exact .ite (cacheWriteOneBlock_denotes _ _) (writeBlocks_denotes _ _ _ _)

lemma truncate_denotes (size : ℕ) (base : Option (ℕ → Action σ ℤ)) :
    (P.truncate size base).Denotes id (P.plain.truncate size base) := by
  refine .bind (.call _) fun oldSize => .ite (.ite ?_ (.ite (.pure _) (.ite ?_ (.call _)))) ?_
  · exact .bind (.call _) fun _ => .bind (padFile_denotes _ _ _) fun _ => .pure _
  · refine .silent (fun _ => rfl) fun b =>
      .bind ((cacheReadOneBlock_denotes _ _).within _) fun block => ?_
    refine .silent rfl fun _ => .bind ((Denotes.call _).within _) fun res => ?_
    exact .bind ((cacheWriteOneBlock_denotes _ _).within _) fun _ => .silent rfl fun _ => .pure _
  · exact .bind (.call _) fun _ => .bind (padFileBelow_denotes _ _ _) fun _ => .pure _

end Denotes

end PooledBlockFile

structure PooledFile (σ : Type) where
  plain : FileIO σ
  read : (offset dataLen : ℕ) → Pooled σ (Option Bytes)
  write : (offset : ℕ) → (data : Bytes) → Pooled σ Bool
  truncate : (size : ℕ) → Pooled σ ℤ
  read_denotes (offset n : ℕ) : (read offset n).Denotes id (plain.read offset n)
  write_denotes (offset : ℕ) (data : Bytes) : (write offset data).Denotes id (plain.write offset data)
  truncate_denotes (size : ℕ) : (truncate size).Denotes id (plain.truncate size)
  read_keeps (offset n : ℕ) : (read offset n).Keeps Site.Holds
  write_keeps (offset : ℕ) (data : Bytes) : (write offset data).Keeps Site.Holds
  truncate_keeps (size : ℕ) : (truncate size).Keeps Site.Holds

def FileIO.pooled {σ : Type} (F : FileIO σ) : PooledFile σ where
  plain := F
  read offset n := callOf (F.read offset n)
  write offset data := callOf (F.write offset data)
  truncate size := callOf (F.truncate size)
  read_denotes _ _ := .call _
  write_denotes _ _ := .call _
  truncate_denotes _ := .call _
  read_keeps _ _ := .call _
  write_keeps _ _ := .call _
  truncate_keeps _ := .call _

def BlockFileIO.pooled {σ : Type} (B : BlockFileIO σ) : PooledBlockFile σ where
  plain := B
  readOneBlock offset n := callOf (B.readOneBlock offset n)
  writeOneBlock offset data := callOf (B.writeOneBlock offset data)
  readOneBlock_denotes _ _ := .call _
  writeOneBlock_denotes _ _ := .call _
  readOneBlock_keeps _ _ := .call _
  writeOneBlock_keeps _ _ := .call _

def BlockFileIO.pooledFile {σ : Type} (B : BlockFileIO σ) (base : Option (ℕ → Action σ ℤ))
    (rest : FileIO (Cached σ)) : PooledFile (Cached σ) where
  plain := { rest with toAccessors := B.accessors, truncate := fun size => B.truncate size base }
  read := B.pooled.read
  write := B.pooled.write
  truncate size := B.pooled.truncate size base
  read_denotes := B.pooled.read_denotes
  write_denotes := B.pooled.write_denotes
  truncate_denotes size := B.pooled.truncate_denotes size base
  read_keeps _ _ := PooledBlockFile.read_keeps _ _
  write_keeps _ _ := PooledBlockFile.write_keeps _ _
  truncate_keeps _ := PooledBlockFile.truncate_keeps _ _

namespace CipherFileIO

open CipherFile

variable {τ : Type} (F : CipherFileIO τ)

def pooledTruncate (size : ℕ) : Pooled (Cached (CipherFile τ)) ℤ :=
  if F.haveHeader then do
    callOf (Cached.lift F.openForHeader)
    let res ← F.blockFile.pooled.truncate size none
    if res = 0 then
      let _ ← callOf (Cached.lift (lift (F.base.truncate (size + HEADER_SIZE))))
      pure res
    else
      pure res
  else
    F.blockFile.pooled.truncate size (some fun size => lift (F.base.truncate size))

def pooled : PooledFile (Cached (CipherFile τ)) where
  plain := F.fileIO
  read := F.blockFile.pooled.read
  write := F.blockFile.pooled.write
  truncate := F.pooledTruncate
  read_denotes := F.blockFile.pooled.read_denotes
  write_denotes := F.blockFile.pooled.write_denotes
  truncate_denotes size := by
    refine .ite (.bind (.call _) fun _ => ?_) (F.blockFile.pooled.truncate_denotes _ _)
    refine .bind (F.blockFile.pooled.truncate_denotes _ _) fun res => ?_
    exact .ite (.bind (.call _) fun _ => .pure res) (.pure res)
  read_keeps _ _ := PooledBlockFile.read_keeps _ _
  write_keeps _ _ := PooledBlockFile.write_keeps _ _
  truncate_keeps size := by
    refine .ite (.bind (.call _) fun _ => ?_) (PooledBlockFile.truncate_keeps _ _)
    refine .bind (PooledBlockFile.truncate_keeps _ _) fun res => ?_
    exact .ite (.bind (.call _) fun _ => .pure res rfl) (.pure res rfl)

end CipherFileIO

namespace MACFileIO

open MACFile

variable {τ : Type} (M : MACFileIO τ) (base : PooledFile τ)

def withBase : MACFileIO τ := { M with base := base.plain }

def pooledReadOneBlock (offset dataLen : ℕ) : Pooled (MACFile τ) (Option Bytes) := do
  let mb ← takeOf M.bs
  match ← ((base.read (locWithHeader offset M.bs M.headerSize) (M.headerSize + dataLen)).lift
      (MACFile.lens τ)).within .macRead with
  | none => do
    giveBack mb
    pure none
  | some raw => do
    writeTo mb raw
    if M.headerSize < raw.length then
      if M.skipBlock raw = false ∧ M.macMatches raw = false ∧ M.warnOnly = false then do
        giveBack mb
        raiseOf .macMismatch
      else do
        giveBack mb
        pure (some (raw.drop M.headerSize))
    else do
      giveBack mb
      pure (some [])

def pooledWriteOneBlock (offset : ℕ) (data : Bytes) : Pooled (MACFile τ) Bool := do
  let mb ← takeOf M.bs
  writeTo mb (List.replicate M.headerSize 0 ++ data)
  match ← (attemptOf M.randomHeader).within .macWrite with
  | none => pure false
  | some rand =>
    if M.ChecksNothing rand data then
      (raiseOf .assertFailed).within .macWrite
    else do
      writeTo mb (M.withHeader rand data)
      let ok ← ((base.write (locWithHeader offset M.bs M.headerSize)
        (M.withHeader rand data)).lift (MACFile.lens τ)).within .macWrite
      giveBack mb
      pure ok

lemma pooledReadOneBlock_keeps (offset n : ℕ) :
    (M.pooledReadOneBlock base offset n).Keeps Site.Holds := by
  refine .bind (.take _) fun mb =>
    .bind (.of_keeps ((base.read_keeps _ _).lift _) (iff_of_true trivial rfl)) fun r => ?_
  cases r with
  | none => exact .bind (.give mb) fun _ => .pure none rfl
  | some raw =>
    refine .bind (.write mb raw) fun _ => .ite (.ite (.bind (.give mb) fun _ => .raised _) ?_) ?_
    · exact .bind (.give mb) fun _ => .pure _ rfl
    · exact .bind (.give mb) fun _ => .pure _ rfl

lemma pooledWriteOneBlock_keeps (offset : ℕ) (data : Bytes) :
    (M.pooledWriteOneBlock base offset data).Keeps Site.Holds := by
  refine .bind (.take _) fun mb => .bind (.write mb _) fun _ => ?_
  refine .attempt false trivial rfl fun rand => .ite (.raise _ (iff_of_true trivial rfl)) ?_
  refine .bind (.write mb _) fun _ =>
    .bind (.of_keeps ((base.write_keeps _ _).lift _) (iff_of_true trivial rfl)) fun ok => ?_
  exact .bind (.give mb) fun _ => .pure ok rfl

def pooledBlockFile : PooledBlockFile (MACFile τ) where
  plain := (M.withBase base).blockFile
  readOneBlock := M.pooledReadOneBlock base
  writeOneBlock := M.pooledWriteOneBlock base
  readOneBlock_denotes offset n := by
    refine .silent (fun _ => rfl) fun mb =>
      .bind (((base.read_denotes _ _).lift _).within _) fun r => ?_
    cases r with
    | none => exact .silent rfl fun _ => .pure none
    | some raw =>
      refine .silent rfl fun _ => .ite (.ite (.silent rfl fun _ => rfl) ?_) ?_
      · exact .silent rfl fun _ => .pure _
      · exact .silent rfl fun _ => .pure _
  writeOneBlock_denotes offset data := by
    refine .silent (fun _ => rfl) fun mb => .silent rfl fun _ => ?_
    refine .bind ((Borrowing.Denotes.attempt _).within _) fun rand => ?_
    cases rand with
    | none => exact .pure false
    | some rand =>
      refine .ite ((Borrowing.Denotes.raise _).within _) (.silent rfl fun _ => ?_)
      exact .last (((base.write_denotes _ _).lift _).within _) fun ok =>
        .silent rfl fun _ => .pure ok
  readOneBlock_keeps := M.pooledReadOneBlock_keeps base
  writeOneBlock_keeps := M.pooledWriteOneBlock_keeps base

def fileIO : FileIO (Cached (MACFile τ)) where
  toAccessors := M.blockFile.accessors
  openFile flags := Cached.lift (lift (M.base.openFile flags))
  setIV iv := Cached.lift (lift (M.base.setIV iv))
  truncate := M.truncate
  isWritable := Cached.lift (lift M.base.isWritable)

def pooledTruncate (size : ℕ) : Pooled (Cached (MACFile τ)) ℤ := do
  let res ← (M.pooledBlockFile base).truncate size none
  if res = 0 then
    let _ ← ((base.truncate (locWithHeader size M.bs M.headerSize)).lift (MACFile.lens τ)).lift
      (Cached.lens (MACFile τ))
    pure res
  else
    pure res

def pooled : PooledFile (Cached (MACFile τ)) where
  plain := fileIO (M.withBase base)
  read := (M.pooledBlockFile base).read
  write := (M.pooledBlockFile base).write
  truncate := M.pooledTruncate base
  read_denotes := (M.pooledBlockFile base).read_denotes
  write_denotes := (M.pooledBlockFile base).write_denotes
  truncate_denotes size := by
    refine .bind ((M.pooledBlockFile base).truncate_denotes _ _) fun res => ?_
    exact .ite (.bind (((base.truncate_denotes _).lift _).lift _) fun _ => .pure res) (.pure res)
  read_keeps _ _ := PooledBlockFile.read_keeps _ _
  write_keeps _ _ := PooledBlockFile.write_keeps _ _
  truncate_keeps size := by
    refine .bind (PooledBlockFile.truncate_keeps _ _) fun res => ?_
    exact .ite (.bind (((base.truncate_keeps _).lift _).lift _) fun _ => .pure res rfl) (.pure res rfl)

end MACFileIO

inductive Layer : Type → Type 1
  | base {σ : Type} (F : FileIO σ) : Layer σ
  | block {σ : Type} (B : BlockFileIO σ) (base : Option (ℕ → Action σ ℤ))
      (rest : FileIO (Cached σ)) : Layer (Cached σ)
  | cipher {τ : Type} (F : CipherFileIO τ) : Layer (Cached (CipherFile τ))
  | mac {τ : Type} (M : MACFileIO τ) (below : Layer τ) : Layer (Cached (MACFile τ))

def Layer.file : {σ : Type} → Layer σ → PooledFile σ
  | _, .base F => F.pooled
  | _, .block B truncateBase rest => B.pooledFile truncateBase rest
  | _, .cipher F => F.pooled
  | _, .mac M below => M.pooled below.file

end EncFS
