import EncFS.FileIO
import EncFS.Outcome

/-! Block scatter and gather over the one-block operations of a derived class. -/

set_option autoImplicit false

namespace EncFS

open FlatArray

/-- What a derived class supplies. `none` is a negative result of `readOneBlock`. -/
structure BlockFileIO (σ : Type) where
  blockSize : ℕ
  blockSize_gt : 1 < blockSize
  allowHoles : Bool
  getSize : Action σ ℤ
  readOneBlock : (offset dataLen : ℕ) → Action σ (Option Bytes)
  writeOneBlock : (offset : ℕ) → (data : Bytes) → Action σ Bool

/-- The request held in `_cache`; its `dataLen` is the length of `data`. -/
structure Cache where
  offset : ℕ
  data : Bytes
  deriving DecidableEq, Repr

def Cache.empty : Cache := ⟨0, []⟩

structure Cached (σ : Type) where
  cache : Cache
  file : σ
  deriving DecidableEq, Repr

namespace Cached

variable {σ α : Type}

def lift (x : Action σ α) : Action (Cached σ) α := fun o =>
  match x o.file with
  | .ok a s => .ok a { o with file := s }
  | .error e s => .error e { o with file := s }

def setCache (k : Cache) : Action (Cached σ) PUnit :=
  modify fun o => { o with cache := k }

def clearCache : Action (Cached σ) PUnit :=
  modify fun o => { o with cache := { o.cache with data := [] } }

lemma lift_ok {x : Action σ α} {k : Cache} {a : α} {s s' : σ} (h : x s = .ok a s') :
    lift x ⟨k, s⟩ = .ok a ⟨k, s'⟩ := by
  simp only [lift, h]

lemma lift_error {x : Action σ α} {k : Cache} {e : RlogError} {s s' : σ}
    (h : x s = .error e s') : lift x ⟨k, s⟩ = .error e ⟨k, s'⟩ := by
  simp only [lift, h]

lemma lift_yields {x : Action σ α} {o : Cached σ} {Q : α → Cached σ → Prop}
    {E : RlogError → Cached σ → Prop}
    (h : Yields x o.file (fun a f => Q a { o with file := f }) fun e f => E e { o with file := f }) :
    Yields (lift x) o Q E := by
  cases hx : x o.file with
  | ok a f => exact Yields.of_ok (lift_ok hx) (h.ok hx)
  | error e f => exact Yields.of_error (lift_error hx) (h.error hx)

lemma setCache_run (k k' : Cache) (s : σ) : setCache k' ⟨k, s⟩ = .ok ⟨⟩ ⟨k', s⟩ := rfl

lemma clearCache_run (k : Cache) (s : σ) : clearCache ⟨k, s⟩ = .ok ⟨⟩ ⟨⟨k.offset, []⟩, s⟩ := rfl

end Cached

namespace BlockFileIO

open Cached

variable {σ : Type} (B : BlockFileIO σ)

def cacheReadOneBlock (offset dataLen : ℕ) : Action (Cached σ) (Option Bytes) := do
  let o ← get
  if offset = o.cache.offset ∧ o.cache.data ≠ [] then
    pure (some (o.cache.data.take dataLen))
  else
    clearCache
    -- reads are issued for full blocks, whatever the length of the request
    match ← lift (B.readOneBlock offset B.blockSize) with
    | none => pure none
    | some result =>
      if result = [] then
        pure (some [])
      else
        setCache ⟨offset, result⟩
        pure (some (result.take dataLen))

def cacheWriteOneBlock (offset : ℕ) (data : Bytes) : Action (Cached σ) Bool := do
  setCache ⟨offset, data⟩
  match ← lift (B.writeOneBlock offset data) with
  | true => pure true
  | false =>
    clearCache
    pure false

def readLoop : (fuel blockNum partialOffset size : ℕ) → (out : Bytes) → Action (Cached σ) Bytes
  | 0, _, _, _, out => pure out
  | fuel + 1, blockNum, partialOffset, size, out =>
    if size = 0 then
      pure out
    else do
      match ← B.cacheReadOneBlock (blockNum * B.blockSize) B.blockSize with
      | none => pure out
      | some block =>
        if block.length ≤ partialOffset then
          pure out
        else
          let cpySize := min (block.length - partialOffset) size
          let out' := out ++ slice block partialOffset cpySize
          if block.length < B.blockSize then
            pure out'
          else
            readLoop fuel (blockNum + 1) 0 (size - cpySize) out'

def read (offset dataLen : ℕ) : Action (Cached σ) (Option Bytes) :=
  let partialOffset := offset % B.blockSize
  let blockNum := offset / B.blockSize
  if partialOffset = 0 ∧ dataLen ≤ B.blockSize then
    B.cacheReadOneBlock offset dataLen
  else do
    let out ← B.readLoop dataLen blockNum partialOffset dataLen []
    pure (some out)

def padBlocks : (count block : ℕ) → Action (Cached σ) PUnit
  | 0, _ => pure ⟨⟩
  | count + 1, block => do
    let _ ← B.cacheWriteOneBlock (block * B.blockSize) (List.replicate B.blockSize 0)
    padBlocks count (block + 1)

def padded (block : Option Bytes) (size : ℕ) : Bytes :=
  resize 0 (block.getD []) size

def padBlock (k readSize size : ℕ) : Action (Cached σ) PUnit := do
  let block ← B.cacheReadOneBlock (k * B.blockSize) readSize
  let _ ← B.cacheWriteOneBlock (k * B.blockSize) (padded block size)
  pure ⟨⟩

def firstToPad (oldSize : ℕ) : ℕ :=
  if oldSize % B.blockSize ≠ 0 then oldSize / B.blockSize + 1 else oldSize / B.blockSize

def padFirstBlock (oldSize : ℕ) : Action (Cached σ) PUnit :=
  if oldSize % B.blockSize ≠ 0 then
    B.padBlock (oldSize / B.blockSize) (oldSize % B.blockSize) B.blockSize
  else
    pure ⟨⟩

def padMiddleBlocks (oldSize newSize : ℕ) : Action (Cached σ) PUnit :=
  if B.allowHoles then
    pure ⟨⟩
  else
    B.padBlocks (newSize / B.blockSize - B.firstToPad oldSize) (B.firstToPad oldSize)

def padLastBlock (newSize : ℕ) (forceWrite : Bool) : Action (Cached σ) PUnit :=
  if forceWrite ∧ newSize % B.blockSize ≠ 0 then do
    let _ ← B.cacheWriteOneBlock (newSize / B.blockSize * B.blockSize)
      (List.replicate (newSize % B.blockSize) 0)
    pure ⟨⟩
  else
    pure ⟨⟩

def padFile (oldSize newSize : ℕ) (forceWrite : Bool) : Action (Cached σ) PUnit :=
  if oldSize / B.blockSize = newSize / B.blockSize then
    if forceWrite ∧ newSize % B.blockSize ≠ 0 then
      B.padBlock (oldSize / B.blockSize) (oldSize % B.blockSize) (newSize % B.blockSize)
    else
      pure ⟨⟩
  else do
    -- 1. extend the first block to full length
    B.padFirstBlock oldSize
    -- 2. pad zero blocks unless holes are allowed
    B.padMiddleBlocks oldSize newSize
    -- 3. only necessary if write is forced and block is non 0 length
    B.padLastBlock newSize forceWrite

def lastNonEmptyBlock (fileSize : ℕ) : ℤ :=
  if fileSize % B.blockSize = 0 then (fileSize / B.blockSize : ℕ) - 1
  else (fileSize / B.blockSize : ℕ)

def fillGap (fileSize offset : ℕ) : Action (Cached σ) PUnit :=
  if fileSize < offset then B.padFile fileSize offset false else pure ⟨⟩

def blockToWrite (fileSize : ℕ) (lastNonEmptyBlock : ℤ) (blockNum partialOffset : ℕ)
    (chunk : Bytes) : Action (Cached σ) Bytes :=
  let offset := blockNum * B.blockSize
  if chunk.length = B.blockSize ∨ (partialOffset = 0 ∧ fileSize ≤ offset + chunk.length) then
    pure chunk
  else if lastNonEmptyBlock < blockNum then
    -- just pad
    pure (splice 0 [] partialOffset chunk)
  else do
    -- the buffer was cleared, so what lies between the stored data and the chunk is zero
    let block ← B.cacheReadOneBlock offset B.blockSize
    pure (splice 0 (block.getD []) partialOffset chunk)

def writeLoop (fileSize : ℕ) (lastNonEmptyBlock : ℤ) :
    (fuel blockNum partialOffset : ℕ) → (inPtr : Bytes) → Action (Cached σ) Bool
  | 0, _, _, _ => pure true
  | fuel + 1, blockNum, partialOffset, inPtr =>
    if inPtr = [] then
      pure true
    else do
      let toCopy := min (B.blockSize - partialOffset) inPtr.length
      let data ← B.blockToWrite fileSize lastNonEmptyBlock blockNum partialOffset
        (inPtr.take toCopy)
      match ← B.cacheWriteOneBlock (blockNum * B.blockSize) data with
      | false => pure false
      | true => writeLoop fileSize lastNonEmptyBlock fuel (blockNum + 1) 0 (inPtr.drop toCopy)

/-- `cacheReadOneBlock` for a negative length, which `memcpy` takes for a huge one. -/
def cacheReadNegative (offset : ℕ) : Action (Cached σ) PUnit := do
  let o ← get
  if offset = o.cache.offset ∧ o.cache.data ≠ [] then
    throw .undefined
  else
    clearCache
    match ← lift (B.readOneBlock offset B.blockSize) with
    | none => pure ⟨⟩
    | some result =>
      if result = [] then
        pure ⟨⟩
      else
        setCache ⟨offset, result⟩
        throw .undefined

def padZero (size : ℕ) : Action (Cached σ) PUnit := do
  B.cacheReadNegative 0
  let _ ← B.cacheWriteOneBlock 0 (List.replicate size 0)
  pure ⟨⟩

def padMiddleBlocksBelow (newSize : ℕ) : Action (Cached σ) PUnit :=
  if B.allowHoles then pure ⟨⟩ else B.padBlocks (newSize / B.blockSize - 1) 1

/-- `padFile` from a size below zero: the quotient by the block size is rounded to zero and the
remainder is negative. Where the quotient is negative too, it is taken for undefined. -/
def padFileBelow (oldSize : ℤ) (newSize : ℕ) (forceWrite : Bool) : Action (Cached σ) PUnit :=
  if oldSize ≤ -B.blockSize then
    throw .undefined
  else if newSize / B.blockSize = 0 then
    if forceWrite ∧ newSize % B.blockSize ≠ 0 then
      B.padZero (newSize % B.blockSize)
    else
      pure ⟨⟩
  else do
    B.padZero B.blockSize
    B.padMiddleBlocksBelow newSize
    B.padLastBlock newSize forceWrite

def writeSized (fileSize offset : ℕ) (data : Bytes) : Action (Cached σ) Bool := do
  let bs := B.blockSize
  let blockNum := offset / bs
  let partialOffset := offset % bs
  let lastFileBlock := fileSize / bs
  let lastBlockSize := fileSize % bs
  B.fillGap fileSize offset
  if partialOffset = 0 ∧ data.length ≤ bs ∧
      (data.length = bs ∨ (blockNum = lastFileBlock ∧ lastBlockSize ≤ data.length)) then
    B.cacheWriteOneBlock offset data
  else
    B.writeLoop fileSize (B.lastNonEmptyBlock fileSize) data.length blockNum partialOffset data

def writeBelow (fileSize : ℤ) (offset : ℕ) (data : Bytes) : Action (Cached σ) Bool := do
  let bs := B.blockSize
  B.padFileBelow fileSize offset false
  if offset % bs = 0 ∧ data.length ≤ bs ∧ (data.length = bs ∨ offset / bs = 0) then
    B.cacheWriteOneBlock offset data
  else
    B.writeLoop 0 0 data.length (offset / bs) (offset % bs) data

def write (offset : ℕ) (data : Bytes) : Action (Cached σ) Bool := do
  let fileSize ← lift B.getSize
  if 0 ≤ fileSize then
    B.writeSized fileSize.toNat offset data
  else
    B.writeBelow fileSize offset data

def baseTruncate (base : Option (ℕ → Action σ ℤ)) (size : ℕ) : Action (Cached σ) ℤ :=
  match base with
  | some truncate => lift (truncate size)
  | none => pure 0

def truncateSized (oldSize size : ℕ) (base : Option (ℕ → Action σ ℤ)) :
    Action (Cached σ) ℤ := do
  let bs := B.blockSize
  let partialBlock := size % bs
  if oldSize < size then
    -- let the layer below allocate the space, then fill it in
    let _ ← baseTruncate base size
    B.padFile oldSize size true
    pure 0
  else if size = oldSize then
    pure 0
  else if partialBlock ≠ 0 then
    -- the encoding of the partial block changes, so it is read before and written back after
    let block ← B.cacheReadOneBlock (size / bs * bs) bs
    let res ← baseTruncate base size
    let _ ← B.cacheWriteOneBlock (size / bs * bs) (padded block partialBlock)
    pure res
  else
    baseTruncate base size

def truncate (size : ℕ) (base : Option (ℕ → Action σ ℤ)) : Action (Cached σ) ℤ := do
  let oldSize ← lift B.getSize
  if 0 ≤ oldSize then
    B.truncateSized oldSize.toNat size base
  else do
    let _ ← baseTruncate base size
    B.padFileBelow oldSize size true
    pure 0

section Sizes

variable {B} {s s' : σ} {n : ℕ} (h : B.getSize s = .ok n s')
include h

lemma write_of_size (k : Cache) (offset : ℕ) (data : Bytes) :
    B.write offset data ⟨k, s⟩ = B.writeSized n offset data ⟨k, s'⟩ := by
  rw [write, Action.bind_ok (Cached.lift_ok h), if_pos (Int.natCast_nonneg n), Int.toNat_natCast]

lemma truncate_of_size (k : Cache) (size : ℕ) (base : Option (ℕ → Action σ ℤ)) :
    B.truncate size base ⟨k, s⟩ = B.truncateSized n size base ⟨k, s'⟩ := by
  rw [truncate, Action.bind_ok (Cached.lift_ok h), if_pos (Int.natCast_nonneg n),
    Int.toNat_natCast]

lemma write_yields_of_size {k : Cache} {offset : ℕ} {data : Bytes} {Q : Bool → Cached σ → Prop}
    {E : RlogError → Cached σ → Prop} (hw : Yields (B.writeSized n offset data) ⟨k, s'⟩ Q E) :
    Yields (B.write offset data) ⟨k, s⟩ Q E := by
  rwa [Yields, write_of_size h]

lemma truncate_yields_of_size {k : Cache} {size : ℕ} {base : Option (ℕ → Action σ ℤ)}
    {Q : ℤ → Cached σ → Prop} {E : RlogError → Cached σ → Prop}
    (ht : Yields (B.truncateSized n size base) ⟨k, s'⟩ Q E) :
    Yields (B.truncate size base) ⟨k, s⟩ Q E := by
  rwa [Yields, truncate_of_size h]

end Sizes

def accessors : Accessors (Cached σ) where
  getSize := lift B.getSize
  read := B.read
  write := B.write

end BlockFileIO

end EncFS
