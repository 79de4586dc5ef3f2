import TuyaSdk.Lib.Bytes
import TuyaSdk.Lib.Loop

/-!
# The memory heap

`tuya_mem_heap.c` on a 32-bit target. A block starts with its size word; a free block
carries the link to the next free block in the word after it, and the last byte of every
block (the "dog") says whether the block is in use. All three lie in the managed memory
itself, so the model is a byte memory plus the table `mem_heap_list` and the two global
counters. Pointers are 32-bit addresses with `0` for `NULL`.

Walks of the free list are bounded by the region's size, which no list of blocks that lie
in the region can exceed: `none` is a walk of a corrupted list that goes round forever.
-/

namespace TuyaSdk.TuyaMemHeap
open TuyaSdk.Lib

abbrev memBlockMinSize : Nat := 24
abbrev memAlignNum : Nat := 4
abbrev fitFindDepth : Nat := 3
/-- `sizeof(MEM_HeapBlock_t) - sizeof(unsigned long)`. -/
abbrev memBlockHeadSize : Nat := 4
abbrev memHeapMinSize : Nat := memBlockMinSize + memBlockHeadSize
abbrev memHeapListNum : Nat := 4
abbrev memBlockStatUse : Byte := 0x55
abbrev memBlockStatFree : Byte := 0xaa

/-- `ALIGN_UP`: clearing the two low bits is rounding down to a multiple of 4. -/
def alignUp (x : Nat) : Nat := u32 (x + (memAlignNum - 1)) / memAlignNum * memAlignNum

/-- `ALIGN_DOWN`. -/
def alignDown (x : Nat) : Nat := x / memAlignNum * memAlignNum

/-- `MEM_Heap_t`. -/
structure MemHeap where
  freeList : Nat
  base : Nat
  size : Nat
  free : Nat
  freeWatermark : Nat
  deriving DecidableEq, Repr

/-- A heap handle: `NULL`, or the address of a slot of `mem_heap_list`. -/
abbrev HeapHandle := Option (Fin memHeapListNum)

/-- The memory and the static variables of `tuya_mem_heap.c`. -/
structure HeapState where
  mem : Mem
  memHeapList : Fin memHeapListNum → MemHeap
  heapFreeSize : Nat
  heapFreeSizeWatermark : Nat

/-! ## Block fields -/

/-- `block->size`. -/
def blockSize (m : Mem) (block : Nat) : Nat := read32 m block

/-- `block->next`. -/
def blockNext (m : Mem) (block : Nat) : Nat := read32 m (block + 4)

def setBlockSize (m : Mem) (block size : Nat) : Mem := write32 m block size

def setBlockNext (m : Mem) (block next : Nat) : Mem := write32 m (block + 4) next

/-- `MEM_DOG_ADDR(block)`. -/
def memDogAddr (m : Mem) (block : Nat) : Nat := sub32 (u32 (block + blockSize m block)) 1

/-! ## Taking a block off the free list -/

/-- One pass of the search for the first block that fits, with `pre_block` and
`this_block`. -/
def chunkFirstPass (m : Mem) (size : Nat) : Nat × Nat → Pass (Nat × Nat) (Option (Nat × Nat))
  | (pre, this) =>
    if this = 0 then .exit none
    else if size ≤ blockSize m this then .exit (some (pre, this))
    else .again (this, blockNext m this)

/-- The variables of the look-ahead for a tighter fit. -/
structure LookAhead where
  pre : Nat
  this : Nat
  preBak : Nat
  thisBak : Nat
  findNum : Nat

/-- One pass of the look-ahead: a later block that fits and is not larger replaces the
block found, at most `fitFindDepth` times. -/
def lookAheadPass (m : Mem) (size : Nat) (v : LookAhead) : Pass LookAhead (Nat × Nat) :=
  if v.thisBak = 0 then .exit (v.pre, v.this)
  else
    let v' : LookAhead :=
      if size ≤ blockSize m v.thisBak ∧ blockSize m v.thisBak ≤ blockSize m v.this then
        { v with this := v.thisBak, pre := v.preBak, findNum := v.findNum + 1 }
      else v
    if fitFindDepth ≤ v'.findNum then .exit (v'.pre, v'.this)
    else .again { v' with preBak := v.thisBak, thisBak := blockNext m v.thisBak }

/-- The block `mem_chunk_get` settles on, with its predecessor in the free list. -/
def chunkSelect (m : Mem) (heap : MemHeap) (size : Nat) : Option (Option (Nat × Nat)) :=
  match Loop.run (chunkFirstPass m size) heap.size (0, heap.freeList) with
  | none => none
  | some none => some none
  | some (some (pre, this)) =>
    (Loop.run (lookAheadPass m size) heap.size ⟨pre, this, this, blockNext m this, 0⟩).map some

/-- Cutting the request off the end of `this_block`. -/
def chunkSplit (m : Mem) (this size : Nat) : Mem × Nat :=
  let m := setBlockSize m this (sub32 (blockSize m this) size)
  let m := write8 m (memDogAddr m this) memBlockStatFree
  let new := u32 (this + blockSize m this)
  let m := setBlockSize m new size
  let m := write8 m (memDogAddr m new) memBlockStatUse
  (m, new)

/-- Taking the whole of `this_block` out of the free list. -/
def chunkTakeOver (m : Mem) (heap : MemHeap) (pre this : Nat) : Mem × MemHeap :=
  let (m, heap) :=
    if pre ≠ 0 then (setBlockNext m pre (blockNext m this), heap)
    else (m, { heap with freeList := blockNext m this })
  (write8 m (memDogAddr m this) memBlockStatUse, heap)

/-- `mem_chunk_get`; the block returned is `0` when nothing fits. -/
def memChunkGet (m : Mem) (heap : MemHeap) (size : Nat) : Option (Mem × MemHeap × Nat) :=
  match chunkSelect m heap size with
  | none => none
  | some none => some (m, heap, 0)
  | some (some (pre, this)) =>
    if memHeapMinSize ≤ sub32 (blockSize m this) size then
      let (m, new) := chunkSplit m this size
      some (m, heap, new)
    else
      let (m, heap) := chunkTakeOver m heap pre this
      some (m, heap, this)

/-! ## Allocation -/

/-- The block size that a request of `size` bytes is rounded to. -/
def roundedSize (size : Nat) : Nat := u32 (alignUp (u32 (size + 1)) + memBlockHeadSize)

/-- The accounting of a block of `n` bytes taken from heap `i`. -/
def chargeBlock (s : HeapState) (i : Fin memHeapListNum) (heap : MemHeap) (n : Nat) : HeapState :=
  let free := sub32 heap.free n
  let total := sub32 s.heapFreeSize n
  { s with
    memHeapList := Function.update s.memHeapList i
      { heap with
        free := free
        freeWatermark := if heap.freeWatermark > free then free else heap.freeWatermark }
    heapFreeSize := total
    heapFreeSizeWatermark :=
      if s.heapFreeSizeWatermark > total then total else s.heapFreeSizeWatermark }

/-- `MEM_Allocate` on slot `i`. -/
def memAllocate (s : HeapState) (i : Fin memHeapListNum) (size : Nat) : Option (HeapState × Nat) :=
  if size = 0 then some (s, 0)
  else
    let size := if size < 4 then 4 else size
    let newSize := roundedSize size
    if newSize < size then some (s, 0)
    else
      match memChunkGet s.mem (s.memHeapList i) newSize with
      | none => none
      | some (m, heap, block) =>
        if block = 0 then some (s, 0)
        else
          some (chargeBlock { s with mem := m } i heap (blockSize m block),
            u32 (block + memBlockHeadSize))

/-! ## Release -/

/-- One pass of the search for the free blocks on either side of `free_block`, with
`pre_block` and `next_block`. -/
def neighboursPass (m : Mem) (block : Nat) : Nat × Nat → Pass (Nat × Nat) (Nat × Nat)
  | (pre, next) =>
    if next ≠ 0 ∧ next < block then .again (next, blockNext m next)
    else .exit (pre, next)

/-- Linking `free_block` behind `pre_block`, or merging it into `pre_block` when they are
adjacent. Returns the block that now starts the merged area. -/
def linkBlock (m : Mem) (heap : MemHeap) (pre block next : Nat) : Mem × MemHeap × Nat :=
  let m := setBlockNext m block next
  if pre = 0 then (m, { heap with freeList := block }, block)
  else if u32 (pre + blockSize m pre) = block then
    (setBlockSize m pre (u32 (blockSize m pre + blockSize m block)), heap, pre)
  else (setBlockNext m pre block, heap, block)

/-- Merging `next_block` into `pre_block` when they are adjacent. -/
def mergeNext (m : Mem) (pre next : Nat) : Mem :=
  if next ≠ 0 ∧ u32 (pre + blockSize m pre) = next then
    let m := setBlockSize m pre (u32 (blockSize m pre + blockSize m next))
    setBlockNext m pre (blockNext m next)
  else m

/-- `MEM_Deallocate` on slot `i`. -/
def memDeallocate (s : HeapState) (i : Fin memHeapListNum) (ptr : Nat) : Option HeapState :=
  if ptr = 0 then some s
  else
    let block := sub32 ptr memBlockHeadSize
    let dog := memDogAddr s.mem block
    if s.mem dog ≠ memBlockStatUse then some s
    else
      let m := write8 s.mem dog memBlockStatFree
      let heap := s.memHeapList i
      let heap := { heap with free := u32 (heap.free + blockSize m block) }
      match Loop.run (neighboursPass m block) heap.size (0, heap.freeList) with
      | none => none
      | some (pre, next) =>
        let (m', heap', pre') := linkBlock m heap pre block next
        some { s with
          mem := mergeNext m' pre' next
          memHeapList := Function.update s.memHeapList i heap'
          heapFreeSize := u32 (s.heapFreeSize + blockSize m block) }

/-! ## Creation -/

/-- `mem_heap_init`: `none` is the `-1` return. -/
def memHeapInit (s : HeapState) (i : Fin memHeapListNum) (ptr size : Nat) : Option HeapState :=
  let first := alignUp ptr
  let usable := alignDown (sub32 size (sub32 first ptr))
  if usable < memHeapMinSize then none
  else
    let m := setBlockNext s.mem first 0
    let m := setBlockSize m first usable
    let total := u32 (s.heapFreeSize + usable)
    some {
      mem := write8 m (memDogAddr m first) memBlockStatFree
      memHeapList := Function.update s.memHeapList i
        { freeList := first, base := ptr, size := size, free := usable, freeWatermark := usable }
      heapFreeSize := total
      heapFreeSizeWatermark := total }

/-- `tuya_mem_heap_create` through `MEM_HeapCreate`: the state, and the slot taken when the
call returns `0`. A region that is too small leaves its start in `heap->base` of an empty
slot. -/
def tuyaMemHeapCreate (s : HeapState) (startAddr size : Nat) : HeapState × HeapHandle :=
  if startAddr = 0 ∨ size = 0 then (s, none)
  else
    match (List.finRange memHeapListNum).find? fun i => (s.memHeapList i).size = 0 with
    | none => (s, none)
    | some i =>
      match memHeapInit s i startAddr size with
      | some s' => (s', some i)
      | none =>
        ({ s with
            memHeapList := Function.update s.memHeapList i
              { s.memHeapList i with base := startAddr, size := 0 } }, none)

/-! ## The entry points -/

/-- The handle-0 loop of `tuya_mem_heap_malloc` over the slots from `idx` on. -/
def mallocAny (s : HeapState) (size : Nat) : List (Fin memHeapListNum) → Option (HeapState × Nat)
  | [] => some (s, 0)
  | i :: rest =>
    if (s.memHeapList i).size > 0 then
      if (s.memHeapList i).free > u32 (size + memBlockMinSize) then
        match memAllocate s i size with
        | none => none
        | some (s', ptr) => if ptr ≠ 0 then some (s', ptr) else mallocAny s' size rest
      else mallocAny s size rest
    else some (s, 0)

/-- `tuya_mem_heap_malloc`. -/
def tuyaMemHeapMalloc (s : HeapState) (handle : HeapHandle) (size : Nat) :
    Option (HeapState × Nat) :=
  match handle with
  | some i => memAllocate s i size
  | none => mallocAny s size (List.finRange memHeapListNum)

/-- The handle-0 loop of `tuya_mem_heap_free`. -/
def freeAny (s : HeapState) (ptr : Nat) : List (Fin memHeapListNum) → Option HeapState
  | [] => some s
  | i :: rest =>
    let heap := s.memHeapList i
    if heap.size > 0 then
      if ptr > heap.base ∧ ptr < u32 (heap.base + heap.size) then memDeallocate s i ptr
      else freeAny s ptr rest
    else some s

/-- `tuya_mem_heap_free`. -/
def tuyaMemHeapFree (s : HeapState) (handle : HeapHandle) (ptr : Nat) : Option HeapState :=
  match handle with
  | some i => memDeallocate s i ptr
  | none => freeAny s ptr (List.finRange memHeapListNum)

/-- `tuya_mem_heap_realloc`. -/
def tuyaMemHeapRealloc (s : HeapState) (handle : HeapHandle) (ptr size : Nat) :
    Option (HeapState × Nat) :=
  if ptr = 0 then tuyaMemHeapMalloc s handle size
  else
    let oldBlock := sub32 ptr memBlockHeadSize
    if s.mem (memDogAddr s.mem oldBlock) ≠ memBlockStatUse then some (s, 0)
    else
      let size := if size < 4 then 4 else size
      let newSize := roundedSize size
      -- no check of `newSize` against `size` here, as `MEM_Allocate` makes
      if newSize ≤ blockSize s.mem oldBlock then some (s, ptr)
      else
        match tuyaMemHeapMalloc s handle size with
        | none => none
        | some (s₁, tmp) =>
          if tmp = 0 then some (s₁, 0)
          else
            let n := sub32 (blockSize s₁.mem oldBlock) memBlockHeadSize
            (tuyaMemHeapFree { s₁ with mem := memcpy s₁.mem tmp ptr n } handle ptr).map
              fun s₂ => (s₂, tmp)

end TuyaSdk.TuyaMemHeap
