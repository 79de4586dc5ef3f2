import TuyaSdk.TuyaMemHeap.Fit
import TuyaSdk.Lib.Regions

/-!
# Several heaps

The table `mem_heap_list` under calls that create and delete heaps as well as allocate and
release. `HeapsInv` says what holds of the table as long as a heap is deleted only when it
is the last one and nothing in it is free: the heaps fill the leading slots, each is in
order (`Tracks`), their regions lie apart, and `s_heap_free_size` is the sum of their free
bytes.
-/

namespace TuyaSdk.TuyaMemHeap
open TuyaSdk.Lib

/-- `MEM_HeapDelete` on slot `i`: the slot is cleared. -/
def memHeapDelete (s : HeapState) (i : Fin memHeapListNum) : HeapState :=
  { s with memHeapList := Function.update s.memHeapList i ⟨0, 0, 0, 0, 0⟩ }

/-- `tuya_mem_heap_delete`. -/
def tuyaMemHeapDelete (s : HeapState) (handle : HeapHandle) : HeapState :=
  match handle with
  | some i => memHeapDelete s i
  | none => s

/-- An `unsigned long` returned as an `int`. -/
def toInt32 (n : Nat) : Int := (BitVec.ofNat 32 n).toInt

/-- `tuya_mem_heap_available`. -/
def tuyaMemHeapAvailable (s : HeapState) (handle : HeapHandle) : Int :=
  match handle with
  | some i => toInt32 (s.memHeapList i).free
  | none => toInt32 s.heapFreeSize

/-- `heap_state_t`. -/
structure HeapStat where
  totalSize : Nat
  freeSize : Nat
  freeWatermark : Nat
  maxFreeBlockSize : Nat
  deriving DecidableEq, Repr

/-- The handle-0 loop of `tuya_mem_heap_state`, on `state->total_size`. -/
def addSizes (s : HeapState) : Nat → List (Fin memHeapListNum) → Nat
  | total, [] => total
  | total, i :: rest =>
    if (s.memHeapList i).size > 0 then addSizes s (u32 (total + (s.memHeapList i).size)) rest
    else total

/-- `tuya_mem_heap_state`. Without a handle the sizes are added to whatever `total_size`
holds. -/
def tuyaMemHeapState (s : HeapState) (handle : HeapHandle) (state : HeapStat) : HeapStat :=
  match handle with
  | some i =>
    { state with
      totalSize := (s.memHeapList i).size
      freeSize := (s.memHeapList i).free
      freeWatermark := (s.memHeapList i).freeWatermark }
  | none =>
    { state with
      totalSize := addSizes s state.totalSize (List.finRange memHeapListNum)
      freeSize := s.heapFreeSize
      freeWatermark := s.heapFreeSizeWatermark }

/-! ## The machine -/

/-- What callers do with the heaps. -/
inductive HeapCall
  | create (startAddr : Nat) (size : BitVec 32)
  | delete (i : Fin memHeapListNum)
  | malloc (handle : HeapHandle) (size : BitVec 32)
  | free (handle : HeapHandle) (ptr : Nat)
  | write (addr : Nat) (byte : Byte)
  deriving DecidableEq, Repr

/-- The heaps, and the live pointers into each with the number of bytes asked for. -/
structure Clients where
  heap : HeapState
  live : Fin memHeapListNum → List (Nat × Nat)

/-- What a call returns. -/
inductive HeapReply
  | handle (h : HeapHandle)
  | ptr (p : Nat)
  | done
  deriving DecidableEq, Repr

/-- The address lies in the region of the heap. -/
def InRegion (heap : MemHeap) (addr : Nat) : Prop := heap.base ≤ addr ∧ addr < heap.base + heap.size

instance (heap : MemHeap) (addr : Nat) : Decidable (InRegion heap addr) :=
  inferInstanceAs (Decidable (_ ∧ _))

/-- The live pointers after `p` has been returned for `n` bytes. -/
def addPtr (s : HeapState) (live : Fin memHeapListNum → List (Nat × Nat)) (p n : Nat) :
    Fin memHeapListNum → List (Nat × Nat) :=
  fun i => if p ≠ 0 ∧ InRegion (s.memHeapList i) p then (p, n) :: live i else live i

/-- One call on the heaps. -/
def heapsStep : Machine Clients HeapCall HeapReply
  | c, .create startAddr size =>
    let (s, h) := tuyaMemHeapCreate c.heap startAddr size.toNat
    some (⟨s, c.live⟩, .handle h)
  | c, .delete i =>
    some (⟨tuyaMemHeapDelete c.heap (some i), Function.update c.live i []⟩, .done)
  | c, .malloc handle size =>
    (tuyaMemHeapMalloc c.heap handle size.toNat).map fun (s, p) =>
      (⟨s, addPtr s c.live p size.toNat⟩, .ptr p)
  | c, .free handle ptr =>
    (tuyaMemHeapFree c.heap handle ptr).map fun s =>
      (⟨s, fun i => dropPtr ptr (c.live i)⟩, .done)
  | c, .write addr byte =>
    some (⟨{ c.heap with mem := write8 c.heap.mem addr byte }, c.live⟩, .done)

/-- The heap in slot `i` exists. -/
def LiveHeap (s : HeapState) (i : Fin memHeapListNum) : Prop := 0 < (s.memHeapList i).size

instance (s : HeapState) (i : Fin memHeapListNum) : Decidable (LiveHeap s i) :=
  inferInstanceAs (Decidable (0 < _))

/-- The calls that callers may make: a heap is created on memory of the caller's own, with
an address past its end; deleted heaps, handles and released pointers are live; and bytes
are stored in live allocations and outside the heaps only. -/
def PermittedCall (c : Clients) : HeapCall → Prop
  | .create startAddr size => startAddr + size.toNat < 2 ^ 32 ∧
      ∀ i, LiveHeap c.heap i →
        Apart startAddr size.toNat (c.heap.memHeapList i).base (c.heap.memHeapList i).size
  | .delete i => LiveHeap c.heap i
  | .malloc handle _ => ∀ i ∈ handle, LiveHeap c.heap i
  | .free none ptr => ptr = 0 ∨ ∃ i, ∃ e ∈ c.live i, e.1 = ptr
  | .free (some i) ptr => LiveHeap c.heap i ∧ (ptr = 0 ∨ ∃ e ∈ c.live i, e.1 = ptr)
  | .write addr _ => (∃ i, ∃ e ∈ c.live i, e.1 ≤ addr ∧ addr < e.1 + e.2) ∨
      ∀ i, LiveHeap c.heap i → ¬InRegion (c.heap.memHeapList i) addr

instance (c : Clients) (k : HeapCall) : Decidable (PermittedCall c k) := by
  rcases k with _ | _ | ⟨_ | _, _⟩ | ⟨_ | _, _⟩ | _ <;> unfold PermittedCall <;> infer_instance

/-- The heap in slot `i` has no free bytes, and no heap is in a later slot. -/
def Deletable (s : HeapState) (i : Fin memHeapListNum) : Prop :=
  (s.memHeapList i).free = 0 ∧ ∀ j, i < j → ¬LiveHeap s j

instance (s : HeapState) (i : Fin memHeapListNum) : Decidable (Deletable s i) :=
  inferInstanceAs (Decidable (_ ∧ _))

/-- Permitted calls that delete only the last heap when nothing in it is free, and create no
heap on a region shorter than its alignment padding. -/
def Orderly (c : Clients) (k : HeapCall) : Prop :=
  PermittedCall c k ∧
    match k with
    | .create startAddr size => size = 0 ∨ sub32 (alignUp startAddr) startAddr ≤ size.toNat
    | .delete i => Deletable c.heap i
    | _ => True

instance (c : Clients) (k : HeapCall) : Decidable (Orderly c k) := by
  unfold Orderly
  cases k <;> infer_instance

/-! ## The invariant -/

/-- The sum of `f` over the heaps that exist. -/
def sumLive (s : HeapState) (f : MemHeap → Nat) : Nat :=
  ∑ i, if LiveHeap s i then f (s.memHeapList i) else 0

/-- The state of the heap table in a run of orderly calls. -/
structure HeapsInv (c : Clients) : Prop where
  tracks : ∀ i, LiveHeap c.heap i → ∃ bs, Tracks c.heap i (c.live i) bs
  dead : ∀ i, ¬LiveHeap c.heap i → c.live i = []
  apart : ∀ i j, i ≠ j → LiveHeap c.heap i → LiveHeap c.heap j →
    Apart (c.heap.memHeapList i).base (c.heap.memHeapList i).size
      (c.heap.memHeapList j).base (c.heap.memHeapList j).size
  top : ∀ i, LiveHeap c.heap i → (c.heap.memHeapList i).base + (c.heap.memHeapList i).size < 2 ^ 32
  leading : ∀ i j, i ≤ j → LiveHeap c.heap j → LiveHeap c.heap i
  total : c.heap.heapFreeSize = sumLive c.heap MemHeap.free

end TuyaSdk.TuyaMemHeap
