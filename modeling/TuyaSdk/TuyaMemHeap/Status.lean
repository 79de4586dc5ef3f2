import TuyaSdk.TuyaMemHeap.Runs

/-!
# The heap's own diagnosis

`MEM_HeapStatus` walks the blocks of a region in address order beside the free list and
reports a heap that does not add up. It holds the critical section except while it prints a
block that was allocated with a leak record; what other tasks call on the heap meanwhile is
a parameter of the walk, one list of calls for each time the section is released.
-/

namespace TuyaSdk.TuyaMemHeap
open TuyaSdk.Lib

abbrev memDbgLeakMagic : Nat := 0x13572468
/-- `sizeof(MEM_DbgLeak_t)`. -/
abbrev memDbgLeakSize : Nat := 16

/-- `MEM_HeapStatus_t`. -/
structure HeapStatus where
  size : Nat
  free : Nat
  freeLargest : Nat
  valid : Nat
  usedBlock : Nat
  freeBlock : Nat
  deriving DecidableEq, Repr

/-- What goes to `dbg_output`, with the address of the block it is about. -/
inductive DbgOutput
  | memUse (block : Nat)
  | thisIsFreeBlock (block : Nat)
  | thisIsNotFreeBlock (block : Nat)
  | dogTagErr (block : Nat)
  | memMngDamaged
  | heapStatus (status : HeapStatus)
  deriving DecidableEq, Repr

/-- `MEM_LEAK_DBG_ADDR(block)->magic`: the last word of the record. -/
def leakMagic (m : Mem) (block : Nat) : Nat :=
  read32 m (u32 (sub32 (sub32 (u32 (block + blockSize m block)) memDbgLeakSize) memAlignNum + 12))

/-- The variables of the walk; `windows` counts how often the critical section has been
released. -/
structure HeapWalk where
  client : Client
  addr : Nat
  freeBlockp : Nat
  status : HeapStatus
  outputs : List DbgOutput
  windows : Nat

/-- A block with a leak record is about to be printed. -/
def OpensWindow (topAddr : Nat) (v : HeapWalk) : Prop :=
  v.addr < topAddr ∧
    v.client.heap.mem (memDogAddr v.client.heap.mem v.addr) = memBlockStatUse ∧
    v.addr ≠ v.freeBlockp ∧ leakMagic v.client.heap.mem v.addr = memDbgLeakMagic

instance (topAddr : Nat) (v : HeapWalk) : Decidable (OpensWindow topAddr v) :=
  inferInstanceAs (Decidable (_ ∧ _ ∧ _ ∧ _))

/-- The status after a block in use. -/
def countUsed (st : HeapStatus) : HeapStatus := { st with usedBlock := u32 (st.usedBlock + 1) }

/-- The status after a free block of `size` bytes. -/
def countFree (st : HeapStatus) (size : Nat) : HeapStatus :=
  let thisSize := sub32 (sub32 size memBlockHeadSize) 1
  { st with
    free := u32 (st.free + thisSize)
    freeLargest := if thisSize > st.freeLargest then thisSize else st.freeLargest
    freeBlock := u32 (st.freeBlock + 1) }

/-- The walk goes on behind the block at `addr`, as far as its size word says. -/
def HeapWalk.advance (v : HeapWalk) : HeapWalk :=
  { v with addr := u32 (v.addr + blockSize v.client.heap.mem v.addr) }

/-- One pass of the walk. The result comes with the value of `result`, and is `none` when a
call of another task does not return. -/
def statusPass (i : Fin memHeapListNum) (others : Nat → List Call) (topAddr : Nat) (v : HeapWalk) :
    Pass HeapWalk (Option (HeapWalk × Nat)) :=
  if v.addr < topAddr then
    let m := v.client.heap.mem
    if m (memDogAddr m v.addr) = memBlockStatUse then
      if v.addr = v.freeBlockp then
        .exit (some ({ v with outputs := v.outputs ++ [.thisIsFreeBlock v.addr] }, 1))
      else if leakMagic m v.addr = memDbgLeakMagic then
        -- exit_critical, dbg_output, enter_critical
        match Machine.run (step i) v.client (others v.windows) with
        | none => .exit none
        | some (client, _) =>
          .again (HeapWalk.advance { v with
            client := client
            status := countUsed v.status
            outputs := v.outputs ++ [.memUse v.addr]
            windows := v.windows + 1 })
      else .again (HeapWalk.advance { v with status := countUsed v.status })
    else if m (memDogAddr m v.addr) = memBlockStatFree then
      if v.addr ≠ v.freeBlockp then
        .exit (some ({ v with outputs := v.outputs ++ [.thisIsNotFreeBlock v.addr] }, 2))
      else
        .again (HeapWalk.advance { v with
          freeBlockp := blockNext m v.freeBlockp
          status := countFree v.status (blockSize m v.addr) })
    else .exit (some ({ v with outputs := v.outputs ++ [.dogTagErr v.addr] }, 3))
  else
    let valid := if v.addr = topAddr ∧ v.freeBlockp = 0 then 1 else 0
    .exit (some ({ v with status := { v.status with valid := valid } }, 0))

/-- `top_addr`, with the sum in 32 bits. -/
def topAddr (heap : MemHeap) : Nat := alignDown (u32 (heap.base + heap.size))

/-- The variables at the start of the walk. -/
def startWalk (i : Fin memHeapListNum) (c : Client) : HeapWalk where
  client := c
  addr := alignUp (c.heap.memHeapList i).base
  freeBlockp := (c.heap.memHeapList i).freeList
  status := ⟨(c.heap.memHeapList i).size, 0, 0, 0, 0, 0⟩
  outputs := []
  windows := 0

/-- `MEM_HeapStatus` on slot `i`, while other tasks make the calls `others k` the `k`-th time
the critical section is released. -/
def memHeapStatus (i : Fin memHeapListNum) (others : Nat → List Call) (c : Client) :
    Option (Client × HeapStatus × List DbgOutput) :=
  match Loop.run (statusPass i others (topAddr (c.heap.memHeapList i)))
      ((c.heap.memHeapList i).size + 1) (startWalk i c) with
  | some (some (v, _)) => some (v.client, v.status, v.outputs)
  | _ => none

/-- `tuya_mem_heap_diagnose` with the handle of slot `i`: the texts it puts out. -/
def tuyaMemHeapDiagnose (i : Fin memHeapListNum) (others : Nat → List Call) (c : Client) :
    Option (Client × List DbgOutput) :=
  (memHeapStatus i others c).map fun (c', status, outputs) =>
    (c', outputs ++ (if status.valid = 0 then [.memMngDamaged] else []) ++ [.heapStatus status])

/-! ## What other tasks may do meanwhile -/

/-- From the block at `a` the size words lead to `e`. -/
def IsBoundary (m : Mem) (e : Nat) : Nat → Nat → Prop
  | 0, _ => False
  | n + 1, a => a = e ∨ a < e ∧ IsBoundary m e n (a + blockSize m a)

instance decidableIsBoundary (m : Mem) (e : Nat) : ∀ n a, Decidable (IsBoundary m e n a)
  | 0, _ => inferInstanceAs (Decidable False)
  | n + 1, a =>
    have := decidableIsBoundary m e n (a + blockSize m a)
    inferInstanceAs (Decidable (_ ∨ _ ∧ _))

/-- The first block of the free list from `p` on that is not below `e`, or NULL. -/
def freeFrom (m : Mem) (e : Nat) : Nat → Nat → Nat
  | 0, _ => 0
  | n + 1, p => if p = 0 ∨ e ≤ p then p else freeFrom m e n (blockNext m p)

/-- Between the states `s` and `s'` of slot `i` the walk can stand at the block `addr`: its
size word leads on to a block boundary, and the first free block above it is the same. -/
def Resumable (i : Fin memHeapListNum) (s s' : HeapState) (addr : Nat) : Prop :=
  0 < blockSize s'.mem addr ∧ addr + blockSize s'.mem addr ≤ regionHi (s'.memHeapList i) ∧
    IsBoundary s'.mem (addr + blockSize s'.mem addr) (s'.memHeapList i).size
      (regionLo (s'.memHeapList i)) ∧
    freeFrom s'.mem (addr + blockSize s'.mem addr) (s'.memHeapList i).size
        (s'.memHeapList i).freeList =
      freeFrom s.mem (addr + blockSize s.mem addr) (s.memHeapList i).size
        (s.memHeapList i).freeList

instance (i : Fin memHeapListNum) (s s' : HeapState) (addr : Nat) :
    Decidable (Resumable i s s' addr) :=
  inferInstanceAs (Decidable (_ ∧ _ ∧ _ ∧ _))

/-- The other tasks' calls in the window at `v` are careful and leave the walk resumable. -/
def WindowOk (i : Fin memHeapListNum) (others : Nat → List Call) (v : HeapWalk) : Prop :=
  Machine.Legal (step i) Careful v.client (others v.windows) ∧
    ∀ r ∈ Machine.run (step i) v.client (others v.windows),
      Resumable i v.client.heap r.1.heap v.addr

instance (i : Fin memHeapListNum) (others : Nat → List Call) (v : HeapWalk) :
    Decidable (WindowOk i others v) := by
  unfold WindowOk
  infer_instance

/-- That is so in every window that the walk from `v` opens. -/
def WindowsOk (i : Fin memHeapListNum) (others : Nat → List Call) (topAddr : Nat) :
    Nat → HeapWalk → Prop
  | 0, _ => True
  | n + 1, v => (OpensWindow topAddr v → WindowOk i others v) ∧
      ∀ v', statusPass i others topAddr v = .again v' → WindowsOk i others topAddr n v'

instance decidableWindowsOk (i : Fin memHeapListNum) (others : Nat → List Call) (topAddr : Nat) :
    ∀ n v, Decidable (WindowsOk i others topAddr n v)
  | 0, _ => inferInstanceAs (Decidable True)
  | n + 1, v =>
    have : Decidable (∀ v', statusPass i others topAddr v = .again v' →
        WindowsOk i others topAddr n v') :=
      match statusPass i others topAddr v with
      | .exit _ => isTrue fun _ h => (nomatch h)
      | .again v₁ =>
        have := decidableWindowsOk i others topAddr n v₁
        decidable_of_iff (WindowsOk i others topAddr n v₁)
          ⟨fun hw _ h => Pass.again.inj h ▸ hw, fun hw => hw v₁ rfl⟩
    inferInstanceAs (Decidable (_ ∧ _))

end TuyaSdk.TuyaMemHeap
