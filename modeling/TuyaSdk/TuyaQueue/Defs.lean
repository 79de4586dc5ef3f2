import TuyaSdk.Lib.Bytes
import TuyaSdk.Lib.Ring
import TuyaSdk.TuyaList

/-!
# The queue (`tuya_queue.c`)

A queue copies items of a fixed size into nodes that it allocates, and keeps the nodes in an
intrusive list beside a count of free places. A node is known by its address; `0` is `NULL`.
The calls are those on a valid handle, each under the queue's mutex.

The heap is an input: each call that allocates is given the address that `tkl_system_malloc`
returns. The calls of the heap are logged, and a freed node's memory is used for something
else at once (`Sys.free`). A loop that is still running after as many passes as the queue
has places, and one more, has no result.
-/

namespace TuyaSdk.TuyaQueue

open Lib TuyaList

/-- The results of the functions that return an `OPERATE_RET`. -/
inductive OperateRet where
  | ok
  | invalidParm
  | mallocFailed
  | exceedUpperLimit
  | notFound
  | comError
  deriving DecidableEq, Repr

/-- `SIZEOF(QUEUE_ITEM_T)`: the node, less the data. -/
abbrev sizeofQueueItem : Nat := 8

/-- `SIZEOF(LIST_HEAD)` -/
abbrev sizeofListHead : Nat := 8

/-- A call of `tkl_system_malloc` that returned an address, or of `tkl_system_free`. -/
inductive HeapEvent where
  | malloc (addr : Nat)
  | free (addr : Nat)
  deriving DecidableEq, Repr

/-- The blocks that are allocated and not freed after the events; `none` if one of them
frees a block that is not allocated. -/
def replay : List HeapEvent → List Nat → Option (List Nat)
  | [], live => some live
  | .malloc a :: es, live => replay es (a :: live)
  | .free a :: es, live => if a ∈ live then replay es (live.erase a) else none

/-- `TUYA_QUEUE_T`, less the mutex; `head` is the address of its list head. -/
structure Queue where
  itemSize : Nat
  queueLen : Nat
  queueFree : Nat
  head : Nat
  deriving DecidableEq, Repr

/-- `SIZEOF(QUEUE_ITEM_T) + queue->item_size`, which `tkl_system_malloc` is asked for. -/
def Queue.nodeSize (queue : Queue) : Nat := u32 (sizeofQueueItem + queue.itemSize)

/-- A queue with the pointers and the data of the nodes, and the calls of the heap. -/
structure Sys where
  queue : Queue
  lk : Links Nat
  data : Nat → Mem
  heap : List HeapEvent

/-- What becomes of the pointers in freed memory. -/
abbrev Junk := Links Nat → Nat → Nat × Nat

/-- `tkl_system_free` of the node `p`. -/
def Sys.free (s : Sys) (junk : Junk) (p : Nat) : Sys :=
  { s with lk := overwrite s.lk p (junk s.lk p), heap := s.heap ++ [.free p] }

/-- `tuya_queue_create`. `malloc` and `createLock` say whether they succeed, `head` where the
list head of the new object is. -/
def tuyaQueueCreate (queueLen itemSize : Nat) (handleNull malloc createLock : Bool) (head : Nat)
    (lk : Links Nat) (data : Nat → Mem) : OperateRet × Option Sys :=
  if handleNull || queueLen = 0 || itemSize = 0 then (.invalidParm, none)
  else if !malloc then (.mallocFailed, none)
  else if !createLock then (.comError, none)
  else (.ok, some ⟨⟨itemSize, queueLen, queueLen, head⟩, initListHead lk head, data, []⟩)

/-- The two policies of `ENQUEUE_POLICY_E` that the module uses. -/
inductive EnqueuePolicy where
  | sendToBack
  | sendToFront
  deriving DecidableEq, Repr

/-- `__enqueue`; `malloc` is the address that `tkl_system_malloc` returns. -/
def enqueue (junk : Junk) (s : Sys) (item : Option Mem) (policy : EnqueuePolicy) (malloc : Nat) :
    Sys × OperateRet :=
  match item with
  | none => (s, .invalidParm)
  | some item =>
    if malloc = 0 then (s, .mallocFailed)
    else
      let s := { s with heap := s.heap ++ [HeapEvent.malloc malloc], lk := initListHead s.lk malloc }
      let s := { s with
        data := Function.update s.data malloc (copyTo (s.data malloc) 0 item 0 s.queue.itemSize) }
      if 0 < s.queue.queueFree then
        let lk :=
          match policy with
          | .sendToBack => tuyaListAddTail s.lk malloc s.queue.head
          | .sendToFront => tuyaListAdd s.lk malloc s.queue.head
        ({ s with lk := lk, queue.queueFree := sub32 s.queue.queueFree 1 }, .ok)
      else (s.free junk malloc, .exceedUpperLimit)

/-- `tuya_queue_output`: the result, and what `item` points to afterwards. -/
def tuyaQueueOutput (junk : Junk) (s : Sys) (item : Option Mem) : Sys × OperateRet × Option Mem :=
  if s.queue.queueFree < s.queue.queueLen then
    let queueItem := s.lk.next s.queue.head
    let item := item.map fun item => copyTo item 0 (s.data queueItem) 0 s.queue.itemSize
    let s := { s with lk := tuyaListDel s.lk queueItem }
    let s := s.free junk queueItem
    ({ s with queue.queueFree := u32 (s.queue.queueFree + 1) }, .ok, item)
  else (s, .notFound, item)

/-- `tuya_queue_peek` -/
def tuyaQueuePeek (s : Sys) (item : Option Mem) : OperateRet × Option Mem :=
  match item with
  | none => (.invalidParm, none)
  | some item =>
    if s.queue.queueFree < s.queue.queueLen then
      (.ok, some (copyTo item 0 (s.data (s.lk.next s.queue.head)) 0 s.queue.itemSize))
    else (.notFound, some item)

/-- A pass of `tuya_list_for_each(p, head)`: `body` ends it with `exit` for `break`. -/
def forEachPass {σ : Type} (lk : Links Nat) (head : Nat) (body : σ → Nat → Pass σ σ) :
    Nat × σ → Pass (Nat × σ) σ
  | (p, s) =>
    if p = 0 ∨ p = head then .exit s
    else
      match body s p with
      | .exit r => .exit r
      | .again s' => .again (lk.next p, s')

/-- `tuya_list_for_each(p, head)` -/
def forEach {σ : Type} (fuel : Nat) (lk : Links Nat) (head : Nat) (body : σ → Nat → Pass σ σ)
    (s : σ) : Option σ :=
  Loop.run (forEachPass lk head body) fuel (lk.next head, s)

/-- The bytes of an item. -/
def Sys.item (s : Sys) (p : Nat) : List Byte := readBytes (s.data p) 0 s.queue.itemSize

/-- `tuya_queue_traverse`: the items that the callback was called with. The callback decides
by all it was called with so far whether to go on; it does not change the items. -/
def tuyaQueueTraverse (s : Sys) (cb : Option (List (List Byte) → Bool)) :
    Option (OperateRet × List (List Byte)) :=
  match cb with
  | none => some (.invalidParm, [])
  | some cb => do
    let visited ← forEach (s.queue.queueLen + 1) s.lk s.queue.head (fun visited p =>
      let visited := visited ++ [s.item p]
      if !cb visited then .exit visited else .again visited) []
    some (.ok, visited)

/-- `tuya_queue_clear` -/
def tuyaQueueClear (junk : Junk) (s : Sys) : Option (Sys × OperateRet) := do
  let (lk, freed) ← forEachSafe (s.queue.queueLen + 1) s.lk s.queue.head (fun _ => false) junk
  some ({ s with
    lk := lk
    heap := s.heap ++ freed.map HeapEvent.free
    queue.queueFree := s.queue.queueLen }, .ok)

/-- The loop body of `tuya_queue_get_batch`, on `index`, `count` and the memory at `items`. -/
def getBatchBody (s : Sys) (start num : Nat) (v : Nat × Nat × Mem) (p : Nat) :
    Pass (Nat × Nat × Mem) (Nat × Nat × Mem) :=
  let (index, count, items) := v
  if index < start then .again (u32 (index + 1), count, items)
  else if num ≤ count then .exit (index, count, items)
  else
    let items := copyTo items (u32 (count * s.queue.itemSize)) (s.data p) 0 s.queue.itemSize
    .again (index, u32 (count + 1), items)

/-- `tuya_queue_get_batch` -/
def tuyaQueueGetBatch (s : Sys) (start : Nat) (items : Option Mem) (num : Nat) :
    Option (OperateRet × Option Mem) :=
  match items with
  | none => some (.invalidParm, none)
  | some items =>
    if num = 0 then some (.invalidParm, some items)
    else do
      let (index, count, items) ← forEach (s.queue.queueLen + 1) s.lk s.queue.head
        (getBatchBody s start num) (0, 0, items)
      some (if index ≠ start ∨ count ≠ num then .notFound else .ok, some items)

/-- The loop of `tuya_queue_delete_batch`: `while ((count-- > 0) && (OPRT_OK == op_ret))`. -/
def deleteBatchLoop (junk : Junk) : Nat → Sys → OperateRet → Sys × OperateRet
  | 0, s, opRet => (s, opRet)
  | count + 1, s, opRet =>
    if opRet = .ok then
      let r := tuyaQueueOutput junk s none
      deleteBatchLoop junk count r.1 r.2.1
    else (s, opRet)

/-- `tuya_queue_delete_batch` -/
def tuyaQueueDeleteBatch (junk : Junk) (s : Sys) (num : Nat) : Sys × OperateRet :=
  if num = 0 then (s, .invalidParm) else deleteBatchLoop junk num s .ok

/-- A call on a queue, with its arguments. -/
inductive Call where
  | input (item : Option Mem) (malloc : Nat)
  | inputInstant (item : Option Mem) (malloc : Nat)
  | output (item : Option Mem)
  | peek (item : Option Mem)
  | traverse (cb : Option (List (List Byte) → Bool))
  | clear
  | getBatch (start : Nat) (items : Option Mem) (num : Nat)
  | deleteBatch (num : Nat)
  | getFreeNum
  | getUsedNum
  | getMaxNum

/-- What a call returns, and what it gives out. -/
inductive Reply where
  | status (ret : OperateRet)
  | copied (ret : OperateRet) (item : Option Mem)
  | visited (ret : OperateRet) (items : List (List Byte))
  | number (n : Nat)

/-- One call. -/
def step (junk : Junk) (s : Sys) : Call → Option (Sys × Reply)
  | .input item malloc =>
    let r := enqueue junk s item .sendToBack malloc
    some (r.1, .status r.2)
  | .inputInstant item malloc =>
    let r := enqueue junk s item .sendToFront malloc
    some (r.1, .status r.2)
  | .output item =>
    let r := tuyaQueueOutput junk s item
    some (r.1, .copied r.2.1 r.2.2)
  | .peek item =>
    let r := tuyaQueuePeek s item
    some (s, .copied r.1 r.2)
  | .traverse cb => (tuyaQueueTraverse s cb).map fun r => (s, .visited r.1 r.2)
  | .clear => (tuyaQueueClear junk s).map fun r => (r.1, .status r.2)
  | .getBatch start items num =>
    (tuyaQueueGetBatch s start items num).map fun r => (s, .copied r.1 r.2)
  | .deleteBatch num =>
    let r := tuyaQueueDeleteBatch junk s num
    some (r.1, .status r.2)
  | .getFreeNum => some (s, .number s.queue.queueFree)
  | .getUsedNum => some (s, .number (sub32 s.queue.queueLen s.queue.queueFree))
  | .getMaxNum => some (s, .number s.queue.queueLen)

/-! ## The deque -/

/-- The items that a callback is called with. -/
def visitedBy (cb : List (List Byte) → Bool) :
    List (List Byte) → List (List Byte) → List (List Byte)
  | visited, [] => visited
  | visited, x :: q => if cb (visited ++ [x]) then visitedBy cb (visited ++ [x]) q
    else visited ++ [x]

/-- One call on a deque of at most `cap` items of `size` bytes. -/
def dequeStep (size cap : Nat) (q : List (List Byte)) : Call → List (List Byte) × Reply
  | .input none _ => (q, .status .invalidParm)
  | .input (some item) malloc =>
    if malloc = 0 then (q, .status .mallocFailed)
    else if q.length < cap then (q ++ [readBytes item 0 size], .status .ok)
    else (q, .status .exceedUpperLimit)
  | .inputInstant none _ => (q, .status .invalidParm)
  | .inputInstant (some item) malloc =>
    if malloc = 0 then (q, .status .mallocFailed)
    else if q.length < cap then (readBytes item 0 size :: q, .status .ok)
    else (q, .status .exceedUpperLimit)
  | .output item =>
    match q with
    | [] => ([], .copied .notFound item)
    | x :: q => (q, .copied .ok (item.map fun buf => storeBytes buf x))
  | .peek none => (q, .copied .invalidParm none)
  | .peek (some buf) =>
    match q with
    | [] => ([], .copied .notFound (some buf))
    | x :: q => (x :: q, .copied .ok (some (storeBytes buf x)))
  | .traverse none => (q, .visited .invalidParm [])
  | .traverse (some cb) => (q, .visited .ok (visitedBy cb [] q))
  | .clear => ([], .status .ok)
  | .getBatch _ none _ => (q, .copied .invalidParm none)
  | .getBatch start (some items) num =>
    if num = 0 then (q, .copied .invalidParm (some items))
    else (q, .copied (if start + num ≤ q.length then .ok else .notFound)
      (some (storeBytes items ((q.drop start).take num).flatten)))
  | .deleteBatch num =>
    if num = 0 then (q, .status .invalidParm)
    else (q.drop num, .status (if num ≤ q.length then .ok else .notFound))
  | .getFreeNum => (q, .number (cap - q.length))
  | .getUsedNum => (q, .number q.length)
  | .getMaxNum => (q, .number cap)

end TuyaSdk.TuyaQueue
