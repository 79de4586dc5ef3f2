import TuyaSdk.Lib.DoubleLinks
import TuyaSdk.Lib.Heap
import TuyaSdk.Lib.Machine

/-!
# Fake sockets

`bk_patch/fake_socket.c` of the supplicant, with the lists of `utils/list.h`. A socket element
has two queues of messages, one for each direction, and is in the list of all elements; every
message is a block with a link and a pointer to a block with its bytes. An access to a block
that is not allocated, or not of its kind, is `none`, as is a failed `ASSERT`.

`Sockets` says what the functions are for: a pair of queues of byte strings for each socket
number.
-/

namespace TuyaSdk.FakeSocket

open TuyaSdk.Lib

/-! ## Memory -/

/-- The two queues of an element: `tx` from the supplicant, `rx` to it. -/
inductive Dir where
  | tx
  | rx
  deriving DecidableEq

/-- The nodes of lists: `socket_entity.sk_head`, and `sk_element`, `sk_tx_msg`, `sk_rx_msg` or
`data` of a block. -/
inductive Addr where
  | null
  | skHead
  | element (p : Nat)
  | queue (d : Dir) (p : Nat)
  | data (p : Nat)
  deriving DecidableEq

/-- What is in a block: `BK_SOCKET` and `SOCKET_MSG` without their links, or bytes. -/
inductive Block where
  | socket (sk : Int32)
  | msg (msg : Option Nat) (len : Nat)
  | buf (bytes : List UInt8)
  deriving DecidableEq

def Block.isSocket : Block → Bool
  | .socket _ => true
  | _ => false

def Block.isMsg : Block → Bool
  | .msg _ _ => true
  | _ => false

/-- The blocks, the links, and the type records given to `bmsg_skt_tx_sender`. -/
structure Memory where
  heap : Heap Block
  links : Links Addr
  notified : List Nat

namespace Memory

/-- The node is in an allocated block of its kind. -/
def valid (mem : Memory) : Addr → Bool
  | .null => false
  | .skHead => true
  | .element p => (mem.heap.block p).any Block.isSocket
  | .queue _ p => (mem.heap.block p).any Block.isSocket
  | .data p => (mem.heap.block p).any Block.isMsg

def next (mem : Memory) (a : Addr) : Option Addr :=
  if mem.valid a then some (mem.links.next a) else none

def prev (mem : Memory) (a : Addr) : Option Addr :=
  if mem.valid a then some (mem.links.prev a) else none

def setNext (mem : Memory) (a b : Addr) : Option Memory :=
  if mem.valid a then some { mem with links := mem.links.setNext a b } else none

def setPrev (mem : Memory) (a b : Addr) : Option Memory :=
  if mem.valid a then some { mem with links := mem.links.setPrev a b } else none

def malloc (mem : Memory) (b : Block) : Memory := { mem with heap := mem.heap.malloc b }

def free (mem : Memory) (p : Nat) : Option Memory :=
  (mem.heap.free p).map fun heap => { mem with heap := heap }

def store (mem : Memory) (p : Nat) (b : Block) : Option Memory :=
  (mem.heap.store p b).map fun heap => { mem with heap := heap }

/-- The message block at `p`. -/
def readMsg (mem : Memory) (p : Nat) : Option (Option Nat × Nat) :=
  match mem.heap.block p with
  | some (.msg msg len) => some (msg, len)
  | _ => none

def readBuf (mem : Memory) (p : Nat) : Option (List UInt8) :=
  match mem.heap.block p with
  | some (.buf bytes) => some bytes
  | _ => none

end Memory

/-! ## Lists -/

/-- `dl_list_init` -/
def dlListInit (mem : Memory) (list : Addr) : Option Memory := do
  let mem ← mem.setNext list list
  mem.setPrev list list

/-- `dl_list_add` -/
def dlListAdd (mem : Memory) (list item : Addr) : Option Memory := do
  let n ← mem.next list
  let mem ← mem.setNext item n
  let mem ← mem.setPrev item list
  let n ← mem.next list
  let mem ← mem.setPrev n item
  mem.setNext list item

/-- `dl_list_add_tail` -/
def dlListAddTail (mem : Memory) (list item : Addr) : Option Memory := do
  let p ← mem.prev list
  dlListAdd mem p item

/-- `dl_list_del` -/
def dlListDel (mem : Memory) (item : Addr) : Option Memory := do
  let n ← mem.next item
  let p ← mem.prev item
  let mem ← mem.setPrev n p
  let p ← mem.prev item
  let n ← mem.next item
  let mem ← mem.setNext p n
  let mem ← mem.setNext item .null
  mem.setPrev item .null

/-- The passes of `dl_list_for_each_safe` from `item` on. The body breaks off with a result, or
goes on. -/
def forEachSafeFrom {ρ : Type} (body : Memory → Addr → Option (Memory × Option ρ)) (list : Addr) :
    Nat → Memory → Addr → Addr → Option (Memory × Option ρ)
  | 0, _, _, _ => none
  | fuel + 1, mem, item, n =>
    if item = list then some (mem, none)
    else do
      let (mem, r) ← body mem item
      match r with
      | some r => some (mem, some r)
      | none => do
        let n' ← mem.next n
        forEachSafeFrom body list fuel mem n n'

/-- `dl_list_for_each_safe`; a list has no more members than there were allocations. -/
def forEachSafe {ρ : Type} (body : Memory → Addr → Option (Memory × Option ρ)) (mem : Memory)
    (list : Addr) : Option (Memory × Option ρ) := do
  let item ← mem.next list
  let n ← mem.next item
  forEachSafeFrom body list (mem.heap.next + 1) mem item n

/-! ## Sockets -/

/-- The body of the loop of `sk_get_sk_element`. -/
def getBody (sk : Int32) (mem : Memory) : Addr → Option (Memory × Option Nat)
  | .element p =>
    match mem.heap.block p with
    | some (.socket sk') => some (mem, if sk = sk' then some p else none)
    | _ => none
  | _ => none

/-- `sk_get_sk_element` -/
def skGetSkElement (mem : Memory) (sk : Int32) : Option (Option Nat) :=
  (forEachSafe (getBody sk) mem .skHead).map Prod.snd

/-- `fsocket_init`; `ok` is the outcome of `os_malloc`. -/
def fsocketInit (mem : Memory) (af type protocol : Int32) (ok : Bool) : Option (Memory × Int32) := do
  let sk := af + type + protocol
  match ← skGetSkElement mem sk with
  | some _ => some (mem, sk)
  | none =>
    if ok then do
      let p := mem.heap.next
      let mem := mem.malloc (.socket sk)
      let mem ← dlListInit mem (.queue .rx p)
      let mem ← dlListInit mem (.queue .tx p)
      let mem ← dlListAdd mem .skHead (.element p)
      some (mem, sk)
    else some (mem, 0)

/-- A message is put into a queue of an element: the common part of the two send functions.
`msgOk` and `bufOk` are the outcomes of the two `os_malloc`. -/
def skAppend (d : Dir) (mem : Memory) (element : Nat) (buf : List UInt8) (msgOk bufOk : Bool) :
    Option (Memory × Bool) :=
  if msgOk then do
    let p := mem.heap.next
    let mem := mem.malloc (.msg none 0)
    if bufOk then do
      let q := mem.heap.next
      let mem := mem.malloc (.buf [])
      let mem ← mem.store p (.msg (some q) buf.length)
      let mem ← mem.store q (.buf buf)
      let mem ← dlListAddTail mem (.queue d element) (.data p)
      some (mem, true)
    else do
      let mem ← mem.free p
      some (mem, false)
  else some (mem, false)

/-- `ke_sk_send` -/
def keSkSend (mem : Memory) (sk : Int32) (buf : List UInt8) (msgOk bufOk : Bool) :
    Option (Memory × Nat) := do
  match ← skGetSkElement mem sk with
  | none => some (mem, 0)
  | some element => do
    let (mem, sent) ← skAppend .rx mem element buf msgOk bufOk
    some (mem, if sent then buf.length else 0)

/-- `fsocket_send` -/
def fsocketSend (mem : Memory) (sk : Int32) (buf : List UInt8) (type : Nat) (msgOk bufOk : Bool) :
    Option (Memory × Nat) := do
  match ← skGetSkElement mem sk with
  | none => some (mem, 0)
  | some element => do
    let (mem, sent) ← skAppend .tx mem element buf msgOk bufOk
    if sent then some ({ mem with notified := mem.notified ++ [type] }, buf.length)
    else some (mem, 0)

/-- The body of the loop of the receive functions. -/
def recvBody (len : Nat) (mem : Memory) : Addr → Option (Memory × Option (List UInt8))
  | .data p => do
    let (msg, msgLen) ← mem.readMsg p
    let q ← msg
    let count := min msgLen len
    if count = 0 then none
    else do
      let bytes ← mem.readBuf q
      let mem ← mem.free q
      let mem ← mem.store p (.msg none 0)
      let mem ← dlListDel mem (.data p)
      let mem ← mem.free p
      some (mem, some (bytes.take count))
  | _ => none

/-- The oldest message of a queue is received: the common part of the two receive functions. -/
def skRecv (d : Dir) (mem : Memory) (sk : Int32) (len : Nat) :
    Option (Memory × List UInt8) := do
  match ← skGetSkElement mem sk with
  | none => some (mem, [])
  | some element => do
    let (mem, bytes) ← forEachSafe (recvBody len) mem (.queue d element)
    some (mem, bytes.getD [])

/-- `ke_sk_recv`; the result are the bytes copied, and their number is returned. -/
def keSkRecv : Memory → Int32 → Nat → Option (Memory × List UInt8) := skRecv .tx

/-- `fsocket_recv` -/
def fsocketRecv : Memory → Int32 → Nat → Option (Memory × List UInt8) := skRecv .rx

/-- The body of the loop of the peek functions. -/
def peekBody (mem : Memory) : Addr → Option (Memory × Option Nat)
  | .data p => do
    let (_, len) ← mem.readMsg p
    some (mem, some len)
  | _ => none

/-- The length of the oldest message of a queue: the common part of the peek functions. -/
def skPeek (d : Dir) (mem : Memory) (sk : Int32) : Option Nat := do
  match ← skGetSkElement mem sk with
  | none => some 0
  | some element => do
    let (_, len) ← forEachSafe peekBody mem (.queue d element)
    some (len.getD 0)

/-- `ke_sk_recv_peek_next_payload_size` -/
def keSkRecvPeekNextPayloadSize : Memory → Int32 → Option Nat := skPeek .tx

/-- `ke_sk_send_peek_next_payload_size` -/
def keSkSendPeekNextPayloadSize : Memory → Int32 → Option Nat := skPeek .rx

/-- `fsocket_peek_recv_next_payload_size` -/
def fsocketPeekRecvNextPayloadSize : Memory → Int32 → Option Nat := skPeek .rx

/-- The body of the two loops of `fsocket_close`. -/
def closeBody (mem : Memory) : Addr → Option (Memory × Option Unit)
  | .data p => do
    let mem ← dlListDel mem (.data p)
    let (msg, _) ← mem.readMsg p
    let mem ←
      match msg with
      | some q => do
        let mem ← mem.free q
        mem.store p (.msg none 0)
      | none => some mem
    let mem ← mem.free p
    some (mem, none)
  | _ => none

/-- `fsocket_close` -/
def fsocketClose (mem : Memory) (sk : Int32) : Option Memory := do
  match ← skGetSkElement mem sk with
  | none => some mem
  | some element => do
    let (mem, _) ← forEachSafe closeBody mem (.queue .tx element)
    let (mem, _) ← forEachSafe closeBody mem (.queue .rx element)
    let mem ← dlListDel mem (.element element)
    mem.free element

/-! ## Calls -/

/-- A call, with the outcomes of its allocations. -/
inductive Call where
  | fsocketInit (af type protocol : Int32) (ok : Bool)
  | fsocketSend (sk : Int32) (buf : List UInt8) (type : Nat) (msgOk bufOk : Bool)
  | fsocketRecv (sk : Int32) (len : Nat)
  | keSkSend (sk : Int32) (buf : List UInt8) (msgOk bufOk : Bool)
  | keSkRecv (sk : Int32) (len : Nat)
  | keSkRecvPeek (sk : Int32)
  | keSkSendPeek (sk : Int32)
  | fsocketPeekRecv (sk : Int32)
  | fsocketClose (sk : Int32)
  deriving DecidableEq

/-- What a call returns; a receive also fills its buffer. -/
inductive Result where
  | socket (sk : Int32)
  | size (n : Nat)
  | received (n : Nat) (bytes : List UInt8)
  | closed
  deriving DecidableEq

/-- Lengths are positive. -/
def Call.Pre : Call → Prop
  | .fsocketSend _ buf _ _ _ => buf ≠ []
  | .fsocketRecv _ len => len ≠ 0
  | .keSkSend _ buf _ _ => buf ≠ []
  | .keSkRecv _ len => len ≠ 0
  | _ => True

instance : (call : Call) → Decidable call.Pre
  | .fsocketSend _ buf _ _ _ => inferInstanceAs (Decidable (buf ≠ []))
  | .fsocketRecv _ len => inferInstanceAs (Decidable (len ≠ 0))
  | .keSkSend _ buf _ _ => inferInstanceAs (Decidable (buf ≠ []))
  | .keSkRecv _ len => inferInstanceAs (Decidable (len ≠ 0))
  | .fsocketInit _ _ _ _ | .keSkRecvPeek _ | .keSkSendPeek _ | .fsocketPeekRecv _ |
    .fsocketClose _ => inferInstanceAs (Decidable True)

def step : Machine Memory Call Result := fun mem call =>
  match call with
  | .fsocketInit af type protocol ok =>
    (fsocketInit mem af type protocol ok).map fun r => (r.1, .socket r.2)
  | .fsocketSend sk buf type msgOk bufOk =>
    (fsocketSend mem sk buf type msgOk bufOk).map fun r => (r.1, .size r.2)
  | .fsocketRecv sk len =>
    (fsocketRecv mem sk len).map fun r => (r.1, .received r.2.length r.2)
  | .keSkSend sk buf msgOk bufOk =>
    (keSkSend mem sk buf msgOk bufOk).map fun r => (r.1, .size r.2)
  | .keSkRecv sk len => (keSkRecv mem sk len).map fun r => (r.1, .received r.2.length r.2)
  | .keSkRecvPeek sk => (keSkRecvPeekNextPayloadSize mem sk).map fun n => (mem, .size n)
  | .keSkSendPeek sk => (keSkSendPeekNextPayloadSize mem sk).map fun n => (mem, .size n)
  | .fsocketPeekRecv sk => (fsocketPeekRecvNextPayloadSize mem sk).map fun n => (mem, .size n)
  | .fsocketClose sk => (fsocketClose mem sk).map fun mem => (mem, .closed)

/-- `socket_entity`, and no block. -/
def Memory.init : Memory where
  heap := .empty
  links := ⟨fun _ => .skHead, fun _ => .skHead⟩
  notified := []

/-! ## Pairs of message queues -/

/-- The queues of a socket. -/
abbrev Queues := Dir → List (List UInt8)

/-- At most one pair of queues for each socket number. -/
abbrev Sockets := Int32 → Option Queues

namespace Sockets

def set (t : Sockets) (sk : Int32) (q : Option Queues) : Sockets := Function.update t sk q

/-- The whole message is appended, or nothing changes and the result is 0. -/
def send (d : Dir) (t : Sockets) (sk : Int32) (buf : List UInt8) (ok : Bool) : Sockets × Nat :=
  match t sk with
  | some q =>
    if ok then (t.set sk (some (Function.update q d (q d ++ [buf]))), buf.length) else (t, 0)
  | none => (t, 0)

/-- The oldest message is removed, and its first bytes are the result. -/
def recv (d : Dir) (t : Sockets) (sk : Int32) (len : Nat) : Sockets × List UInt8 :=
  match t sk with
  | some q =>
    match q d with
    | m :: rest => (t.set sk (some (Function.update q d rest)), m.take (min m.length len))
    | [] => (t, [])
  | none => (t, [])

/-- The length of the message that a receive would remove. -/
def peek (d : Dir) (t : Sockets) (sk : Int32) : Nat :=
  match t sk with
  | some q => ((q d).head?.map List.length).getD 0
  | none => 0

/-- The calls on pairs of queues. -/
def step (t : Sockets) : Call → Sockets × Result
  | .fsocketInit af type protocol ok =>
    let sk := af + type + protocol
    if (t sk).isSome then (t, .socket sk)
    else if ok then (t.set sk (some fun _ => []), .socket sk)
    else (t, .socket 0)
  | .fsocketSend sk buf _ msgOk bufOk =>
    ((t.send .tx sk buf (msgOk && bufOk)).1, .size (t.send .tx sk buf (msgOk && bufOk)).2)
  | .fsocketRecv sk len =>
    ((t.recv .rx sk len).1, .received (t.recv .rx sk len).2.length (t.recv .rx sk len).2)
  | .keSkSend sk buf msgOk bufOk =>
    ((t.send .rx sk buf (msgOk && bufOk)).1, .size (t.send .rx sk buf (msgOk && bufOk)).2)
  | .keSkRecv sk len =>
    ((t.recv .tx sk len).1, .received (t.recv .tx sk len).2.length (t.recv .tx sk len).2)
  | .keSkRecvPeek sk => (t, .size (t.peek .tx sk))
  | .keSkSendPeek sk => (t, .size (t.peek .rx sk))
  | .fsocketPeekRecv sk => (t, .size (t.peek .rx sk))
  | .fsocketClose sk => (t.set sk none, .closed)

end Sockets

end TuyaSdk.FakeSocket
