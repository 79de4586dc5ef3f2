import TuyaSdk.FakeSocket.Refine

/-!
# Frames of the supplicant on their way to the MAC

A frame is put into a queue of its fake socket, and its type record is sent to the core thread
through `io_queue` (`bmsg_skt_tx_sender` of `app_bk.c`); the core thread takes the next record
and, in `hapd_intf_ke_rx_handle` of `hostapd_intf.c`, the next payload of the record's socket.
The supplicant's thread is between the two parts of `fsocket_send` while `notified` is not
empty. `io_queue` also carries messages for others, which are left out.
-/

namespace TuyaSdk.SktTx

open TuyaSdk.Lib TuyaSdk.FakeSocket

/-! ## Type records -/

/-- `HOSTAPD_MGMT`, `HOSTAPD_MGMT_ROBUST` and `HOSTAPD_DATA`. -/
inductive FrameType where
  | mgmt
  | mgmtRobust
  | data
  deriving DecidableEq

/-- `S_TYPE_ST` -/
structure SType where
  type : FrameType
  vifIndex : UInt8
  freq : UInt16
  args : Nat
  sync : Int32
  deriving DecidableEq

/-- `SK_INTF_MGMT_SOCKET_NUM`: `PF_PACKET + SOCK_RAW + ETH_P_ALL` -/
def skIntfMgmtSocketNum : Int32 := 17 + 3 + 0x0003

/-- `SK_INTF_DATA_SOCKET_NUM`: `PF_PACKET + SOCK_RAW + ETH_P_PAE` -/
def skIntfDataSocketNum : Int32 := 17 + 3 + 0x888E

def mgmtGetSocketNum (vifIdx : UInt8) : Int32 := skIntfMgmtSocketNum + Int32.ofNat vifIdx.toNat

def dataGetSocketNum (vifIdx : UInt8) : Int32 := skIntfDataSocketNum + Int32.ofNat vifIdx.toNat

/-- The socket of the frames of a type on an interface. -/
def FrameType.socketNum : FrameType → UInt8 → Int32
  | .mgmt => mgmtGetSocketNum
  | .mgmtRobust => mgmtGetSocketNum
  | .data => dataGetSocketNum

def SType.socketNum (t : SType) : Int32 := t.type.socketNum t.vifIndex

/-! ## The handler -/

/-- What the MAC is given: the message `ME_MGMT_TX_REQ`, or a call of `rwm_transfer`. -/
inductive Handed where
  | meMgmtTxReq (buf : List UInt8) (len : Nat) (robust : Bool) (vifIdx : UInt8) (freq : UInt16)
  | rwmTransfer (vifIdx : UInt8) (buf : List UInt8) (len : Nat) (sync : Int32) (args : Nat)
  deriving DecidableEq

/-- `hapd_intf_ke_rx_handle` up to the allocation of its buffer: the size of the next payload. -/
def keRxPeek (mem : Memory) (t : SType) : Option Nat := do
  let payloadSize ← keSkRecvPeekNextPayloadSize mem t.socketNum
  match t.type with
  | .data => some payloadSize
  | _ => if payloadSize = 0 then none else some payloadSize

/-- The rest of `hapd_intf_ke_rx_handle`; `bufOk` and `kmsgOk` are the outcomes of its two
`os_malloc`. The field `len` of the message has 16 bits. -/
def keRxFrame (mem : Memory) (t : SType) (payloadSize : Nat) (bufOk kmsgOk : Bool) :
    Option (Memory × Option Handed) :=
  if bufOk then do
    let (mem, buf) ← keSkRecv mem t.socketNum payloadSize
    match t.type with
    | .data => some (mem, some (.rwmTransfer t.vifIndex buf payloadSize t.sync t.args))
    | _ =>
      if kmsgOk then
        some (mem, some (.meMgmtTxReq buf (payloadSize % 2 ^ 16) (t.type == .mgmtRobust)
          t.vifIndex t.freq))
      else some (mem, none)
  else some (mem, none)

/-! ## Runs -/

/-- `types` are the type records, `core` the record that the core thread handles, with the
payload size. -/
structure State where
  mem : Memory
  types : Heap SType
  ioQueue : List Nat
  core : Option (Nat × Nat)

/-- What happens next. -/
inductive Input where
  /-- the supplicant makes a socket -/
  | fsocketInit (af type protocol : Int32) (ok : Bool)
  /-- `fsocket_send` with a new type record, up to `bmsg_skt_tx_sender` -/
  | fsocketSend (t : SType) (buf : List UInt8) (msgOk bufOk : Bool)
  /-- `rtos_push_to_queue` in `bmsg_skt_tx_sender` -/
  | pushToQueue (ok : Bool)
  /-- the core thread takes a message and starts to handle it -/
  | popFromQueue
  /-- the core thread handles it to its end -/
  | keRxHandle (bufOk kmsgOk : Bool)
  deriving DecidableEq

/-- What happened; a thread whose turn it is not is `blocked`. -/
inductive Event where
  | blocked
  | socket (sk : Int32)
  | sent (p : Nat) (t : SType) (buf : List UInt8) (ret : Nat)
  | pushed (p : Nat) (ok : Bool)
  | popped (p : Nat)
  | handled (p : Nat) (handed : Option Handed)
  deriving DecidableEq

def step : Machine State Input Event := fun s input =>
  match input with
  | .fsocketInit af type protocol ok =>
    (fsocketInit s.mem af type protocol ok).map fun r => ({ s with mem := r.1 }, .socket r.2)
  | .fsocketSend t buf msgOk bufOk =>
    if s.mem.notified = [] then
      let p := s.types.next
      (fsocketSend s.mem t.socketNum buf p msgOk bufOk).map fun r =>
        ({ s with mem := r.1, types := s.types.malloc t }, .sent p t buf r.2)
    else some (s, .blocked)
  | .pushToQueue ok =>
    match s.mem.notified with
    | [] => some (s, .blocked)
    | p :: rest =>
      some ({ s with
        mem := { s.mem with notified := rest }
        ioQueue := if ok then s.ioQueue ++ [p] else s.ioQueue }, .pushed p ok)
  | .popFromQueue =>
    match s.core, s.ioQueue with
    | none, p :: rest => do
      let t ← s.types.block p
      let payloadSize ← keRxPeek s.mem t
      some ({ s with ioQueue := rest, core := some (p, payloadSize) }, .popped p)
    | _, _ => some (s, .blocked)
  | .keRxHandle bufOk kmsgOk =>
    match s.core with
    | none => some (s, .blocked)
    | some (p, payloadSize) => do
      let t ← s.types.block p
      let (mem, handed) ← keRxFrame s.mem t payloadSize bufOk kmsgOk
      let types ← s.types.free p
      some ({ s with mem := mem, types := types, core := none }, .handled p handed)

/-- No socket, and no frame on its way. -/
def State.init : State where
  mem := .init
  types := .empty
  ioQueue := []
  core := none

/-! ## What was sent and what was handed over -/

/-- A frame that `fsocket_send` took, with its type record. -/
structure Frame where
  p : Nat
  t : SType
  buf : List UInt8
  deriving DecidableEq

/-- How the MAC should be given a frame. -/
def Frame.handed (f : Frame) : Handed :=
  match f.t.type with
  | .data => .rwmTransfer f.t.vifIndex f.buf f.buf.length f.t.sync f.t.args
  | _ => .meMgmtTxReq f.buf f.buf.length (f.t.type == .mgmtRobust) f.t.vifIndex f.t.freq

/-- The socket of a frame that the MAC was given. -/
def Handed.socketNum : Handed → Int32
  | .meMgmtTxReq _ _ _ vifIdx _ => mgmtGetSocketNum vifIdx
  | .rwmTransfer vifIdx _ _ _ _ => dataGetSocketNum vifIdx

/-- The frames for which `fsocket_send` returned their length. -/
def sentFrames (events : List Event) : List Frame :=
  events.filterMap fun event =>
    match event with
    | .sent p t buf ret => if ret = buf.length then some ⟨p, t, buf⟩ else none
    | _ => none

/-- The records that were queued. -/
def queuedRecords (events : List Event) : List Nat :=
  events.filterMap fun event =>
    match event with
    | .pushed p ok => if ok then some p else none
    | _ => none

/-- What the MAC was given. -/
def handedFrames (events : List Event) : List Handed :=
  events.filterMap fun event =>
    match event with
    | .handled _ handed => handed
    | _ => none

/-- On each socket the MAC was given frames that were sent and queued, each at most once and
with its own record, in the order in which they were sent. -/
def HandedInOrder (events : List Event) : Prop :=
  ∀ sk, ((handedFrames events).filter fun h => h.socketNum = sk).Sublist
    (((sentFrames events).filter fun f => f.p ∈ queuedRecords events ∧ f.t.socketNum = sk).map
      Frame.handed)

/-- The records on their way: to be handled, queued, and to be queued. -/
def State.onTheWay (s : State) : List Nat :=
  (s.core.map Prod.fst).toList ++ s.ioQueue ++ s.mem.notified

/-- The records that are still allocated are those on their way. -/
def RecordsFreed (s : State) : Prop := ∀ p, s.types.Live p ↔ p ∈ s.onTheWay

end TuyaSdk.SktTx
