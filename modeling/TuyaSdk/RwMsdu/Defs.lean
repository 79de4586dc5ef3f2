import TuyaSdk.Lib.Heap
import TuyaSdk.Lib.Machine

/-!
# Frames on their way to the MAC

The three ways of `rw_msdu.c`, `app_bk.c` and `wlan_ui.c` to hand a frame to the MAC:
`rwm_transfer` for data, `rwm_raw_frame_with_cb` for raw frames with a callback, and
`bk_wlan_send_80211_raw_frame` and `bk_wlan_send_80211_beacon_frame`, which go through the queue of
the core thread to `tx_raw_data`. A frame is copied to an MSDU node, the node is hung to a
descriptor, and `rwm_tx_confirm` gives the node back. The configuration is that of `sys_config.h`
(`CFG_RWNX_QOS_MSDU`, no `CFG_USE_AP_PS`).

`none` is a NULL pointer followed, or a block used or freed that is not allocated. The bytes of the
frames are left out, and so are the fields of a descriptor that are copied from them or point to
them; of the MAC library, what `tx_txdesc_prepare` answers is given with each call.
-/

namespace TuyaSdk.RwMsdu

open Lib

def rwSuccess : BitVec 32 := 0

def rwFailure : BitVec 32 := -1

def kNoErr : BitVec 32 := 0

def nxVirtDevMax : Nat := 2

def nxRemoteStaMax : Nat := 1

def broadcastStaIdxMin : BitVec 8 := 1

def acVi : Nat := 2

def txuCntrlMgmt : BitVec 16 := 1#16 <<< 3

/-! ## Interfaces and stations -/

inductive VifType where
  | sta
  | ibss
  | ap
  | meshPoint
  | unknown
  deriving DecidableEq

/-- `struct vif_info_tag`, as far as the frames depend on it. -/
structure Vif where
  type : VifType
  active : Bool
  apId : BitVec 8
  acm : BitVec 8

/-- `struct sta_info_tag`, as far as the frames depend on it. -/
structure StaInfo where
  macAddr : BitVec 48
  capaFlags : BitVec 32
  rateSet : List (BitVec 8)
  mcsRate : List (BitVec 8)
  htCapaInfo : BitVec 16

/-- What a frame finds in the MAC: its tables, and the descriptor that `tx_txdesc_prepare` has for a
queue (NULL is `none`). -/
structure Mac where
  vifInfoTab : Nat → Vif
  staInfoTab : Nat → StaInfo
  tid2ac : BitVec 8 → Nat
  txdescPrepare : Nat → Option Nat

def Mac.rwmMgmtVifIdx2ptr (mac : Mac) (vifIdx : BitVec 8) : Option Vif :=
  if vifIdx.toNat < nxVirtDevMax then some (mac.vifInfoTab vifIdx.toNat) else none

def Mac.rwmMgmtStaMac2idx (mac : Mac) (addr : BitVec 48) : BitVec 8 :=
  match (List.range nxRemoteStaMax).find? fun i => (mac.staInfoTab i).macAddr = addr with
  | some i => BitVec.ofNat 8 i
  | none => 0xff

def Mac.rwmMgmtTxGetStaidx (mac : Mac) (vifIdx : BitVec 8) (dest : BitVec 48) : BitVec 8 :=
  let staid := match mac.rwmMgmtVifIdx2ptr vifIdx with
    | none => 0xff
    | some vif =>
      match vif.type with
      | .sta => vif.apId
      | .ap => mac.rwmMgmtStaMac2idx dest
      | _ => 0xff
  if staid = 0xff then broadcastStaIdxMin + vifIdx else staid

def staQosCapa : Nat := 0

def staHtCapa : Nat := 1

def staVhtCapa : Nat := 2

def macHtcapaLdpc : Nat := 0

def macHtcapaDsssCck40 : Nat := 12

def sta11nNss (mcsSet : List (BitVec 8)) : Nat := (mcsSet.take 4).countP (· ≠ 0)

def qosNeedEnabled (sta : StaInfo) : Bool :=
  sta.capaFlags.getLsbD staQosCapa && decide (0x2c ∈ sta.rateSet) &&
    !sta.capaFlags.getLsbD staVhtCapa && sta.capaFlags.getLsbD staHtCapa &&
    sta11nNss sta.mcsRate = 3 &&
    (sta.htCapaInfo.getLsbD macHtcapaLdpc && sta.htCapaInfo.getLsbD macHtcapaDsssCck40)

/-- TID4: mapped to `AC_VI`. -/
def classify8021d : BitVec 8 := 4

/-- The first access category from `i` down without admission control. -/
def checkAdmission (acm : BitVec 8) : Nat → Option Nat
  | 0 => if acm.getLsbD 0 then none else some 0
  | i + 1 => if acm.getLsbD (i + 1) then checkAdmission acm i else some (i + 1)

/-- The tid and the queue of a data frame; `none` is no interface, or no category admitted. -/
def Mac.queueIdx (mac : Mac) (vifIdx : BitVec 8) : Option (BitVec 8 × Nat) :=
  match mac.rwmMgmtVifIdx2ptr vifIdx with
  | none => none
  | some vif =>
    if vif.active ∧ qosNeedEnabled (mac.staInfoTab vif.apId.toNat) then
      (checkAdmission vif.acm (mac.tid2ac classify8021d)).map fun ac => (classify8021d, ac)
    else some (0xff, acVi)

/-! ## Blocks and descriptors -/

/-- The fields of a node that `rwm_transfer` alone sets. -/
structure TxInfo where
  vifIdx : BitVec 8
  staIdx : BitVec 8
  sync : BitVec 32
  args : Nat

/-- The blocks of the frames: an `MSDU_NODE_T` (with `none` for fields never set), a copy of a
packet, and a `BUS_MSG_PARAM_T`. -/
inductive Block where
  | node (len : BitVec 32) (info : Option TxInfo)
  | packet (len : BitVec 32)
  | bcnParam (channel : BitVec 8) (ssid : List (BitVec 8))

/-- A `mgmt_tx_cb_t`; the callers' own are known by their address. -/
inductive Callback where
  | ieee80211DataTxCb
  | user (cb : Nat)
  deriving DecidableEq

inductive Param where
  | txdesc (d : Nat)
  | user (param : Nat)
  deriving DecidableEq

/-- `struct hostdesc`. -/
structure HostDesc where
  flags : BitVec 16
  packetLen : BitVec 16
  tid : BitVec 8
  vifIdx : BitVec 8
  staid : BitVec 8
  callback : Option Callback
  param : Param
  msduNode : Option Nat

structure Txdesc where
  used : Bool
  host : HostDesc

/-- A message of `io_queue`. -/
inductive Msg where
  | txRaw (pkt : Nat) (len : BitVec 16)
  | txBcn (bcnParam : Nat)

/-- The block that a message hands over. -/
def Msg.block : Msg → Nat
  | .txRaw pkt _ => pkt
  | .txBcn bcnParam => bcnParam

/-- The heap, the descriptors, the queue of the core thread, and the descriptors that the MAC has
not confirmed since they were pushed. -/
structure World where
  heap : Heap Block
  desc : Nat → Txdesc
  ioQueue : List Msg
  pushed : List Nat

namespace World

variable (w : World)

/-- `os_malloc`, which may find no `room`. -/
def osMalloc (room : Bool) (b : Block) : Option Nat × World :=
  if room then (some w.heap.next, { w with heap := w.heap.malloc b }) else (none, w)

def osFree (p : Nat) : Option World := (w.heap.free p).map fun heap => { w with heap := heap }

def store (p : Nat) (b : Block) : Option World :=
  (w.heap.store p b).map fun heap => { w with heap := heap }

/-- The descriptor is marked as used, filled, and pushed. -/
def push (d : Nat) (host : HostDesc) : World :=
  { w with desc := Function.update w.desc d ⟨true, host⟩, pushed := w.pushed ++ [d] }

/-- `rtos_push_to_queue`, which returns `ret`; the block of the message is freed when it fails. -/
def pushToQueue (ret : BitVec 32) (msg : Msg) : Option World :=
  if ret = kNoErr then some { w with ioQueue := w.ioQueue ++ [msg] } else w.osFree msg.block

end World

def rwmTxNodeAlloc (w : World) (room : Bool) (len : BitVec 32) : Option Nat × World :=
  w.osMalloc room (.node len none)

def rwmNodeFree (w : World) (node : Nat) : Option World := w.osFree node

/-! ## Data frames -/

/-- The fields that `rwm_transfer_node` sets. -/
def HostDesc.dataFrame (host : HostDesc) (node d : Nat) (flag : BitVec 16) (tid : BitVec 8)
    (len : BitVec 32) (info : TxInfo) : HostDesc :=
  let host := { host with
    flags := flag
    packetLen := (len - 14).setWidth 16
    tid := tid
    vifIdx := info.vifIdx
    staid := info.staIdx
    msduNode := some node }
  if info.sync ≠ 0 then { host with callback := some .ieee80211DataTxCb, param := .txdesc d }
  else { host with callback := none }

/-- The node is freed, and the frame is refused. -/
def txExit (w : World) (node : Nat) : Option (BitVec 32 × World) :=
  (rwmNodeFree w node).map fun w => (rwFailure, w)

def rwmTransferNode (mac : Mac) (w : World) (node : Nat) (flag : BitVec 16) :
    Option (BitVec 32 × World) :=
  match w.heap.block node with
  | some (.node len (some info)) =>
    match mac.queueIdx info.vifIdx with
    | none => txExit w node
    | some (tid, queue) =>
      match mac.txdescPrepare queue with
      -- the status is read without a check
      | none => none
      | some d =>
        if (w.desc d).used then txExit w node
        else
          -- `ret` is still what it was set to at the start
          some (rwFailure, w.push d ((w.desc d).host.dataFrame node d flag tid len info))
  | _ => none

def rwmTransfer (mac : Mac) (room : Bool) (w : World) (vifIdx : BitVec 8) (dest : BitVec 48)
    (len sync : BitVec 32) (args : Nat) : Option (BitVec 32 × World) :=
  match rwmTxNodeAlloc w room len with
  | (none, w) => some (rwFailure, w)
  | (some node, w) => do
    let w ← w.store node
      (.node len (some ⟨vifIdx, mac.rwmMgmtTxGetStaidx vifIdx dest, sync, args⟩))
    rwmTransferNode mac w node 0

/-! ## Raw frames -/

/-- The fields that `rwm_raw_frame_with_cb` and `tx_raw_data` set. -/
def HostDesc.rawFrame (host : HostDesc) (node : Nat) (len : BitVec 32) : HostDesc :=
  { host with
    flags := txuCntrlMgmt
    packetLen := len.setWidth 16
    tid := 0xff
    msduNode := some node }

/-- What `rwm_raw_frame_with_cb` and `tx_raw_data` share: a node and a descriptor of `AC_VI`, filled
for a frame of `len` bytes and with the further `fields` of the one or the other. -/
def pushRaw (mac : Mac) (room : Bool) (w : World) (len : BitVec 32) (fields : HostDesc → HostDesc) :
    Option (Bool × World) :=
  match rwmTxNodeAlloc w room len with
  | (none, w) => some (false, w)
  | (some node, w) =>
    match mac.txdescPrepare acVi with
    | none => (rwmNodeFree w node).map fun w => (false, w)
    | some d =>
      if (w.desc d).used then (rwmNodeFree w node).map fun w => (false, w)
      else some (true, w.push d (fields ((w.desc d).host.rawFrame node len)))

def rwmRawFrameWithCb (mac : Mac) (room : Bool) (w : World) (len : BitVec 32) (cb : Option Nat)
    (param : Nat) : Option (BitVec 32 × World) :=
  (pushRaw mac room w len fun host =>
      { host with callback := cb.map .user, param := .user param }).map
    fun r => (if r.1 then len else 0, r.2)

/-- The callback of the descriptor is left as it is; the packet is freed in any case. -/
def txRawData (mac : Mac) (room : Bool) (w : World) (pkt : Nat) (len : BitVec 16) :
    Option World := do
  let r ← pushRaw mac room w (len.signExtend 32) id
  r.2.osFree pkt

/-- The size of a beacon: `sizeof(struct bcn_frame)`, the element of the SSID and the others, less
4. -/
def bcnLen (ssidLen : Nat) : BitVec 16 := BitVec.ofNat 16 (36 + (2 + ssidLen) + 58 - 4)

def txRawBeacon (mac : Mac) (room bcnRoom : Bool) (w : World) (ssidLen : Nat) : Option World :=
  if ssidLen = 0 then some w
  else
    match w.osMalloc bcnRoom (.packet ((bcnLen ssidLen).setWidth 32)) with
    | (none, w) => some w
    | (some bcn, w) => txRawData mac room w bcn (bcnLen ssidLen)

/-- `strlen`: the array is zeroed when it is allocated, and longer than the name. -/
def ssidStrlen (ssid : List (BitVec 8)) : Nat := (ssid.takeWhile (· ≠ 0)).length

def bmsgTxBeaconHandler (mac : Mac) (room bcnRoom : Bool) (w : World) (bcnParam : Nat) :
    Option World :=
  match w.heap.block bcnParam with
  | some (.bcnParam _ ssid) => do
    let w ← txRawBeacon mac room bcnRoom w (ssidStrlen ssid)
    w.osFree bcnParam
  | _ => none

/-- The core thread takes the next message from the queue. -/
def coreThread (mac : Mac) (room bcnRoom : Bool) (w : World) : Option World :=
  match w.ioQueue with
  | [] => some w
  | .txRaw pkt len :: msgs => txRawData mac room { w with ioQueue := msgs } pkt len
  | .txBcn bcnParam :: msgs =>
    bmsgTxBeaconHandler mac room bcnRoom { w with ioQueue := msgs } bcnParam

/-- `ret` is what `rtos_push_to_queue` returns. -/
def bkWlanSend80211RawFrame (room : Bool) (ret : BitVec 32) (w : World) (len : BitVec 32) :
    Option (BitVec 32 × World) :=
  match w.osMalloc room (.packet len) with
  | (none, w) => some (-1, w)
  | (some pkt, w) => (w.pushToQueue ret (.txRaw pkt (len.setWidth 16))).map fun w => (ret, w)

/-- The size of the array `ssid` of a `BUS_MSG_PARAM_T`. -/
def ssidSize : Nat := 33

def bkWlanSend80211BeaconFrame (room : Bool) (ret : BitVec 32) (w : World) (channel : BitVec 8)
    (ssid : Nat → BitVec 8) (ssidLen : BitVec 8) : Option (BitVec 32 × World) :=
  match w.osMalloc room (.bcnParam 0 []) with
  | (none, w) => some (-1, w)
  | (some bcnParam, w) =>
    if ssidLen.toNat ≥ ssidSize then some (-1, w)
    else do
      let w ← w.store bcnParam (.bcnParam channel ((List.range ssidLen.toNat).map ssid))
      let w ← w.pushToQueue ret (.txBcn bcnParam)
      return (ret, w)

/-! ## The confirm -/

/-- A callback that has run: the data frame's signals the caller that waits with the `args` of the
node (`none` is a field that was never set), any other is given its parameter. -/
inductive Ran where
  | signal (args : Option Nat)
  | call (cb : Nat) (param : Param)
  deriving DecidableEq

def ieee80211DataTxCb (w : World) (d : Nat) : Option Ran :=
  match (w.desc d).host.msduNode with
  -- `args` is read ahead of the check of the node
  | none => none
  | some node =>
    match w.heap.block node with
    | some (.node _ info) => some (.signal (info.map TxInfo.args))
    | _ => none

/-- What the callback of a descriptor does, if it has one. -/
def runCallback (w : World) (d : Nat) : Option (Option Ran) :=
  match (w.desc d).host.callback with
  | none => some none
  | some (.user cb) => some (some (.call cb (w.desc d).host.param))
  | some .ieee80211DataTxCb =>
    match (w.desc d).host.param with
    | .txdesc d' => (ieee80211DataTxCb w d').map some
    | .user _ => none

def rwmTxConfirm (w : World) (d : Nat) : Option (Option Ran × World) :=
  match (w.desc d).host.msduNode with
  | none => some (none, w)
  | some node => do
    let ran ← runCallback w d
    let w ← w.osFree node
    let desc := w.desc d
    return (ran, { w with
      desc := Function.update w.desc d { desc with host := { desc.host with msduNode := none } } })

end TuyaSdk.RwMsdu
