import TuyaSdk.Lib.ExchangeSort
import TuyaSdk.Lib.Heap
import TuyaSdk.Lib.Machine

/-!
# The table of scan results

`rw_msg_rx.c` collects the beacons and probe responses of a scan in a table: one block for the
shell, which holds the pointers to the items, and one block for each item. `none` is the use or
the free of a block that is not allocated. The pointers of the slots below `scanu_num` are a
list, whose length is `scanu_num`.
-/

namespace TuyaSdk.ScanResult

open TuyaSdk.Lib

def maxBssList : Nat := 64
def ethAlen : Nat := 6
def macSsidLen : Nat := 32
def macBeaconVariablePartOft : Nat := 36
def macEltidSsid : UInt8 := 0
def macEltidDs : UInt8 := 3
def macDsChannelOft : Nat := 2
def macSsidLenOft : Nat := 1
def macSsidSsidOft : Nat := 2
def macFctrlTypesubtypeMask : UInt16 := 0x00FC
def macFctrlProbersp : UInt16 := 0x0050

/-- `struct sta_scan_res`, with the element data that follows it. -/
structure StaScanRes where
  bssid : List UInt8
  ssid : List UInt8
  onChannel : Bool
  channel : Nat
  isProbersp : Bool
  beaconInt : UInt16
  caps : UInt16
  level : Int
  security : Int
  tsf : List UInt8
  ieLen : Nat
  ies : List UInt8
  deriving DecidableEq, Repr

/-- An item after `os_zalloc`. -/
def StaScanRes.zero : StaScanRes :=
  ⟨List.replicate ethAlen 0, List.replicate macSsidLen 0, false, 0, false, 0, 0, 0, 0,
    List.replicate 8 0, 0, []⟩

/-- An allocated block. -/
inductive Block
  | shell (res : List Nat)
  | item (item : StaScanRes)
  | wpabuf (data : List UInt8)
  deriving DecidableEq, Repr

/-- The payload of a `SCANU_RESULT_IND`: `SCAN_IND_T` with the memory from the frame's first
byte on. -/
structure ScanInd where
  length : UInt16
  centerFreq : Nat
  rssi : Int8
  payload : Nat → UInt8

/-- The country settings that decide which channels are scanned. -/
structure CountryCode where
  manual : Bool
  schan : Nat
  nchan : Nat
  deriving DecidableEq, Repr

/-- What the handlers use of other code: the element search of the MAC library (address,
length, element), the two readers of the supplicant, whether the scan is a plain one
(`wpa_is_scan_only`), and the country settings. -/
structure Env where
  macIeFind : (Nat → UInt8) → Nat → Nat → UInt8 → Option Nat
  getSecurityTypeFromIe : (Nat → UInt8) → Nat → Nat → UInt16 → Int
  wlanGetBssBeaconIes : (Nat → UInt8) → Nat → Nat → List UInt8
  wpaIsScanOnly : Bool
  country : CountryCode

/-- The heap and the static variables. -/
structure State where
  heap : Heap Block
  scanRstSetPtr : Option Nat
  resultfulScanCfm : Bool
  sScanResultUploadPtr : Option Nat

/-! ## Reading the frame -/

/-- `len` bytes of memory. -/
def bytes (mem : Nat → UInt8) (addr len : Nat) : List UInt8 :=
  (List.range len).map fun i => mem (addr + i)

/-- Two bytes of memory, the lower one first. -/
def u16At (mem : Nat → UInt8) (addr : Nat) : UInt16 :=
  (mem addr).toUInt16 ||| ((mem (addr + 1)).toUInt16 <<< 8)

namespace ScanInd

variable (ind : ScanInd)

def frameControl : UInt16 := u16At ind.payload 0
def bssid : List UInt8 := bytes ind.payload 16 ethAlen
def timestamp : List UInt8 := bytes ind.payload 24 8
def beaconInt : UInt16 := u16At ind.payload 32
def capabInfo : UInt16 := u16At ind.payload 34

/-- `vies_len`: a frame is not shorter than its fixed part. -/
def viesLen : Nat := ind.length.toNat - macBeaconVariablePartOft

/-- The frame is a probe response. -/
def isProbersp : Bool := ind.frameControl &&& macFctrlTypesubtypeMask = macFctrlProbersp

end ScanInd

/-- `rw_ieee80211_get_chan_id`: the 14 channels of the 2.4 GHz band, or 0. -/
def rwIeee80211GetChanId (freq : Nat) : Nat :=
  if freq = 2484 then 14
  else if 2412 ≤ freq ∧ freq ≤ 2472 ∧ (freq - 2412) % 5 = 0 then (freq - 2412) / 5 + 1
  else 0

def rwIeee80211IsScanRstInCountrycode (country : CountryCode) (chan : Nat) : Bool :=
  if ¬country.manual then true
  else if chan < country.schan ∨
      (country.schan + country.nchan + 0xFFFFFFFF) % 0x100000000 < chan then
    false
  else true

/-- The channel of a frame and whether it was received on it; `none` drops the frame. -/
def channelOf (env : Env) (ind : ScanInd) : Option (Nat × Bool) :=
  match env.macIeFind ind.payload macBeaconVariablePartOft ind.viesLen macEltidDs with
  | some elmtAddr =>
    let chann := (ind.payload (elmtAddr + macDsChannelOft)).toNat
    if rwIeee80211IsScanRstInCountrycode env.country chann = false then none
    else some (chann, chann = rwIeee80211GetChanId ind.centerFreq)
  | none => some (rwIeee80211GetChanId ind.centerFreq, false)

/-- The SSID that is copied into an item: at most 32 bytes, the rest zero. -/
def ssidOf (env : Env) (ind : ScanInd) : List UInt8 :=
  match env.macIeFind ind.payload macBeaconVariablePartOft ind.viesLen macEltidSsid with
  | some elmtAddr =>
    let ssidLen := min (ind.payload (elmtAddr + macSsidLenOft)).toNat macSsidLen
    bytes ind.payload (elmtAddr + macSsidSsidOft) ssidLen ++
      List.replicate (macSsidLen - ssidLen) 0
  | none => List.replicate macSsidLen 0

/-- The item that is made of a frame with the element data `ies`. -/
def itemOf (env : Env) (ind : ScanInd) (chann : Nat) (onChannel : Bool) (ies : List UInt8) :
    StaScanRes where
  bssid := ind.bssid
  ssid := ssidOf env ind
  onChannel := onChannel
  channel := chann
  isProbersp := ind.isProbersp
  beaconInt := ind.beaconInt
  caps := ind.capabInfo
  level := ind.rssi.toInt
  security := env.getSecurityTypeFromIe ind.payload macBeaconVariablePartOft ind.viesLen
    ind.capabInfo
  tsf := ind.timestamp
  ieLen := ies.length
  ies := ies

/-! ## The table -/

/-- The pointers in the shell at `ptr`. -/
def shellAt (heap : Heap Block) (ptr : Nat) : Option (List Nat) :=
  match heap.block ptr with
  | some (.shell res) => some res
  | _ => none

/-- The item at `ptr`. -/
def itemAt (heap : Heap Block) (ptr : Nat) : Option StaScanRes :=
  match heap.block ptr with
  | some (.item item) => some item
  | _ => none

/-- `sr_free_all`: the items, then the shell. -/
def srFreeAll (heap : Heap Block) (ptr : Nat) : Option (Heap Block) := do
  let res ← shellAt heap ptr
  let heap ← heap.freeAll res
  heap.free ptr

/-- `sr_release_scan_results`, with `wpa_clear_scan_results`. -/
def srReleaseScanResults (s : State) (ptr : Option Nat) : Option State := do
  let heap ← match ptr with
    | some ptr => srFreeAll s.heap ptr
    | none => some s.heap
  return { heap := heap, scanRstSetPtr := none, resultfulScanCfm := false,
           sScanResultUploadPtr := none }

/-- `sort_scan_result`. The levels are read through the pointers. -/
def sortScanResult (heap : Heap Block) (ptr : Nat) : Option (Heap Block) := do
  let res ← shellAt heap ptr
  if res.all fun p => (itemAt heap p).isSome then
    heap.store ptr (.shell (exchangeSort (fun p => ((itemAt heap p).elim 0 (·.level))) res))
  else none

/-- `mhdr_scanu_start_cfm`, with `wpa_buffer_scan_results`; what the registered callback does
with the table is a message of its own. -/
def mhdrScanuStartCfm (s : State) : Option State :=
  match s.scanRstSetPtr with
  | some ptr => do
    let heap ← sortScanResult s.heap ptr
    return { s with heap := heap, sScanResultUploadPtr := some ptr }
  | none => some s

/-- What the search for the BSSID of a frame decides: leave the table, or put the new item into
a slot or behind the last. -/
inductive Verdict
  | exit
  | put (replaceIndex : Option Nat)
  deriving DecidableEq, Repr

/-- The level of the item at `p` is raised to that of a stronger frame. -/
def updateRssi (ind : ScanInd) (heap : Heap Block) (p : Nat) (entry : StaScanRes) :
    Option (Heap Block) :=
  if entry.level < ind.rssi.toInt then heap.store p (.item { entry with level := ind.rssi.toInt })
  else some heap

/-- The loop over the slots from `i` on. -/
def checkDuplicate (ind : ScanInd) (onChannel : Bool) :
    Heap Block → List Nat → Nat → Option Nat → Option (Heap Block × Verdict)
  | heap, [], _, replaceIndex => some (heap, .put replaceIndex)
  | heap, p :: ps, i, replaceIndex => do
    let entry ← itemAt heap p
    if ind.bssid = entry.bssid then
      if onChannel = false then
        return (heap, .exit)
      else if entry.onChannel then do
        let heap ← updateRssi ind heap p entry
        if ind.isProbersp ∧ entry.isProbersp = false then
          checkDuplicate ind onChannel heap ps (i + 1) (some i)
        else
          return (heap, .exit)
      else
        checkDuplicate ind onChannel heap ps (i + 1) (some i)
    else
      checkDuplicate ind onChannel heap ps (i + 1) replaceIndex

/-- The new item at `item` goes into a slot of the shell. -/
def putItem (heap : Heap Block) (ptr item : Nat) (replaceIndex : Option Nat) :
    Option (Heap Block) := do
  let res ← shellAt heap ptr
  match replaceIndex with
  | some i =>
    let old ← res[i]?
    let heap ← heap.free old
    heap.store ptr (.shell (res.set i item))
  | none => if res.length < maxBssList then heap.store ptr (.shell (res ++ [item])) else none

/-- Which of the two allocations of a `SCANU_RESULT_IND` succeed. -/
structure Allocs where
  ies : Bool
  item : Bool
  deriving DecidableEq, Repr

/-- The item with the element data is made and put into the table. -/
def addItem (env : Env) (ind : ScanInd) (allocs : Allocs) (heap : Heap Block) (ptr chann : Nat)
    (onChannel : Bool) (replaceIndex : Option Nat) (ies : List UInt8) : Option (Heap Block) :=
  if allocs.item then
    putItem (heap.malloc (.item (itemOf env ind chann onChannel ies))) ptr heap.next replaceIndex
  else some heap

def mhdrScanuResultInd (env : Env) (ind : ScanInd) (allocs : Allocs) (heap : Heap Block)
    (ptr : Nat) : Option (Heap Block) := do
  let res ← shellAt heap ptr
  if maxBssList ≤ res.length then
    return heap
  else match channelOf env ind with
    | none => return heap
    | some (chann, onChannel) => do
      match ← checkDuplicate ind onChannel heap res 0 none with
      | (heap, .exit) => return heap
      | (heap, .put replaceIndex) =>
        if env.wpaIsScanOnly then
          if allocs.ies then do
            let data := env.wlanGetBssBeaconIes ind.payload macBeaconVariablePartOft ind.viesLen
            let ies := heap.next
            let heap ← addItem env ind allocs (heap.malloc (.wpabuf data)) ptr chann onChannel
              replaceIndex data
            heap.free ies
          else
            return heap
        else
          addItem env ind allocs heap ptr chann onChannel replaceIndex
            (bytes ind.payload macBeaconVariablePartOft ind.viesLen)

/-! ## The messages -/

/-- A message for `rwnx_handle_recv_msg`, or the release of the results. -/
inductive Msg
  | scanuStartCfm
  | scanuResultInd (ind : ScanInd) (allocs : Allocs)
  | smConnectInd
  | srReleaseScanResults

/-- The table of a confirmed scan is released before the first result of the next one. -/
def tableForResult (s : State) : Option State :=
  if s.resultfulScanCfm ∧ s.scanRstSetPtr.isSome then srReleaseScanResults s s.scanRstSetPtr
  else some s

/-- The shell that a result is put into, a new one where there is none; `sr_malloc_shell` asserts
that there is memory for it. -/
def ensureShell (s : State) : State × Nat :=
  match s.scanRstSetPtr with
  | some ptr => (s, ptr)
  | none =>
    ({ s with heap := s.heap.malloc (.shell []), scanRstSetPtr := some s.heap.next }, s.heap.next)

/-- A scan is confirmed with a table. -/
def setResultful (s : State) : State :=
  if s.scanRstSetPtr.isSome then { s with resultfulScanCfm := true } else s

def rwnxHandleRecvMsg (env : Env) : Machine State Msg Unit
  | s, .scanuStartCfm => do
    return (← mhdrScanuStartCfm (setResultful s), ())
  | s, .scanuResultInd ind allocs => do
    let s ← tableForResult s
    let (s, ptr) := ensureShell s
    let heap ← mhdrScanuResultInd env ind allocs s.heap ptr
    return ({ s with heap := heap }, ())
  | s, .smConnectInd =>
    if s.scanRstSetPtr.isSome then (srReleaseScanResults s s.scanRstSetPtr).map (·, ())
    else some (s, ())
  | s, .srReleaseScanResults => (srReleaseScanResults s s.scanRstSetPtr).map (·, ())

def start : State := ⟨Heap.empty, none, false, none⟩

end TuyaSdk.ScanResult
