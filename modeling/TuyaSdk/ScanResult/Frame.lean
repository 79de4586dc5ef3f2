import TuyaSdk.Lib.Bytes
import TuyaSdk.ScanResult.Messages

/-!
# What a scan result reads of the frame

The payload of a `SCANU_RESULT_IND` is `length` bytes, and what lies behind it is some other memory.
`mhdr_scanu_result_ind` takes the elements that `mac_ie_find` finds as they are, and the length of
the variable part from an unchecked subtraction (`frameOk_iff`). The functions of the supplicant
check each element against the range (`forEachElementId_inside`).
-/

namespace TuyaSdk.ScanResult

open TuyaSdk.Lib

/-- The addresses of `n` bytes. -/
def span (a n : Nat) : List Nat := List.range' a n

theorem mem_span {a n k : Nat} : k ∈ span a n ↔ a ≤ k ∧ k < a + n := List.mem_range'_1

/-! ## The elements of the supplicant -/

/-- `for_each_element_id` from `elem` on, until `pick` takes an element: the address of that
element, and the addresses that are read. `pickReads` are those that `pick` reads. -/
def forEachElementId (mem : Nat → UInt8) (data : Nat) (len : Int) (eid : UInt8) (pick : Nat → Bool)
    (pickReads : Nat → List Nat) (elem : Nat) : Option Nat × List Nat :=
  if len - elem < 2 then (none, [])
  else if len - elem < 2 + (mem (data + elem + 1)).toNat then (none, [data + elem + 1])
  else if mem (data + elem) = eid then
    if pick (data + elem) then
      (some (data + elem), (data + elem + 1) :: (data + elem) :: pickReads (data + elem))
    else
      let r := forEachElementId mem data len eid pick pickReads
        (elem + 2 + (mem (data + elem + 1)).toNat)
      (r.1, (data + elem + 1) :: (data + elem) :: pickReads (data + elem) ++ r.2)
  else
    let r := forEachElementId mem data len eid pick pickReads
      (elem + 2 + (mem (data + elem + 1)).toNat)
    (r.1, (data + elem + 1) :: (data + elem) :: r.2)
termination_by (len - elem).toNat

def wlanEidSsid : UInt8 := 0
def wlanEidRsn : UInt8 := 48
def wlanEidVendorSpecific : UInt8 := 221

def getIe (mem : Nat → UInt8) (ies : Nat) (len : Int) (eid : UInt8) : Option Nat × List Nat :=
  forEachElementId mem ies len eid (fun _ => true) (fun _ => []) 0

/-- `elem->datalen >= 4 && vendor_type == WPA_GET_BE32(elem->data)`, for `WPA_IE_VENDOR_TYPE` -/
def isWpaVendorType (mem : Nat → UInt8) (elem : Nat) : Bool :=
  4 ≤ (mem (elem + 1)).toNat ∧ bytes mem (elem + 2) 4 = [0x00, 0x50, 0xF2, 0x01]

def getVendorIe (mem : Nat → UInt8) (ies : Nat) (len : Int) : Option Nat × List Nat :=
  forEachElementId mem ies len wlanEidVendorSpecific (isWpaVendorType mem)
    (fun elem => if 4 ≤ (mem (elem + 1)).toNat then span (elem + 2) 4 else []) 0

/-- The address lies in the range of `len` bytes from `data`. -/
def InRange (data : Nat) (len : Int) (k : Nat) : Prop := data ≤ k ∧ (k : Int) < data + len

/-- The element at `e` lies in it as a whole. -/
def ElementIn (mem : Nat → UInt8) (data : Nat) (len : Int) (e : Nat) : Prop :=
  data ≤ e ∧ (e : Int) + 2 + (mem (e + 1)).toNat ≤ data + len

/-- The loop reads inside the range, and what it finds lies inside. -/
theorem forEachElementId_inside {mem : Nat → UInt8} {data : Nat} {len : Int} {eid : UInt8}
    {pick : Nat → Bool} {pickReads : Nat → List Nat}
    (hpick : ∀ e, ∀ k ∈ pickReads e, e ≤ k ∧ k < e + 2 + (mem (e + 1)).toNat) (elem : Nat) :
    (∀ k ∈ (forEachElementId mem data len eid pick pickReads elem).2, InRange data len k) ∧
      ∀ e, (forEachElementId mem data len eid pick pickReads elem).1 = some e →
        ElementIn mem data len e := by
  have hhead : ∀ elem : Nat, ¬len - elem < 2 → InRange data len (data + elem + 1) := by
    intro elem h
    constructor <;> omega
  have hid : ∀ elem : Nat, ¬len - elem < 2 → InRange data len (data + elem) := by
    intro elem h
    constructor <;> omega
  have hin : ∀ elem : Nat, ¬len - elem < 2 + (mem (data + elem + 1)).toNat →
      ∀ k ∈ pickReads (data + elem), InRange data len k := by
    intro elem h k hk
    obtain ⟨hge, hlt⟩ := hpick _ k hk
    constructor <;> omega
  fun_induction forEachElementId mem data len eid pick pickReads elem with
  | case1 elem hend =>
    refine ⟨fun k hk => ?_, fun e he => ?_⟩
    · cases hk
    · cases he
  | case2 elem hend hlong =>
    refine ⟨fun k hk => ?_, fun e he => ?_⟩
    · rw [List.mem_singleton.mp hk]
      exact hhead elem hend
    · cases he
  | case3 elem hend hlong hmatch htake =>
    refine ⟨fun k hk => ?_, fun e he => ?_⟩
    · rcases List.mem_cons.mp hk with rfl | hk
      · exact hhead elem hend
      · rcases List.mem_cons.mp hk with rfl | hk
        · exact hid elem hend
        · exact hin elem hlong k hk
    · obtain rfl := Option.some.inj he
      constructor <;> omega
  | case4 elem hend hlong hmatch htake r ih =>
    refine ⟨fun k hk => ?_, ih.2⟩
    rcases List.mem_append.mp hk with hk | hk
    · rcases List.mem_cons.mp hk with rfl | hk
      · exact hhead elem hend
      · rcases List.mem_cons.mp hk with rfl | hk
        · exact hid elem hend
        · exact hin elem hlong k hk
    · exact ih.1 k hk
  | case5 elem hend hlong hmatch r ih =>
    refine ⟨fun k hk => ?_, ih.2⟩
    rcases List.mem_cons.mp hk with rfl | hk
    · exact hhead elem hend
    · rcases List.mem_cons.mp hk with rfl | hk
      · exact hid elem hend
      · exact ih.1 k hk

variable {mem : Nat → UInt8} {data : Nat} {len : Int}

theorem getIe_inside (eid : UInt8) :
    (∀ k ∈ (getIe mem data len eid).2, InRange data len k) ∧
      ∀ e, (getIe mem data len eid).1 = some e → ElementIn mem data len e := by
  apply forEachElementId_inside
  intro e k hk
  cases hk

theorem getVendorIe_inside :
    (∀ k ∈ (getVendorIe mem data len).2, InRange data len k) ∧
      ∀ e, (getVendorIe mem data len).1 = some e → ElementIn mem data len e := by
  apply forEachElementId_inside
  intro e k hk
  split at hk
  · have := mem_span.mp hk
    omega
  · cases hk

theorem ElementIn.inRange {e k : Nat} (h : ElementIn mem data len e) (hge : e ≤ k)
    (hlt : k < e + 2 + (mem (e + 1)).toNat) : InRange data len k := by
  obtain ⟨h1, h2⟩ := h
  constructor <;> omega

/-! ## The reduced elements -/

/-- `struct wpabuf`, with the addresses of the frame that were read for it. -/
structure Wpabuf where
  size : Nat
  data : List UInt8
  reads : List Nat

/-- One element that was looked for goes into the buffer when there is room for it. -/
def Wpabuf.putElement (mem : Nat → UInt8) (buf : Wpabuf) (ie : Option Nat × List Nat) : Wpabuf :=
  match ie.1 with
  | none => { buf with reads := buf.reads ++ ie.2 }
  | some e =>
    let n := (mem (e + 1)).toNat + 2
    if n ≤ buf.size - buf.data.length then
      { buf with data := buf.data ++ bytes mem e n, reads := buf.reads ++ ie.2 ++ span e n }
    else { buf with reads := buf.reads ++ ie.2 ++ [e + 1] }

/-- `wlan_get_bss_beacon_ies`, into a new buffer of 128 bytes. -/
def wlanGetBssBeaconIes (mem : Nat → UInt8) (bcnIe : Nat) (ieLen : Int) : Wpabuf :=
  let buf : Wpabuf := ⟨128, [], []⟩
  let buf := buf.putElement mem (getIe mem bcnIe ieLen wlanEidSsid)
  let buf := buf.putElement mem (getIe mem bcnIe ieLen wlanEidRsn)
  buf.putElement mem (getVendorIe mem bcnIe ieLen)

/-- The buffer is not overfull, and was read from the range. -/
structure Wpabuf.Sound (buf : Wpabuf) (data : Nat) (len : Int) : Prop where
  size : buf.size = 128
  fits : buf.data.length ≤ 128
  reads : ∀ k ∈ buf.reads, InRange data len k

theorem Wpabuf.Sound.putElement {buf : Wpabuf} (h : buf.Sound data len)
    {ie : Option Nat × List Nat} (hreads : ∀ k ∈ ie.2, InRange data len k)
    (hie : ∀ e, ie.1 = some e → ElementIn mem data len e) :
    (buf.putElement mem ie).Sound data len := by
  have hsize := h.size
  have hfits := h.fits
  rw [Wpabuf.putElement]
  cases hfound : ie.1 with
  | none =>
    refine ⟨h.size, h.fits, fun k hk => ?_⟩
    rcases List.mem_append.mp hk with hk | hk
    · exact h.reads k hk
    · exact hreads k hk
  | some e =>
    have hin := hie e hfound
    simp only
    split
    next hroom =>
      refine ⟨h.size, ?_, fun k hk => ?_⟩
      · simp only [List.length_append, bytes, List.length_map, List.length_range]
        omega
      · rcases List.mem_append.mp hk with hk | hk
        · rcases List.mem_append.mp hk with hk | hk
          · exact h.reads k hk
          · exact hreads k hk
        · obtain ⟨hge, hlt⟩ := mem_span.mp hk
          exact hin.inRange hge (by omega)
    next =>
      refine ⟨h.size, h.fits, fun k hk => ?_⟩
      rcases List.mem_append.mp hk with hk | hk
      · rcases List.mem_append.mp hk with hk | hk
        · exact h.reads k hk
        · exact hreads k hk
      · rw [List.mem_singleton.mp hk]
        exact hin.inRange (by omega) (by omega)

theorem wlanGetBssBeaconIes_sound : (wlanGetBssBeaconIes mem data len).Sound data len := by
  have hempty : (⟨128, [], []⟩ : Wpabuf).Sound data len := by
    refine ⟨rfl, Nat.zero_le _, fun k hk => ?_⟩
    cases hk
  refine Wpabuf.Sound.putElement (Wpabuf.Sound.putElement (Wpabuf.Sound.putElement hempty ?_ ?_)
    ?_ ?_) getVendorIe_inside.1 getVendorIe_inside.2
  · exact (getIe_inside wlanEidSsid).1
  · exact (getIe_inside wlanEidSsid).2
  · exact (getIe_inside wlanEidRsn).1
  · exact (getIe_inside wlanEidRsn).2

/-! ## The type of security -/

/-- `wpa_parse_wpa_ie` on an element of `n` bytes: whether what it finds decides the type of
security, and what it reads, which is in the element. -/
structure ParseWpaIe where
  parse : (Nat → UInt8) → Nat → Nat → Bool × List Nat
  inside : ∀ mem e n, ∀ k ∈ (parse mem e n).2, e ≤ k ∧ k < e + n

def ieee80211CapPrivacy : UInt16 := 0x0010

/-- The element that was looked for is parsed. -/
def parseReads (parser : ParseWpaIe) (mem : Nat → UInt8) (ie : Option Nat × List Nat) :
    Bool × List Nat :=
  match ie.1 with
  | none => (false, ie.2)
  | some e =>
    let r := parser.parse mem e (2 + (mem (e + 1)).toNat)
    (r.1, ie.2 ++ (e + 1) :: r.2)

/-- What `get_security_type_from_ie` reads. -/
def securityReads (parser : ParseWpaIe) (mem : Nat → UInt8) (ieStart : Nat) (len : Int)
    (caps : UInt16) : List Nat :=
  if caps &&& ieee80211CapPrivacy = 0 then []
  else
    let rsn := parseReads parser mem (getIe mem ieStart len wlanEidRsn)
    if rsn.1 then rsn.2 else rsn.2 ++ (parseReads parser mem (getVendorIe mem ieStart len)).2

theorem parseReads_inside {parser : ParseWpaIe} {ie : Option Nat × List Nat}
    (hreads : ∀ k ∈ ie.2, InRange data len k)
    (hie : ∀ e, ie.1 = some e → ElementIn mem data len e) :
    ∀ k ∈ (parseReads parser mem ie).2, InRange data len k := by
  intro k hk
  rw [parseReads] at hk
  cases hfound : ie.1 with
  | none =>
    rw [hfound] at hk
    exact hreads k hk
  | some e =>
    rw [hfound] at hk
    have hin := hie e hfound
    rcases List.mem_append.mp hk with hk | hk
    · exact hreads k hk
    · rcases List.mem_cons.mp hk with rfl | hk
      · exact hin.inRange (by omega) (by omega)
      · obtain ⟨hge, hlt⟩ := parser.inside _ _ _ k hk
        exact hin.inRange hge (by omega)

theorem securityReads_inside {parser : ParseWpaIe} {caps : UInt16} :
    ∀ k ∈ securityReads parser mem data len caps, InRange data len k := by
  intro k hk
  have hrsn : ∀ k ∈ (parseReads parser mem (getIe mem data len wlanEidRsn)).2,
      InRange data len k :=
    parseReads_inside (getIe_inside wlanEidRsn).1 (getIe_inside wlanEidRsn).2
  have hwpa : ∀ k ∈ (parseReads parser mem (getVendorIe mem data len)).2, InRange data len k :=
    parseReads_inside getVendorIe_inside.1 getVendorIe_inside.2
  simp only [securityReads] at hk
  split at hk
  next => cases hk
  next =>
    split at hk
    next => exact hrsn k hk
    next =>
      rcases List.mem_append.mp hk with hk | hk
      · exact hrsn k hk
      · exact hwpa k hk

/-! ## The handler -/

/-- `sizeof(struct sta_scan_res)` -/
def sizeofStaScanRes : Nat := 68

/-- `vies_len` as it is computed, with 32 bits. -/
def ScanInd.viesLen32 (ind : ScanInd) : Nat := sub32 ind.length.toNat macBeaconVariablePartOft

/-- `(int)vies_len` -/
def ScanInd.viesLenInt (ind : ScanInd) : Int := (ind.length.toNat : Int) - macBeaconVariablePartOft

/-- `mac_ie_find` over the variable part, whose length is cut to 16 bits. -/
def findElement (env : Env) (ind : ScanInd) (id : UInt8) : Option Nat :=
  env.macIeFind ind.payload macBeaconVariablePartOft (ind.viesLen32 % 2 ^ 16) id

/-- An item in its block: the size of the block, `ie_len`, and the ranges that were written, first
of all by `os_zalloc`. -/
structure Stored where
  size : Nat
  ieLen : Nat
  written : List (Nat × Nat)

/-- What the handler reads of the payload, and the item that it stores. -/
structure Access where
  reads : List Nat
  stored : Option Stored

/-- The channel of the frame and whether it was received on it; `none` drops the frame. -/
def dsChannel (env : Env) (ind : ScanInd) : Option (Nat × Bool) :=
  match findElement env ind macEltidDs with
  | some elmtAddr =>
    let chann := (ind.payload (elmtAddr + macDsChannelOft)).toNat
    if rwIeee80211IsScanRstInCountrycode env.country chann = false then none
    else some (chann, chann = rwIeee80211GetChanId ind.centerFreq)
  | none => some (rwIeee80211GetChanId ind.centerFreq, false)

/-- A frame that is not shorter than its fixed part has the channel that the table is given. -/
theorem dsChannel_eq_channelOf {env : Env} {ind : ScanInd}
    (h : macBeaconVariablePartOft ≤ ind.length.toNat) : dsChannel env ind = channelOf env ind := by
  have hlt := ind.length.toNat_lt
  have hvies : ind.viesLen32 % 2 ^ 16 = ind.viesLen := by
    rw [ScanInd.viesLen32, sub32_of_le h (by omega), ScanInd.viesLen]
    omega
  rw [dsChannel, findElement, hvies]
  rfl

def dsReads (env : Env) (ind : ScanInd) : List Nat :=
  match findElement env ind macEltidDs with
  | some elmtAddr => [elmtAddr + macDsChannelOft]
  | none => []

/-- The SSID is copied in the same way for the message of a dropped frame and for an item. -/
def ssidReads (env : Env) (ind : ScanInd) : List Nat :=
  match findElement env ind macEltidSsid with
  | some elmtAddr =>
    (elmtAddr + macSsidLenOft) :: span (elmtAddr + macSsidSsidOft)
      (min (ind.payload (elmtAddr + macSsidLenOft)).toNat macSsidLen)
  | none => []

/-- `bssid`, `beacon_int`, `capab_info` and `timestamp` -/
def fixedReads : List Nat := span 16 ethAlen ++ span 32 2 ++ span 34 2 ++ span 24 8

/-- The item is allocated and filled, with `ieLen` bytes behind the structure that come from the
addresses `copied` of the payload. -/
def fillItem (parser : ParseWpaIe) (env : Env) (ind : ScanInd) (allocs : Allocs) (reads : List Nat)
    (ieLen : Nat) (copied : List Nat) : Access :=
  if allocs.item then
    { reads := reads ++ ssidReads env ind ++ fixedReads ++ copied ++
        securityReads parser ind.payload macBeaconVariablePartOft ind.viesLenInt ind.capabInfo
      stored := some
        { size := u32 (ieLen + sizeofStaScanRes)
          ieLen := ieLen
          written := [(0, u32 (ieLen + sizeofStaScanRes)), (sizeofStaScanRes, ieLen)] } }
  else ⟨reads, none⟩

/-- The frame becomes an item, with its reduced elements or with all of them. -/
def storeFrame (parser : ParseWpaIe) (env : Env) (ind : ScanInd) (allocs : Allocs)
    (reads : List Nat) : Access :=
  if env.wpaIsScanOnly then
    if allocs.ies then
      let ies := wlanGetBssBeaconIes ind.payload macBeaconVariablePartOft ind.viesLenInt
      fillItem parser env ind allocs (reads ++ ies.reads) ies.data.length []
    else ⟨reads, none⟩
  else
    fillItem parser env ind allocs reads ind.viesLen32
      (span macBeaconVariablePartOft ind.viesLen32)

/-- `mhdr_scanu_result_ind`, for what it reads of the payload and what it allocates. -/
def resultIndAccess (parser : ParseWpaIe) (env : Env) (ind : ScanInd) (allocs : Allocs)
    (heap : Heap Block) (ptr : Nat) : Option Access := do
  let res ← shellAt heap ptr
  if maxBssList ≤ res.length then
    return ⟨[], none⟩
  else
    let reads := span 0 2 ++ dsReads env ind
    match dsChannel env ind with
    | none => return ⟨reads ++ ssidReads env ind, none⟩
    | some ch =>
      let reads := reads ++ if res = [] then [] else span 16 ethAlen
      let r ← checkDuplicate ind ch.2 heap res 0 none
      match r.2 with
      | .exit => return ⟨reads, none⟩
      | .put _ => return storeFrame parser env ind allocs reads

/-! ## The bounds of the frame -/

/-- The block has room for the structure and the element data, and all of that was written. -/
def Stored.Ok (stored : Stored) : Prop :=
  sizeofStaScanRes + stored.ieLen ≤ stored.size ∧
    ∀ k < sizeofStaScanRes + stored.ieLen, ∃ w ∈ stored.written, w.1 ≤ k ∧ k < w.1 + w.2

/-- Only a payload of `length` bytes is read, and the item that is stored is whole. -/
def Access.Ok (access : Access) (length : Nat) : Prop :=
  (∀ k ∈ access.reads, k < length) ∧ ∀ stored, access.stored = some stored → stored.Ok

/-- The handler reads only the payload, and the item that it stores is whole. -/
def FrameOk (parser : ParseWpaIe) (env : Env) (ind : ScanInd) (allocs : Allocs)
    (heap : Heap Block) (ptr : Nat) : Prop :=
  ∃ access, resultIndAccess parser env ind allocs heap ptr = some access ∧
    access.Ok ind.length.toNat

/-- The DS element, if there is one, is in the payload with its channel. -/
def DsInside (env : Env) (ind : ScanInd) : Prop :=
  ∀ e, findElement env ind macEltidDs = some e → e + macDsChannelOft < ind.length.toNat

/-- The SSID element, if there is one, is in the payload with the bytes that are copied. -/
def SsidInside (env : Env) (ind : ScanInd) : Prop :=
  ∀ e, findElement env ind macEltidSsid = some e →
    e + macSsidSsidOft + min (ind.payload (e + macSsidLenOft)).toNat macSsidLen ≤ ind.length.toNat

/-- The frame becomes an item: it is no duplicate that is passed over, and there is memory. -/
def BecomesItem (env : Env) (ind : ScanInd) (allocs : Allocs) (heap : Heap Block) (res : List Nat)
    (onChannel : Bool) : Prop :=
  (∃ heap' slot, checkDuplicate ind onChannel heap res 0 none = some (heap', .put slot)) ∧
    (env.wpaIsScanOnly → allocs.ies) ∧ allocs.item

/-- The frame is as long as its fixed part and the elements that are used of it, as far as the
handler gets with it. -/
def LongEnough (env : Env) (ind : ScanInd) (allocs : Allocs) (heap : Heap Block)
    (res : List Nat) : Prop :=
  maxBssList ≤ res.length ∨
    2 ≤ ind.length.toNat ∧ DsInside env ind ∧
      match dsChannel env ind with
      | none => SsidInside env ind
      | some ch => (res ≠ [] → 22 ≤ ind.length.toNat) ∧
          (BecomesItem env ind allocs heap res ch.2 →
            macBeaconVariablePartOft ≤ ind.length.toNat ∧ SsidInside env ind)

variable {env : Env} {ind : ScanInd} {allocs : Allocs} {heap : Heap Block} {ptr : Nat}
  {es : List Entry} {parser : ParseWpaIe} {reads : List Nat}

theorem span_lt_iff {a n length : Nat} :
    (∀ k ∈ span a n, k < length) ↔ n = 0 ∨ a + n ≤ length := by
  constructor
  · intro h
    by_cases hn : n = 0
    · exact Or.inl hn
    · have hlast := h (a + n - 1) (mem_span.mpr (by omega))
      right
      omega
  · intro h k hk
    obtain ⟨hge, hlt⟩ := mem_span.mp hk
    omega

theorem dsReads_lt_iff : (∀ k ∈ dsReads env ind, k < ind.length.toNat) ↔ DsInside env ind := by
  rw [dsReads, DsInside]
  cases findElement env ind macEltidDs with
  | none =>
    refine iff_of_true (fun k hk => ?_) (fun e he => ?_)
    · cases hk
    · cases he
  | some e =>
    constructor
    · intro h e' he
      rw [← Option.some.inj he]
      exact h _ List.mem_cons_self
    · intro h k hk
      rw [List.mem_singleton.mp hk]
      exact h e rfl

theorem ssidReads_lt_iff :
    (∀ k ∈ ssidReads env ind, k < ind.length.toNat) ↔ SsidInside env ind := by
  rw [ssidReads, SsidInside]
  cases findElement env ind macEltidSsid with
  | none =>
    refine iff_of_true (fun k hk => ?_) (fun e he => ?_)
    · cases hk
    · cases he
  | some e =>
    have hone : macSsidLenOft = 1 := rfl
    have htwo : macSsidSsidOft = 2 := rfl
    simp only [List.forall_mem_cons, span_lt_iff, Option.some.injEq, forall_eq']
    omega

theorem fixedReads_lt_iff {length : Nat} :
    (∀ k ∈ fixedReads, k < length) ↔ macBeaconVariablePartOft ≤ length := by
  have hoft : macBeaconVariablePartOft = 36 := rfl
  have hlen : ethAlen = 6 := rfl
  simp only [fixedReads, List.forall_mem_append, span_lt_iff]
  omega

theorem bssidReads_lt_iff {res : List Nat} {length : Nat} :
    (∀ k ∈ (if res = [] then [] else span 16 ethAlen), k < length) ↔
      (res ≠ [] → 22 ≤ length) := by
  have hlen : ethAlen = 6 := rfl
  by_cases hres : res = []
  · rw [if_pos hres]
    refine iff_of_true (fun k hk => ?_) (fun h => absurd hres h)
    cases hk
  · rw [if_neg hres, span_lt_iff]
    constructor
    · intro h _
      omega
    · intro h
      have := h hres
      omega

theorem ok_of_reads {length : Nat} :
    (⟨reads, none⟩ : Access).Ok length ↔ ∀ k ∈ reads, k < length := by
  refine ⟨And.left, fun h => ⟨h, fun stored hs => ?_⟩⟩
  cases hs

/-- What is read from the variable part is read from the payload. -/
theorem inRange_lt {k : Nat} (h : InRange macBeaconVariablePartOft ind.viesLenInt k) :
    k < ind.length.toNat := by
  obtain ⟨-, hlt⟩ := h
  rw [ScanInd.viesLenInt] at hlt
  omega

/-- A block that was allocated for the structure and the data is written in full. -/
theorem stored_ok {ieLen : Nat} (hsize : ieLen + sizeofStaScanRes < 2 ^ 32) :
    (⟨u32 (ieLen + sizeofStaScanRes), ieLen,
      [(0, u32 (ieLen + sizeofStaScanRes)), (sizeofStaScanRes, ieLen)]⟩ : Stored).Ok := by
  have hu := u32_of_lt hsize
  refine ⟨?_, fun k hk => ⟨_, List.mem_cons_self, Nat.zero_le k, ?_⟩⟩
  · change sizeofStaScanRes + ieLen ≤ u32 (ieLen + sizeofStaScanRes)
    omega
  · change k < 0 + u32 (ieLen + sizeofStaScanRes)
    have hk : k < sizeofStaScanRes + ieLen := hk
    omega

/-- The item is well when the frame has the fixed part and the SSID in it. -/
theorem fillItem_ok_iff {ieLen : Nat} {copied : List Nat}
    (hcopied : macBeaconVariablePartOft ≤ ind.length.toNat →
      (∀ k ∈ copied, k < ind.length.toNat) ∧ ieLen + sizeofStaScanRes < 2 ^ 32) :
    (fillItem parser env ind allocs reads ieLen copied).Ok ind.length.toNat ↔
      (∀ k ∈ reads, k < ind.length.toNat) ∧
        (allocs.item → macBeaconVariablePartOft ≤ ind.length.toNat ∧ SsidInside env ind) := by
  rw [fillItem]
  by_cases halloc : allocs.item = true
  · rw [if_pos halloc]
    constructor
    · rintro ⟨hreads, -⟩
      simp only [List.forall_mem_append] at hreads
      obtain ⟨⟨⟨⟨hbefore, hssid⟩, hfixed⟩, -⟩, -⟩ := hreads
      exact ⟨hbefore, fun _ => ⟨fixedReads_lt_iff.mp hfixed, ssidReads_lt_iff.mp hssid⟩⟩
    · rintro ⟨hbefore, hitem⟩
      obtain ⟨hlen, hssid⟩ := hitem halloc
      obtain ⟨hcopy, hsize⟩ := hcopied hlen
      refine ⟨?_, fun stored hs => ?_⟩
      · simp only [List.forall_mem_append]
        exact ⟨⟨⟨⟨hbefore, ssidReads_lt_iff.mpr hssid⟩, fixedReads_lt_iff.mpr hlen⟩, hcopy⟩,
          fun k hk => inRange_lt (securityReads_inside k hk)⟩
      · obtain rfl := Option.some.inj hs
        exact stored_ok hsize
  · rw [if_neg halloc, ok_of_reads]
    exact ⟨fun h => ⟨h, fun hitem => absurd hitem halloc⟩, And.left⟩

/-- The two paths from which an item is filled. -/
theorem storeFrame_ok_iff {heap' : Heap Block} {slot : Option Nat} {res : List Nat}
    {onChannel : Bool}
    (hcheck : checkDuplicate ind onChannel heap res 0 none = some (heap', .put slot)) :
    (storeFrame parser env ind allocs reads).Ok ind.length.toNat ↔
      (∀ k ∈ reads, k < ind.length.toNat) ∧
        (BecomesItem env ind allocs heap res onChannel →
          macBeaconVariablePartOft ≤ ind.length.toNat ∧ SsidInside env ind) := by
  have hput : ∃ heap' slot, checkDuplicate ind onChannel heap res 0 none =
      some (heap', .put slot) := ⟨heap', slot, hcheck⟩
  have hsound : (wlanGetBssBeaconIes ind.payload macBeaconVariablePartOft ind.viesLenInt).Sound
      macBeaconVariablePartOft ind.viesLenInt := wlanGetBssBeaconIes_sound
  have hsize : sizeofStaScanRes = 68 := rfl
  rw [storeFrame]
  by_cases hscan : env.wpaIsScanOnly = true
  · rw [if_pos hscan]
    by_cases hies : allocs.ies = true
    · have hfits := hsound.fits
      rw [if_pos hies, fillItem_ok_iff]
      · rw [List.forall_mem_append, and_iff_left fun k hk => inRange_lt (hsound.reads k hk)]
        refine and_congr_right fun _ => ⟨fun h hitem => h hitem.2.2, fun h halloc => ?_⟩
        exact h ⟨hput, fun _ => hies, halloc⟩
      · intro _
        refine ⟨fun k hk => ?_, by omega⟩
        cases hk
    · rw [if_neg hies, ok_of_reads]
      refine ⟨fun h => ⟨h, fun hitem => absurd (hitem.2.1 hscan) hies⟩, And.left⟩
  · rw [if_neg hscan, fillItem_ok_iff]
    · refine and_congr_right fun _ => ⟨fun h hitem => h hitem.2.2, fun h halloc => ?_⟩
      exact h ⟨hput, fun h => absurd h hscan, halloc⟩
    · intro hlen
      have hlt := ind.length.toNat_lt
      have hvies : ind.viesLen32 = ind.length.toNat - macBeaconVariablePartOft :=
        sub32_of_le hlen (by omega)
      refine ⟨span_lt_iff.mpr (Or.inr (by omega)), by omega⟩

theorem firstReads_lt_iff : (∀ k ∈ span 0 2 ++ dsReads env ind, k < ind.length.toNat) ↔
    2 ≤ ind.length.toNat ∧ DsInside env ind := by
  rw [List.forall_mem_append, span_lt_iff, dsReads_lt_iff]
  exact and_congr_left fun _ => by omega

/-- A frame that is dropped for its channel. -/
theorem frameOk_dropped_iff (h : Table heap ptr es []) (hroom : ¬maxBssList ≤ es.length)
    (hch : dsChannel env ind = none) :
    FrameOk parser env ind allocs heap ptr ↔
      2 ≤ ind.length.toNat ∧ DsInside env ind ∧ SsidInside env ind := by
  rw [FrameOk, resultIndAccess, h.shell]
  simp only [Option.bind_eq_bind, Option.bind_some, List.length_map, hch]
  rw [if_neg hroom]
  simp only [Option.pure_def, Option.some.injEq, exists_eq_left', ok_of_reads]
  rw [List.forall_mem_append, firstReads_lt_iff, ssidReads_lt_iff, and_assoc]

/-- A frame of a channel that is scanned. -/
theorem frameOk_taken_iff (h : Table heap ptr es []) (hroom : ¬maxBssList ≤ es.length)
    {ch : Nat × Bool} (hch : dsChannel env ind = some ch) :
    FrameOk parser env ind allocs heap ptr ↔
      2 ≤ ind.length.toNat ∧ DsInside env ind ∧ (es.map Prod.fst ≠ [] → 22 ≤ ind.length.toNat) ∧
        (BecomesItem env ind allocs heap (es.map Prod.fst) ch.2 →
          macBeaconVariablePartOft ≤ ind.length.toNat ∧ SsidInside env ind) := by
  obtain ⟨heap', es', verdict, hcheck, -, -, -⟩ := h.checkDuplicate_eq ind ch.2
  have hreads : (∀ k ∈ span 0 2 ++ dsReads env ind ++
      (if es.map Prod.fst = [] then [] else span 16 ethAlen), k < ind.length.toNat) ↔
      2 ≤ ind.length.toNat ∧ DsInside env ind ∧
        (es.map Prod.fst ≠ [] → 22 ≤ ind.length.toNat) := by
    rw [List.forall_mem_append, firstReads_lt_iff, bssidReads_lt_iff, and_assoc]
  rw [FrameOk, resultIndAccess, h.shell]
  simp only [Option.bind_eq_bind, Option.bind_some, List.length_map, hch, hcheck]
  rw [if_neg hroom]
  cases verdict with
  | exit =>
    have hnot : ¬BecomesItem env ind allocs heap (es.map Prod.fst) ch.2 := by
      rintro ⟨⟨heap₁, slot, hput⟩, -⟩
      rw [hcheck] at hput
      cases hput
    simp only [Option.pure_def, Option.some.injEq, exists_eq_left', ok_of_reads]
    rw [hreads]
    refine and_congr_right fun _ => and_congr_right fun _ => ⟨fun h => ⟨h, fun hitem => ?_⟩,
      And.left⟩
    exact absurd hitem hnot
  | put slot =>
    simp only [Option.pure_def, Option.some.injEq, exists_eq_left']
    rw [storeFrame_ok_iff hcheck, hreads, and_assoc, and_assoc]

/-- The handler keeps to the payload, and stores a whole item, just when the frame is long enough
for what is used of it: neither the fixed part nor the elements are checked against the length. -/
theorem frameOk_iff (parser : ParseWpaIe) (env : Env) (ind : ScanInd) (allocs : Allocs)
    (h : Table heap ptr es []) :
    FrameOk parser env ind allocs heap ptr ↔
      LongEnough env ind allocs heap (es.map Prod.fst) := by
  rw [LongEnough, List.length_map]
  by_cases hfull : maxBssList ≤ es.length
  · refine iff_of_true ⟨⟨[], none⟩, ?_, ok_of_reads.mpr fun k hk => ?_⟩ (Or.inl hfull)
    · rw [resultIndAccess, h.shell]
      simp only [Option.bind_eq_bind, Option.bind_some, List.length_map]
      rw [if_pos hfull]
      rfl
    · cases hk
  · rw [or_iff_right hfull]
    cases hch : dsChannel env ind with
    | none => exact frameOk_dropped_iff h hfull hch
    | some ch => exact frameOk_taken_iff h hfull hch

/-- A search for the first element of the range. -/
def findFirst : Env where
  macIeFind := fun mem addr len id => if 2 ≤ len ∧ mem addr = id then some addr else none
  getSecurityTypeFromIe := fun _ _ _ _ => 0
  wlanGetBssBeaconIes := fun _ _ _ => []
  wpaIsScanOnly := false
  country := ⟨false, 1, 13⟩

/-- A beacon of 39 bytes, with a DS element for channel 6 at its end. -/
def dsBeacon : ScanInd where
  length := 39
  centerFreq := 2437
  rssi := -40
  payload := fun a => if a = 36 then 3 else if a = 37 then 1 else if a = 38 then 6 else 0

/-- A parser that reads nothing. -/
def noParse : ParseWpaIe where
  parse := fun _ _ _ => (false, [])
  inside := fun _ _ _ _ hk => absurd hk List.not_mem_nil

theorem frameOk_dsBeacon :
    FrameOk noParse findFirst dsBeacon ⟨true, true⟩ (Heap.empty.malloc (.shell [])) 0 := by
  have htable : Table (Heap.empty.malloc (.shell [])) (Heap.empty : Heap Block).next [] [] :=
    Table.new Heap.not_live_empty
  have hds : findElement findFirst dsBeacon macEltidDs = some 36 := by decide
  have hssid : findElement findFirst dsBeacon macEltidSsid = none := by decide
  have hch : dsChannel findFirst dsBeacon = some (6, true) := by decide
  refine (frameOk_iff noParse findFirst dsBeacon ⟨true, true⟩ htable).mpr
    (Or.inr ⟨by decide, ?_, ?_⟩)
  · intro e he
    rw [hds] at he
    rw [← Option.some.inj he]
    decide
  · rw [hch]
    refine ⟨fun hres => absurd rfl hres, fun _ => ⟨by decide, fun e he => ?_⟩⟩
    rw [hssid] at he
    cases he

/-- The same frame, cut behind the header of the element. -/
theorem not_frameOk_cut :
    ¬FrameOk noParse findFirst { dsBeacon with length := 38 } ⟨true, true⟩
      (Heap.empty.malloc (.shell [])) 0 := by
  have htable : Table (Heap.empty.malloc (.shell [])) (Heap.empty : Heap Block).next [] [] :=
    Table.new Heap.not_live_empty
  have hch : dsChannel findFirst { dsBeacon with length := 38 } = some (6, true) := by decide
  intro hok
  obtain ⟨-, hds, -⟩ := (frameOk_taken_iff htable (by decide) hch).mp hok
  exact absurd (hds 36 (by decide)) (by decide)

end TuyaSdk.ScanResult
