import TuyaSdk.Lib.Bytes
import TuyaSdk.Lib.Digits

/-!
# The signal strength and the stations of the WiFi adapter

`tkl_wifi_station_get_conn_ap_rssi` and `tkl_wifi_get_all_sta_info`. What they ask the driver for is
a parameter: five link states, and a table of stations with the memory for its copy.
-/

namespace TuyaSdk.TklWifi
open TuyaSdk.Lib

/-- The codes that the two return: the named ones, and those of the driver. -/
inductive OperateRet where
  /-- `OPRT_OK` -/
  | ok
  /-- `OPRT_COM_ERROR` -/
  | comError
  /-- `OPRT_MALLOC_FAILED` -/
  | mallocFailed
  /-- `OPRT_INVALID_PARM` -/
  | invalidParm
  /-- an error of `bk_wlan_get_link_status` -/
  | status (code : Int)
  deriving DecidableEq, Repr

/-! ## The signal strength -/

/-- What `bk_wlan_get_link_status` comes to: an error, or `wifi_strength`. -/
abbrev LinkStatus := Except Int (BitVec 8)

/-- The variables of `tkl_wifi_station_get_conn_ap_rssi`, and the entries of `rssi` that it has
read. -/
structure RssiVars where
  ret : OperateRet
  tmpRssi : Int
  sumRssi : Int
  maxRssi : Int
  minRssi : Int
  errorCnt : Nat
  reads : List Nat
  deriving DecidableEq, Repr

/-- Their values before the loop. -/
def rssiStart : RssiVars := ⟨.ok, 0, 0, -128, 127, 0, []⟩

/-- Pass `i` of the loop. The sum has 16 bits. -/
def rssiPass (rssi : Mem) (i : Nat) (sta : LinkStatus) (v : RssiVars) : RssiVars :=
  let v := match sta with
    | .ok strength =>
      let tmp := strength.toInt
      { v with
        ret := .ok, tmpRssi := tmp
        maxRssi := if tmp > v.maxRssi then tmp else v.maxRssi
        minRssi := if (rssi i).toInt < v.minRssi then tmp else v.minRssi
        reads := v.reads ++ [i] }
    | .error code => { v with ret := .status code, errorCnt := v.errorCnt + 1 }
  { v with sumRssi := (v.sumRssi + v.tmpRssi).bmod (2 ^ 16) }

/-- The first `k` passes. -/
def rssiLoop (rssi : Mem) (samples : Nat → LinkStatus) (k : Nat) : RssiVars :=
  (List.range k).foldl (fun v i => rssiPass rssi i (samples i) v) rssiStart

/-- `tkl_wifi_station_get_conn_ap_rssi`: what it returns, what is in `rssi` behind it, and the
entries of `rssi` that it reads. `none` is a division by zero. -/
def tklWifiStationGetConnApRssi (rssi : Mem) (samples : Nat → LinkStatus) :
    Option (OperateRet × Mem × List Nat) :=
  let v := rssiLoop rssi samples 5
  if v.errorCnt > 2 then some (.comError, rssi, v.reads)
  else if 3 - v.errorCnt = 0 then none
  else
    let mean := (v.sumRssi - v.minRssi - v.maxRssi).tdiv (3 - v.errorCnt : Nat)
    some (v.ret, write8 rssi 0 (BitVec.ofInt 8 mean), v.reads)

/-! ## The stations -/

/-- `wlan_ap_sta_t`, as far as it is copied. -/
structure WlanApSta where
  addr : List Byte
  ipaddr : BitVec 32
  mask : BitVec 32
  gw : BitVec 32
  addrLength : addr.length = 6

/-- What `wlan_ap_sta_info` returns and leaves in `stas`: as many stations as `num` says when it
succeeds, and any `num` when it fails. -/
structure WlanApStas where
  ret : Int
  num : Nat
  sta : Option (List WlanApSta)
  numStations : ret = 0 → num = (sta.getD []).length

/-- `WF_STA_INFO_S`: the three texts of `sta_ip`, and `sta_mac`. -/
structure WfStaInfo where
  ip : Mem
  mask : Mem
  gw : Mem
  mac : Mem

/-- `sizeof(WF_STA_INFO_S)` -/
def sizeofWfStaInfo : Nat := 54

/-- `%ld` of a number that is not negative. -/
def decimal (n : Nat) : List Byte := (toDigits 10 n).map fun d => BitVec.ofNat 8 (48 + d)

/-- `%ld.%ld.%ld.%ld` of the four bytes of an address. -/
def dotted (addr : BitVec 32) : List Byte :=
  decimal (addr.toNat % 256) ++ 0x2E :: (decimal (addr.toNat / 2 ^ 8 % 256) ++
    0x2E :: (decimal (addr.toNat / 2 ^ 16 % 256) ++ 0x2E :: decimal (addr.toNat / 2 ^ 24 % 256)))

/-- `snprintf(dst, size, ..)` of a text: as much of it as there is room for, and a NUL. -/
def snprintf (dst : Mem) (size : Nat) (text : List Byte) : Mem :=
  writeBytes dst 0 (text.take (size - 1) ++ [0])

/-- The body of the loop over the stations, on the entry at `p_sta`. -/
def copyStation (p : WfStaInfo) (s : WlanApSta) : WfStaInfo where
  ip := snprintf p.ip 16 (dotted s.ipaddr)
  mask := snprintf p.mask 16 (dotted s.mask)
  gw := snprintf p.gw 16 (dotted s.gw)
  mac := writeBytes p.mac 0 s.addr

/-- A block of memory, taken as entries. -/
structure Block where
  size : Nat
  entry : Nat → WfStaInfo

/-- What the two pointers of the caller lead to, `none` for `NULL`. -/
structure Caller where
  staAry : Option (Option Block)
  num : Option Nat

/-- What `tkl_wifi_get_all_sta_info` returns and leaves behind, with how often it has freed
`stas.sta`. -/
structure Exported where
  ret : OperateRet
  caller : Caller
  freed : Nat

/-- `tkl_wifi_get_all_sta_info`. `memory` is what `tkl_system_malloc` gives, with what is in it;
`p_sta` stays at its first entry. -/
def tklWifiGetAllStaInfo (caller : Caller) (stas : WlanApStas)
    (memory : Option (Nat → WfStaInfo)) : Exported :=
  if caller.staAry.isNone ∨ caller.num.isNone then ⟨.invalidParm, caller, 0⟩
  else
    let freed := if stas.sta.isSome then 1 else 0
    if stas.ret = 0 then
      match memory with
      | none => ⟨.mallocFailed, ⟨some none, caller.num⟩, freed⟩
      | some entry =>
        let first := (stas.sta.getD []).foldl copyStation (entry 0)
        let entry := fun i => if i = 0 then first else entry i
        ⟨.ok, ⟨some (some ⟨u32 (stas.num * sizeofWfStaInfo), entry⟩), some stas.num⟩, freed⟩
    else if stas.num = 0 then ⟨.ok, ⟨some none, caller.num⟩, freed⟩
    else ⟨.comError, ⟨some none, caller.num⟩, freed⟩

end TuyaSdk.TklWifi
