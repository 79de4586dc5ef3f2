import TuyaSdk.FlashStores.FastConnect
import TuyaSdk.ManualCal.Store
import TuyaSdk.NetParam.KeyValue
import TuyaSdk.TklOta.Confine

/-!
# Four stores on one flash

The net parameters, the fast-connect information, the calibration values and the upgrade image lie
on one device, each module at an address of its own making. The machine makes whole operations of
them in any order; its state is that of the upgrade receiver, which holds the device.
-/

namespace TuyaSdk.FlashStores
open TuyaSdk.Lib TuyaSdk.Flash TuyaSdk.TklOta

inductive Store where
  | netParam
  | fastConnect
  | calibration
  | ota
  deriving DecidableEq, Repr

namespace Store

/-- The first address of a store. -/
def start : Store → Nat
  | netParam => NetParam.startAddr
  | fastConnect => BSSID_INFO_ADDR
  | calibration => ManualCal.startAddr
  | ota => ugStartAddr

/-- The bytes of a store. -/
def length : Store → Nat
  | netParam | fastConnect | calibration => 4096
  | ota => otaMaxBinSize

end Store

/-- A whole operation of one of the stores. -/
inductive StoreOp where
  | saveInfoItem (sv : NetParam.Save)
  | rlWriteBssidInfo (l : LinkInfo)
  | rlClearBssidInfo
  | manualCal (op : ManualCal.Op)
  | tklOta (c : OtaCall)

namespace StoreOp

/-- The store the operation belongs to. -/
def store : StoreOp → Store
  | saveInfoItem _ => .netParam
  | rlWriteBssidInfo _ | rlClearBssidInfo => .fastConnect
  | manualCal _ => .calibration
  | tklOta _ => .ota

end StoreOp

/-- The state after the operation. -/
def step : Machine OtaState StoreOp Unit
  | s, .saveInfoItem sv =>
    (NetParam.saveInfoItem s.dev true sv.item sv.ptr0 sv.ptr1 sv.ptr2).map fun r =>
      ({ s with dev := r.2 }, ())
  | s, .rlWriteBssidInfo l => some ({ s with dev := rlWriteBssidInfo s.dev l }, ())
  | s, .rlClearBssidInfo => some ({ s with dev := rlClearBssidInfo s.dev }, ())
  | s, .manualCal op => (op.run s.dev).map fun r => ({ s with dev := r.2 }, ())
  | s, .tklOta c => (TklOta.step s c).map fun r => (r.1, ())

/-- No pack carries the units received past the image area. -/
def PackFits (s : OtaState) : StoreOp → Prop
  | .tklOta (.dataProcess _ pack) => ∀ p, s.ugProc = some p → p.stat = .recvImgData →
      p.recvDataCnt + pack.data.length / 512 * 512 ≤ otaMaxBinSize
  | _ => True

/-- The operations of a run are not of both stores at `0x1D1000`. -/
def OneAtBssidInfo (ops : List StoreOp) : Prop :=
  (∀ op ∈ ops, op.store ≠ .netParam) ∨ ∀ op ∈ ops, op.store ≠ .fastConnect

/-! ## What the stores are for -/

/-- What the operations so far have left in the stores. -/
structure Held where
  table : NetParam.Table
  /-- What `rl_read_bssid_info` is to give. -/
  info : List Byte
  contents : ManualCal.Contents

namespace Held

/-- Nothing but erased sectors. -/
def erased : Held := ⟨[], erasedBssidInfo, []⟩

/-- An operation changes its own store. -/
def apply (h : Held) : StoreOp → Held
  | .saveInfoItem sv => { h with table := Assoc.put h.table sv.item sv.value }
  | .rlWriteBssidInfo l => { h with info := l.bssidInfo }
  | .rlClearBssidInfo => { h with info := erasedBssidInfo }
  | .manualCal op => { h with contents := op.apply h.contents }
  | .tklOta _ => h

end Held

/-- What the operations have left. -/
def held (ops : List StoreOp) : Held := ops.foldl Held.apply .erased

/-- The store is used: an upgrade and the calibration always, the two at `0x1D1000` when the run has
an operation of them. -/
def Used (ops : List StoreOp) : Store → Prop
  | .netParam => ∃ op ∈ ops, op.store = .netParam
  | .fastConnect => ∃ op ∈ ops, op.store = .fastConnect
  | .calibration | .ota => True

/-- What is read of the stores is what their own operations left last. -/
structure Returns (ops : List StoreOp) (dev : FlashDev) (h : Held) : Prop where
  netParam : Used ops .netParam → ∀ item, NetParam.getInfoItem dev item true true true =
    some (match Assoc.get h.table item with
      | none => ⟨0, [], [], []⟩
      | some v => NetParam.gotOf item v)
  fastConnect : Used ops .fastConnect → rlReadBssidInfo dev = h.info
  calibration : ∀ k es t v, Assoc.get h.contents k = some es → Assoc.get es t = some v →
    ManualCal.elemValue dev k t = some v
  noGroup : ∀ k, Assoc.get h.contents k = none →
    ManualCal.manualCalSearchTxpwrTab dev k.type ManualCal.startAddr = some 0

/-- In every state of a run the reads return what is held, and the next operation leaves the bytes
of the other stores that are used. -/
def Separate (dev : FlashDev) (ops : List StoreOp) : Prop :=
  ∀ pre post, ops = pre ++ post →
    ∃ s os, Machine.run step (.boot dev) pre = some (s, os) ∧ Returns ops s.dev (held pre) ∧
      ∀ op post', post = op :: post' → ∃ s' o, step s op = some (s', o) ∧
        ∀ st, st ≠ op.store → Used ops st →
          ∀ x, st.start ≤ x → x < st.start + st.length → s'.dev.cells x = s.dev.cells x

end TuyaSdk.FlashStores
