import TuyaSdk.Lib.Bytes
import TuyaSdk.Lib.Loop
import TuyaSdk.Lib.MinHeap

/-!
# The ADC of the adapter

`tkl_adc.c`: `tkl_adc_init`, and the two reads, which take the samples of a channel from the
SARADC driver into `read_adc_buf` and copy them to the caller. A single sample is replaced by
an average around the median of fifteen, which a heap of the larger half finds.

`none` is a call that does not return, or one that divides by zero. The driver is seen through
its open function only: it fails, or every sample that was asked for arrives.
-/

namespace TuyaSdk.TklAdc
open TuyaSdk.Lib TuyaSdk.Lib.MinHeap

abbrev adcDevNum : Nat := 1
abbrev adcDevChannelSum : Nat := 6
abbrev adcRegisterValMax : Nat := 4096
abbrev adcVoltageMax : Nat := 2400
abbrev adcBufMedianSize : BitVec 8 := 15
abbrev adcBufSizeMax : Nat := 255
/-- `SARADC_ADC_CHNL_MAX` -/
abbrev saradcAdcChnlMax : BitVec 8 := 12

/-- `OPERATE_RET`, as far as the functions return it. -/
inductive OperateRet where
  | ok
  | comError
  | invalidParm
  | osAdapterComError
  deriving DecidableEq, Repr

/-! ## The heap -/

/-- The variables of the loops of `MinHeapInsert` and `MinHeapReplace`. -/
structure HeapVars where
  heap : Nat → Nat
  p : Nat

/-- One pass of the loop of `MinHeapInsert`. -/
def insertPass (x : Nat) (v : HeapVars) : Pass HeapVars HeapVars :=
  if v.p ≠ 0 ∧ v.heap ((v.p - 1) / 2) > x then
    .again ⟨put v.heap v.p (v.heap ((v.p - 1) / 2)), (v.p - 1) / 2⟩
  else .exit v

/-- `MinHeapInsert`: the heap, and what is returned. -/
def minHeapInsert (heap : Nat → Nat) (heapSize x : Nat) : Option ((Nat → Nat) × Nat) :=
  (Loop.run (insertPass x) (heapSize + 1) ⟨heap, heapSize⟩).map fun v =>
    (put v.heap v.p x, heapSize + 1)

/-- One pass of the loop of `MinHeapReplace`. -/
def replacePass (heapSize x : Nat) (v : HeapVars) : Pass HeapVars HeapVars :=
  if v.p < heapSize then
    if 2 * v.p + 1 < heapSize ∧ x > v.heap (2 * v.p + 1) then
      if 2 * v.p + 2 < heapSize ∧ v.heap (2 * v.p + 1) > v.heap (2 * v.p + 2) then
        .again ⟨put v.heap v.p (v.heap (2 * v.p + 2)), 2 * v.p + 2⟩
      else .again ⟨put v.heap v.p (v.heap (2 * v.p + 1)), 2 * v.p + 1⟩
    else if 2 * v.p + 2 < heapSize ∧ x > v.heap (2 * v.p + 2) then
      .again ⟨put v.heap v.p (v.heap (2 * v.p + 2)), 2 * v.p + 2⟩
    else .exit v
  else .exit v

/-- `MinHeapReplace`: the heap, and the old root, which is returned. -/
def minHeapReplace (heap : Nat → Nat) (heapSize x : Nat) : Option ((Nat → Nat) × Nat) :=
  (Loop.run (replacePass heapSize x) (heapSize + 1) ⟨heap, 0⟩).map fun v =>
    (put v.heap v.p x, heap 0)

/-! ## The median -/

/-- The loop over the first samples, `n` of them from `index` on. -/
def insertSamples (pData : Nat → Nat) : Nat → Nat → (Nat → Nat) → Option (Nat → Nat)
  | 0, _, heap => some heap
  | n + 1, index, heap =>
    match minHeapInsert heap index (pData index) with
    | none => none
    | some (heap, _) => insertSamples pData n (index + 1) heap

/-- The loop over the other samples, `n` of them from `index` on. -/
def replaceSamples (pData : Nat → Nat) (heapSize : Nat) :
    Nat → Nat → (Nat → Nat) → Option (Nat → Nat)
  | 0, _, heap => some heap
  | n + 1, index, heap =>
    if heap 0 < pData index then
      match minHeapReplace heap heapSize (pData index) with
      | none => none
      | some (heap, _) => replaceSamples pData heapSize n (index + 1) heap
    else replaceSamples pData heapSize n (index + 1) heap

/-- `count` and `sum`. -/
structure Total where
  count : Nat
  sum : Nat
  deriving DecidableEq, Repr

/-- One pass of the loop that sums the samples near `median`. -/
def addSample (median x : Nat) (t : Total) : Total :=
  if x > median + 0x5 ∨ median > x + 0x5 then t else ⟨t.count + 1, u32 (t.sum + x)⟩

/-- The loop over all `n` samples. -/
def addSamples (pData : Nat → Nat) (median n : Nat) : Total :=
  (List.range n).foldl (fun t index => addSample median (pData index) t) ⟨0, 0⟩

/-- The heap behind its two loops. -/
def largerHalf (pData : Nat → Nat) (n : Nat) (heap : Nat → Nat) : Option (Nat → Nat) :=
  match insertSamples pData ((n + 1) / 2) 0 heap with
  | none => none
  | some heap => replaceSamples pData ((n + 1) / 2) (n - (n + 1) / 2) ((n + 1) / 2) heap

/-- The samples near the median averaged: what goes to `pData[0]`. The array `heap` is not
initialised. -/
def medianFilter (pData : Nat → Nat) (n : Nat) (heap : Nat → Nat) : Option Nat :=
  match largerHalf pData n heap with
  | none => none
  | some heap =>
    let t := addSamples pData (heap 0) n
    if t.count = 0 then none else some (t.sum / t.count % 2 ^ 16)

/-! ## The configuration -/

/-- `TUYA_ADC_MODE_E` -/
inductive AdcMode where
  | single
  | continuous
  | scan
  deriving DecidableEq, Repr

/-- `TUYA_ADC_BASE_CFG_T`, whose other fields nothing uses. -/
structure AdcBaseCfg where
  chList : BitVec 32
  chNums : BitVec 8
  mode : AdcMode
  convCnt : BitVec 16
  deriving DecidableEq, Repr

/-- The statics, and the fields of `adc_desc` that the adapter reads again. `gAdcInit` goes on
with the memory behind the array. -/
structure Adc where
  gAdcInit : Nat → Bool
  adcChNums : BitVec 8
  dataBuffSize : BitVec 8
  channel : BitVec 8
  readAdcBuf : Nat → Nat

/-- `tkl_adc_init` -/
def tklAdcInit (s : Adc) (portNum : Nat) (cfg : AdcBaseCfg) : OperateRet × Adc :=
  if portNum > adcDevNum - 1 ∨ cfg.chNums.toNat > adcDevChannelSum ∨ cfg.chList = 0 then
    (.invalidParm, s)
  else
    let s : Adc := { s with
      gAdcInit := fun i => if i < adcDevChannelSum then false else s.gAdcInit i
      dataBuffSize := 0
      channel := 0 }
    if cfg.mode = .scan then (.invalidParm, s)
    else
      (.ok, { s with
        gAdcInit := fun i =>
          if i < adcDevChannelSum ∧ cfg.chList.getLsbD i then true else s.gAdcInit i
        adcChNums := cfg.chNums
        dataBuffSize := cfg.convCnt.setWidth 8 })

/-! ## The reads -/

/-- An access of the reads to one of the arrays: a look at `g_adc_init`, a sample stored to
`read_adc_buf`, a result written to the caller's buffer. -/
inductive Access where
  | init (i : Nat)
  | store (i : Nat)
  | write (i : Int) (value : Nat)
  deriving DecidableEq, Repr

/-- What is outside: what `saradc_open` comes to for a channel beyond its checks, with the
samples; the voltage in millivolts that a register value stands for; and what is on the stack
where the heap is. -/
structure Env where
  saradc : BitVec 8 → Option (Nat → Nat)
  adcMv : Nat → Nat
  stack : Nat → Nat

/-- The open call on the driver, with the checks of `saradc_open`. -/
def saradcOpen (env : Env) (channel dataBuffSize : BitVec 8) : Option (Nat → Nat) :=
  if channel > saradcAdcChnlMax ∨ dataBuffSize = 0 then none else env.saradc channel

/-- `read_adc_buf` after the `memset`, of as many bytes as there are entries. -/
def clearAdcBuf (buf : Nat → Nat) : Nat → Nat := fun i =>
  if i < adcBufSizeMax / 2 then 0
  else if i = adcBufSizeMax / 2 then buf i / 256 * 256
  else buf i

/-- `read_adc_buf` when `size` samples have arrived. -/
def sampled (buf samples : Nat → Nat) (size : Nat) : Nat → Nat := fun i =>
  if i < size then samples i % 2 ^ 16 else buf i

/-- The register value that a result is turned into. -/
def toRegister (env : Env) (result : Nat) : Nat :=
  env.adcMv result % 2 ^ 16 * adcRegisterValMax / adcVoltageMax % 2 ^ 16

/-- One pass of the loop that copies the results. The counter is a `signed char`; behind 127
comes -128. -/
def copyPass (env : Env) (pData : Nat → Nat) (dataBuffSize : BitVec 8)
    (v : BitVec 8 × List Access) : Pass (BitVec 8 × List Access) (List Access) :=
  if v.1.toInt < dataBuffSize.toNat then
    .again (v.1 + 1, v.2 ++ [.write v.1.toInt (toRegister env (pData v.1.toInt.toNat))])
  else .exit v.2

/-- The copy loop. The counter comes round after 256 passes. -/
def copyResults (env : Env) (pData : Nat → Nat) (dataBuffSize : BitVec 8) :
    Option (List Access) :=
  Loop.run (copyPass env pData dataBuffSize) 257 (0, [])

/-- What a read returns and leaves, and its accesses in order. -/
structure Outcome where
  ret : OperateRet
  adc : Adc
  accesses : List Access

/-- `tkl_adc_read_single_channel` -/
def tklAdcReadSingleChannel (env : Env) (s : Adc) (portNum : Nat) (chId : BitVec 8) :
    Option Outcome :=
  if portNum > adcDevNum - 1 ∨ chId.toNat > adcDevChannelSum then some ⟨.invalidParm, s, []⟩
  else if s.gAdcInit chId.toNat = false then
    some ⟨.osAdapterComError, s, [.init chId.toNat]⟩
  else
    let s : Adc := { s with channel := chId + 1, readAdcBuf := clearAdcBuf s.readAdcBuf }
    let dataBuffSize := s.dataBuffSize
    let s : Adc := { s with dataBuffSize := if dataBuffSize = 1 then adcBufMedianSize
      else s.dataBuffSize }
    match saradcOpen env s.channel s.dataBuffSize with
    | none => some ⟨.comError, { s with dataBuffSize }, [.init chId.toNat]⟩
    | some samples =>
      let n := s.dataBuffSize.toNat
      let stores := (List.range n).map Access.store
      let s : Adc := { s with readAdcBuf := sampled s.readAdcBuf samples n }
      let filtered : Option Adc :=
        if dataBuffSize = 1 then
          (medianFilter s.readAdcBuf n env.stack).map fun average =>
            { s with dataBuffSize, readAdcBuf := put s.readAdcBuf 0 average }
        else some s
      match filtered with
      | none => none
      | some s =>
        (copyResults env s.readAdcBuf s.dataBuffSize).map fun writes =>
          ⟨.ok, s, .init chId.toNat :: (stores ++ writes)⟩

/-- The access through a pointer that is `offset` entries further on. -/
def Access.shift (offset : Nat) : Access → Access
  | .write i value => .write (i + offset) value
  | a => a

/-- The loop of `tkl_adc_read_data` from channel `i` on, with `n` channels left, `j` of them
read. -/
def readChannels (env : Env) (portNum : Nat) : Nat → Nat → Nat → Outcome → Option Outcome
  | 0, _, _, o => some o
  | n + 1, i, j, o =>
    let seen := o.accesses ++ [.init i]
    if o.adc.gAdcInit i then
      match tklAdcReadSingleChannel env o.adc portNum (BitVec.ofNat 8 i) with
      | none => none
      | some r =>
        readChannels env portNum n (i + 1) (j + 1)
          ⟨r.ret, r.adc, seen ++ r.accesses.map (Access.shift (j * o.adc.dataBuffSize.toNat))⟩
    else readChannels env portNum n (i + 1) j { o with accesses := seen }

/-- `tkl_adc_read_data` -/
def tklAdcReadData (env : Env) (s : Adc) (portNum len : Nat) : Option Outcome :=
  if portNum > adcDevNum - 1 then some ⟨.invalidParm, s, []⟩
  else
    let ret := if s.adcChNums.toNat * s.dataBuffSize.toNat > len then OperateRet.comError else .ok
    readChannels env portNum adcDevChannelSum 0 0 ⟨ret, s, []⟩

end TuyaSdk.TklAdc
