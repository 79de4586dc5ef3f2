import TuyaSdk.DrvModel

/-!
# The SARADC and its clients

`saradc.c` under the driver model, with the temperature detection and the single shot of
`temp_detect.c` and a third client, which opens the device with `ddev_open`, checks the status and
closes its handle when it is done. The configuration is that of the BK7231N.

The two temperature clients open with the interrupts off and close in the interrupt: their calls on
the driver model are one step. The third client is interrupted anywhere between the critical
sections of `ddev_open` and `ddev_close`, which are its steps. A handle is `true`, and
`DD_HANDLE_UNVALID` is `false`; `none` is an access through `NULL`. What the clients do to the
converter is kept in a log.
-/

namespace TuyaSdk.Saradc
open TuyaSdk.Lib TuyaSdk.DrvModel

abbrev saradcAdcChnlMax : UInt8 := 12
abbrev adcTempSenserChannel : UInt8 := 7
abbrev adcTempBufferSize : UInt8 := 10
abbrev adcTempValMin : Nat := 50
abbrev adcTempValMax : Nat := 700
abbrev adcConfigModeContinue : UInt8 := 0x03
abbrev adcConfigMode4ClkDelay : UInt8 := 0x0
abbrev adcConfigModeShouldOff : UInt8 := (1 : UInt8) <<< 3

inductive Client where
  | detect
  | single
  | third
  deriving DecidableEq, Repr

/-- What `p_Int_Handler` points to. -/
inductive IntHandler where
  | tempDetectHandler
  | tempSingleDetectHandler
  deriving DecidableEq, Repr

/-- `saradc_desc_t`, as far as the driver and these clients read it. -/
structure SaradcDesc where
  pData : Option (Nat → UInt16)
  currentSampleDataCnt : UInt8
  dataBuffSize : UInt8
  channel : UInt8
  mode : UInt8
  pIntHandler : Option IntHandler

/-- `saradc_config_param_init` -/
def saradcConfigParamInit : SaradcDesc where
  pData := none
  currentSampleDataCnt := 0
  dataBuffSize := 0
  channel := 1
  mode := (adcConfigModeContinue <<< 0) ||| (adcConfigMode4ClkDelay <<< 2) |||
    adcConfigModeShouldOff
  pIntHandler := none

/-- A descriptor of the temperature sensor, with its buffer cleared. -/
def tempDesc (handler : IntHandler) : SaradcDesc :=
  { saradcConfigParamInit with
    channel := adcTempSenserChannel
    pData := some fun _ => 0
    dataBuffSize := adcTempBufferSize
    pIntHandler := some handler }

/-- The slot of the device in `drv_dev_tbl`. -/
structure Slot where
  state : DdState
  useCnt : Nat
  deriving DecidableEq, Repr

/-- What happens to the converter. -/
inductive Event where
  /-- `saradc_open` succeeded for the client -/
  | granted (c : Client)
  /-- the client called `ddev_close` with a handle -/
  | released (c : Client)
  /-- the converter was closed or paused for the client -/
  | disabled (c : Client)
  /-- a sample was written to `pData[i]` of the client's descriptor, when `data_buff_size` was
  `size` -/
  | sample (c : Client) (i size : Nat)
  deriving DecidableEq, Repr

/-- Where `temp_detect_enable` stands. -/
inductive DetectPc where
  | idle
  /-- before the test of `tmp_single_hdl` -/
  | waiting
  /-- before `temp_detect_open` -/
  | prepared
  deriving DecidableEq, Repr

/-- `retry_count` and `*temp_value`. -/
structure SingleVars where
  retryCount : Nat
  tempValue : Nat
  deriving DecidableEq, Repr

/-- Where `temp_single_get_current_temperature` stands. -/
inductive SinglePc where
  | idle
  /-- before the test of `tmp_detect_hdl` -/
  | waiting (v : SingleVars)
  /-- before the critical section of `temp_single_get_enable` -/
  | prepared (v : SingleVars)
  /-- before `rtos_get_semaphore` returns -/
  | taking (v : SingleVars)
  /-- before the test of the value, with `ret` -/
  | judging (v : SingleVars) (ret : Nat)
  deriving DecidableEq, Repr

/-- Where the third client stands; `ok` is the status of its open. -/
inductive ThirdPc where
  | idle
  /-- `ddev_open` found the device closed: before the callback -/
  | found
  /-- `saradc_open` has passed its tests -/
  | tested
  /-- the callback returned: before the state is set -/
  | called (ok : Bool)
  /-- before `use_cnt ++` -/
  | counting (ok : Bool)
  /-- `ddev_open` returned -/
  | checking (ok : Bool)
  | holding
  /-- `ddev_close` has counted down: before the test of `use_cnt` -/
  | releasing
  /-- before the callback -/
  | closing
  /-- before the state is set -/
  | closed
  deriving DecidableEq, Repr

structure State where
  dev : Slot
  saradcIsBusy : Bool
  saradcDesc : Option Client
  /-- the interrupt is enabled in the ICU -/
  intEnabled : Bool
  desc : Client → SaradcDesc
  tmpDetectHdl : Bool
  tmpSingleHdl : Bool
  tmpSingleSemaphore : Option Nat
  detect : DetectPc
  single : SinglePc
  third : ThirdPc
  /-- what `temp_single_get_current_temperature` returned last, and `*temp_value` -/
  result : Option (Nat × Nat)
  log : List Event

/-- Behind `saradc_init`, and the start of `temp_detect_main`. -/
def State.init : State where
  dev := ⟨.closed, 0⟩
  saradcIsBusy := false
  saradcDesc := none
  intEnabled := false
  desc
    | .detect => tempDesc .tempDetectHandler
    | .single => ⟨none, 0, 0, 0, 0, none⟩
    | .third => ⟨none, 0, 0, 0, 0, none⟩
  tmpDetectHdl := false
  tmpSingleHdl := false
  tmpSingleSemaphore := none
  detect := .idle
  single := .idle
  third := .idle
  result := none
  log := []

def State.setDesc (s : State) (c : Client) (d : SaradcDesc) : State :=
  { s with desc := Function.update s.desc c d }

def State.note (s : State) (e : Event) : State := { s with log := s.log ++ [e] }

/-! ## The driver -/

/-- `saradc_open` returns `SARADC_FAILURE` for the descriptor. -/
def SaradcDesc.refused (d : SaradcDesc) : Bool :=
  d.pData.isNone || d.channel > saradcAdcChnlMax || d.dataBuffSize == 0

/-- `saradc_open` behind its tests. -/
def saradcStart (s : State) (c : Client) : State :=
  { s.setDesc c { s.desc c with currentSampleDataCnt := 0 } with
    saradcIsBusy := true
    saradcDesc := some c
    intEnabled := true
    log := s.log ++ [.granted c] }

/-- `saradc_open`, with whether it succeeds. -/
def saradcOpen (s : State) (c : Client) : State × Bool :=
  if (s.desc c).refused || s.saradcIsBusy then (s, false) else (saradcStart s c, true)

/-- `saradc_close`, for the client. -/
def saradcClose (s : State) (c : Client) : State :=
  { s with
    intEnabled := false
    saradcIsBusy := false
    log := s.log ++ [.disabled c] }

/-- `saradc_ensure_close`, for the client. -/
def saradcEnsureClose (s : State) (c : Client) : Option State :=
  s.saradcDesc.map fun owner =>
    if (s.desc owner).mode &&& adcConfigModeShouldOff ≠ 0 then saradcClose s c else s

/-- `ddev_open` of the registered device, with whether the status is `SARADC_SUCCESS`. -/
def ddevOpen (s : State) (c : Client) : Option (State × Bool) :=
  match s.dev.state with
  | .opened => some ({ s with dev := ⟨.opened, u32 (s.dev.useCnt + 1)⟩ }, false)
  | .closed =>
    let r := saradcOpen s c
    some ({ r.1 with dev := ⟨.opened, u32 (0 + 1)⟩ }, r.2)
  -- ASSERT(DD_HANDLE_UNVALID != handle)
  | _ => none

/-- `ddev_close` with a handle of the device. -/
def ddevClose (s : State) (c : Client) : State :=
  let s := { s with dev.useCnt := sub32 s.dev.useCnt 1, log := s.log ++ [.released c] }
  if s.dev.useCnt = 0 then { saradcClose s c with dev.state := .closed } else s

/-! ## The temperature detection -/

/-- `temp_detect_open`, and what `temp_detect_enable` does behind it. -/
def tempDetectOpen (s : State) : Option State :=
  (ddevOpen s .detect).map fun r =>
    if r.2 then { r.1 with tmpDetectHdl := true, detect := .idle }
    else { ddevClose r.1 .detect with tmpDetectHdl := false, detect := .idle }

/-- One step of `temp_detect_enable`. -/
def tempDetectEnable (s : State) : Option State :=
  match s.detect with
  | .idle => some (if s.tmpDetectHdl then s else { s with detect := .waiting })
  | .waiting =>
    some (if s.tmpSingleHdl then s
      else
        { s.setDesc .detect { s.desc .detect with currentSampleDataCnt := 0 } with
          detect := .prepared })
  | .prepared => tempDetectOpen s

/-- `temp_detect_disable`; `ddev_close` of `DD_HANDLE_UNVALID` does nothing. -/
def tempDetectDisable (s : State) : Option State :=
  let s := if s.tmpDetectHdl then ddevClose s .detect else s
  saradcEnsureClose { s with tmpDetectHdl := false } .detect

/-- The loop of `temp_detect_handler` over the samples behind the first five, with `sum` and
`count`. -/
def detectSum (pData : Nat → UInt16) : Nat × Nat :=
  (List.range' 5 5).foldl (fun r index =>
    if pData index ≠ 0 ∧ pData index ≠ 2048 then (r.1 + (pData index).toNat, r.2 + 1) else r) (0, 0)

/-- What `temp_detect_handler` puts into `pData[0]`. -/
def detectValue (pData : Nat → UInt16) : UInt16 :=
  let (sum, count) := detectSum pData
  if count = 0 then 0 else UInt16.ofNat (sum / count / 4)

/-- `pData[0]` of the client's descriptor is set from its samples. -/
def storeFirst (s : State) (c : Client) (value : (Nat → UInt16) → UInt16) : Option State :=
  (s.desc c).pData.map fun p =>
    s.setDesc c { s.desc c with pData := some (Function.update p 0 (value p)) }

/-- `temp_detect_handler` -/
def tempDetectHandler (s : State) : Option State :=
  if s.tmpDetectHdl = false then some s
  else if (s.desc .detect).dataBuffSize ≤ (s.desc .detect).currentSampleDataCnt then
    (tempDetectDisable s).bind fun s => storeFirst s .detect detectValue
  else some s

/-! ## The single shot -/

/-- `temp_single_get_disable`; `ddev_close` of `DD_HANDLE_UNVALID` does nothing. -/
def tempSingleGetDisable (s : State) : Option State :=
  let s := if s.tmpSingleHdl then ddevClose s .single else s
  (saradcEnsureClose s .single).map fun s => { s with tmpSingleHdl := false }

/-- What `temp_single_detect_handler` puts into `pData[0]`. -/
def singleValue (pData : Nat → UInt16) : UInt16 :=
  let sum1 := (pData 6).toNat + (pData 7).toNat
  let sum2 := (pData 8).toNat + (pData 9).toNat
  UInt16.ofNat ((sum1 / 2 + sum2 / 2) / 2 / 4)

/-- `temp_single_detect_handler`; the semaphore counts to one. -/
def tempSingleDetectHandler (s : State) : Option State :=
  if (s.desc .single).dataBuffSize ≤ (s.desc .single).currentSampleDataCnt then do
    let s ← tempSingleGetDisable s
    let s ← storeFirst s .single singleValue
    s.tmpSingleSemaphore.map fun _ => { s with tmpSingleSemaphore := some 1 }
  else some s

/-- The loop body of `temp_single_get_current_temperature` begins. -/
def singleRetry (s : State) (v : SingleVars) : State :=
  { s with
    tmpSingleSemaphore := some (s.tmpSingleSemaphore.getD 0)
    single := .waiting v }

/-- The loop of `temp_single_get_current_temperature` ends with this value or this try. -/
def SingleVars.last (v : SingleVars) : Bool :=
  adcTempValMin < v.tempValue && v.tempValue < adcTempValMax || v.retryCount == 1

/-- One step of `temp_single_get_current_temperature`. A wait for a semaphore that is not set goes
on, unless there is a `timeout`. -/
def tempSingleGetCurrentTemperature (s : State) (timeout : Bool) : Option State :=
  match s.single with
  | .idle => some (singleRetry s ⟨3, 0⟩)
  | .waiting v =>
    some (if s.tmpDetectHdl then s
      else { s.setDesc .single (tempDesc .tempSingleDetectHandler) with single := .prepared v })
  | .prepared v =>
    -- the status is not looked at
    (ddevOpen s .single).map fun r => { r.1 with tmpSingleHdl := true, single := .taking v }
  | .taking v =>
    match s.tmpSingleSemaphore, (s.desc .single).pData with
    | some (n + 1), some p =>
      some
        { s with
          tmpSingleSemaphore := some n
          single := .judging { v with tempValue := (p 0).toNat } 0 }
    | some 0, _ => some (if timeout then { s with single := .judging v 1 } else s)
    | _, _ => none
  | .judging v ret =>
    if v.last then some { s with single := .idle, result := some (ret, v.tempValue) }
    else some (singleRetry s { v with retryCount := v.retryCount - 1 })

/-! ## The third client -/

/-- One step of the third client, which opens the device for the descriptor `d`, without a
handler. -/
def thirdClient (s : State) (d : SaradcDesc) : Option State :=
  match s.third with
  | .idle =>
    let s := s.setDesc .third { d with pIntHandler := none }
    match s.dev.state with
    | .opened => some { s with third := .counting false }
    | .closed => some { s with third := .found }
    | _ => none
  | .found =>
    some
      { s with
        third := if (s.desc .third).refused || s.saradcIsBusy then .called false else .tested }
  | .tested => some { saradcStart s .third with third := .called true }
  | .called ok => some { s with dev := ⟨.opened, 0⟩, third := .counting ok }
  | .counting ok =>
    some { s with dev.useCnt := u32 (s.dev.useCnt + 1), third := .checking ok }
  | .checking true => some { s with third := .holding }
  | .checking false | .holding =>
    some
      { s with
        dev.useCnt := sub32 s.dev.useCnt 1
        third := .releasing
        log := s.log ++ [.released .third] }
  | .releasing => some { s with third := if s.dev.useCnt = 0 then .closing else .idle }
  | .closing => some { saradcClose s .third with third := .closed }
  | .closed => some { s with dev.state := .closed, third := .idle }

/-! ## The interrupt -/

/-- The loop of `saradc_isr` over the samples in the FIFO, for the descriptor of the client.
`saradc_pause` empties the FIFO. -/
def isrLoop (c : Client) : List UInt16 → State → Option State
  | [], s => some s
  | dacVal :: fifo, s =>
    let d := s.desc c
    if d.currentSampleDataCnt < d.dataBuffSize then
      d.pData.bind fun p =>
        let s := (s.setDesc c
          { d with
            pData := some (Function.update p d.currentSampleDataCnt.toNat dacVal)
            currentSampleDataCnt := d.currentSampleDataCnt + 1 }).note
          (.sample c d.currentSampleDataCnt.toNat d.dataBuffSize.toNat)
        if d.currentSampleDataCnt + 1 = d.dataBuffSize then some (s.note (.disabled c))
        else isrLoop c fifo s
    else some s

/-- `(void)saradc_desc->p_Int_Handler()` -/
def IntHandler.run : IntHandler → State → Option State
  | .tempDetectHandler => Saradc.tempDetectHandler
  | .tempSingleDetectHandler => Saradc.tempSingleDetectHandler

/-- `saradc_isr` -/
def saradcIsr (s : State) (fifo : List UInt16) : Option State :=
  s.saradcDesc.bind fun c => (isrLoop c fifo s).bind fun s =>
    if (s.desc c).dataBuffSize ≤ (s.desc c).currentSampleDataCnt then
      match (s.desc c).pIntHandler with
      | some handler => handler.run s
      | none => some s
    else some s

/-- What happens next: a client makes a step, or the interrupt comes with these samples in the
FIFO. -/
inductive Input where
  | detect
  | single (timeout : Bool)
  | third (d : SaradcDesc)
  | isr (fifo : List UInt16)

def step : Machine State Input Unit := fun s input =>
  (match input with
  | .detect => tempDetectEnable s
  | .single timeout => tempSingleGetCurrentTemperature s timeout
  | .third d => thirdClient s d
  | .isr fifo => if s.intEnabled then saradcIsr s fifo else some s).map (·, ())

/-! ## What sharing means -/

/-- The client whose `saradc_open` succeeded last. -/
def lastGranted (log : List Event) : Option Client :=
  log.foldl (fun last e => match e with | .granted c => some c | _ => last) none

/-- The client's open succeeded, and it has not closed its handle since. -/
def outstanding (log : List Event) (c : Client) : Bool :=
  log.foldl (fun out e =>
    if e = .granted c then true else if e = .released c then false else out) false

/-- A sample goes into the buffer of the last client whose open succeeded and below its size, and
nobody closes or pauses the converter under another client. -/
def EventOk (log : List Event) : Event → Prop
  | .sample c i size => lastGranted log = some c ∧ i < size
  | .disabled c => ∀ c', c' ≠ c → outstanding log c' = false
  | _ => True

/-- No client is inside its functions, and the temperature detection has no open outstanding. -/
structure State.Finished (s : State) : Prop where
  detect : s.detect = .idle
  released : outstanding s.log .detect = false
  single : s.single = .idle
  third : s.third = .idle

/-- The device is closed, and an open of any descriptor that is not refused succeeds. -/
structure State.Closed (s : State) : Prop where
  dev : s.dev = ⟨.closed, 0⟩
  free : s.saradcIsBusy = false
  detect : s.tmpDetectHdl = false
  single : s.tmpSingleHdl = false
  opens : ∀ c, (s.desc c).refused = false → (ddevOpen s c).any Prod.snd = true

/-- The clients share the converter as they should: everything that happened to it was right, and
it is closed when all are done. -/
structure SharingOk (s : State) : Prop where
  events : ∀ pre e post, s.log = pre ++ e :: post → EventOk pre e
  finished : s.Finished → s.Closed

/-! ## Steps that keep out of each other's way -/

/-- The third client is not inside `ddev_open` or `ddev_close`. -/
def ThirdPc.outside : ThirdPc → Bool
  | .idle | .checking _ | .holding => true
  | _ => false

/-- The interrupt fills the buffer of a client with a handler. -/
def State.completes (s : State) (fifo : List UInt16) : Bool :=
  s.intEnabled && s.saradcDesc.any fun c =>
    (s.desc c).pIntHandler.isSome &&
      decide ((s.desc c).dataBuffSize.toNat ≤ (s.desc c).currentSampleDataCnt.toNat + fifo.length)

/-- The single shot opens a device that is closed, outside the calls of the third client, and does
not return while its handle is open. -/
def SinglePc.Calm (s : State) : SinglePc → Prop
  | .prepared _ => s.third.outside = true ∧ s.dev.state = .closed
  | .judging v _ => v.last = true → s.tmpSingleHdl = false
  | _ => True

instance (s : State) : (pc : SinglePc) → Decidable (pc.Calm s)
  | .prepared _ => inferInstanceAs (Decidable (s.third.outside = true ∧ s.dev.state = .closed))
  | .judging v _ => inferInstanceAs (Decidable (v.last = true → s.tmpSingleHdl = false))
  | .idle | .waiting _ | .taking _ => inferInstanceAs (Decidable True)

/-- The single shot is calm, and no temperature client opens or closes while the third client is
inside `ddev_open` or `ddev_close`. -/
def Calm (s : State) : Input → Prop
  | .detect => s.detect = .prepared → s.third.outside = true
  | .single _ => s.single.Calm s
  | .third _ => True
  | .isr fifo => s.completes fifo = true → s.third.outside = true

instance (s : State) : (input : Input) → Decidable (Calm s input)
  | .detect => inferInstanceAs (Decidable (s.detect = .prepared → s.third.outside = true))
  | .single _ => inferInstanceAs (Decidable (s.single.Calm s))
  | .third _ => inferInstanceAs (Decidable True)
  | .isr fifo => inferInstanceAs (Decidable (s.completes fifo = true → s.third.outside = true))

end TuyaSdk.Saradc
