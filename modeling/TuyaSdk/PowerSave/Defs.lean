import TuyaSdk.Lib.Machine

/-!
# Sleep in DTIM mode

`power_save.c` puts the radio to sleep between beacons (`power_save_sleep`) and wakes it for the
MAC's wake-up interrupt, for the PWM, after a delay, or by hand. Each function runs with the
interrupts disabled, so it is one step. What other code knows or decides is an argument: the
state of the network, the pending interrupts, the tick, and whether `rwnxl_sleep` lets the MAC
sleep. What the functions ask of other code is in `effects`, in order. `none` is a failed
`ASSERT`.
-/

namespace TuyaSdk.PowerSave

open TuyaSdk.Lib

/-- `PS_MODE_STATUS` -/
inductive PsMode where
  | noPsMode
  | standbyPsMode
  | mcuPsMode
  | dtimPsMode
  | dtimPsOpening
  | dtimPsClosing
  deriving DecidableEq

/-- `PS_ARM_WAKEUP_WAY` -/
inductive WakeupWay where
  | none
  | rw
  | peri
  | pwm
  | user
  | uping
  deriving DecidableEq

/-- The value of the enumerator. -/
def WakeupWay.toNat : WakeupWay → Nat
  | .none => 0
  | .rw => 1
  | .peri => 2
  | .pwm => 3
  | .user => 4
  | .uping => 5

/-- `PS_STA_BEACON_STATE` -/
inductive BeaconState where
  | init
  | true
  | false
  | timeout
  deriving DecidableEq

/-- `PS_TM_STATUS` -/
inductive TmStatus where
  | lowPower
  | ckAbBcn
  | ckTimeout
  | ckDataOver
  deriving DecidableEq

/-- What is asked of other code. -/
inductive Effect where
  | nxmacEnableIdleInterrupt
  | sctrlStaRfSleep
  | sctrlStaRfWakeup
  | rfWifiUsedSet
  | rfWifiUsedClr
  | rwnxlWakeup
  | setAllVifPreventSleep
  | mcuPsMachwCal
  | rfPsWkupSemlistSet
  | keTimers
  | psRunTdTimer
  | nxmacTimerValue
  | nxmacBeaconIntClear
  | waitTimerInit
  | enterEz
  | exitEz
  | reboot
  /-- `bmsg_ps_sender` with the command -/
  | bmsgPs (ioctl : Nat)
  /-- the exit of `power_save_sleep` without the lock -/
  | errorPs
  deriving DecidableEq

def psBmsgIoctlRfDisanable : Nat := 1
def psBmsgIoctlRfKpSet : Nat := 5
def psBmsgIoctlRfKpStop : Nat := 9

abbrev Reg := BitVec 32

/-- `CO_BIT` -/
def coBit (n : Nat) : Reg := BitVec.twoPow 32 n

def fiqMacWakeup : Reg := coBit 26

/-- The interrupts that are looked at before a sleep. -/
def fiqMacBusy : Reg := coBit 18 ||| coBit 17 ||| coBit 19 ||| coBit 20 ||| coBit 21

/-- The interrupts that `power_save_sleep` masks. -/
def fiqMac : Reg :=
  coBit 18 ||| coBit 17 ||| coBit 19 ||| coBit 20 ||| coBit 22 ||| coBit 21 ||| coBit 28

def macArmWakeupEnBit : Reg := coBit 26

def needDisableBit : Reg := coBit 0
def needRebootBit : Reg := coBit 1
def needStartEzBit : Reg := coBit 2
def needStopEzBit : Reg := coBit 3

def pwmMuxPclk : Nat := 0
def pwmMuxLpo : Nat := 1

/-- `bk_ps_info` and the other static variables, and the registers of the interrupt controller;
`hung` is the endless loop before a reboot. -/
structure State where
  bkPsMode : PsMode
  psArmWakeupWay : WakeupWay
  psRealSleep : UInt8
  psCanSleep : UInt8
  sleepFirst : UInt8
  sleepCount : UInt32
  ifWaitBcn : UInt8
  waitedBeacon : BeaconState
  tmStatus : TmStatus
  pwmClkmux : Nat
  pwmLessTime : UInt32
  psDataWakeupWaitTimeMs : UInt16
  psPeriWakeupWaitTimeMs : UInt16
  psLock : UInt8
  intEnableRegSave : Reg
  psDelayRfupTime : UInt32
  pwmUseForPs : Bool
  psTdLastTick : UInt32
  psKeepTimerStatus : UInt32
  psKeepTimerPeriod : UInt32
  psKeepTimerFlag : UInt32
  psDisFlag : Reg
  intEnable : Reg
  armWakeupEn : Reg
  hung : Bool
  effects : List Effect

/-- The static initialisers; `ints` are the interrupts enabled at the start. -/
def State.init (ints : Reg) : State where
  bkPsMode := .noPsMode
  psArmWakeupWay := .none
  psRealSleep := 0
  psCanSleep := 0
  sleepFirst := 1
  sleepCount := 0
  ifWaitBcn := 0
  waitedBeacon := .init
  tmStatus := .ckTimeout
  pwmClkmux := 0
  pwmLessTime := 0
  psDataWakeupWaitTimeMs := 0
  psPeriWakeupWaitTimeMs := 0
  psLock := 1
  intEnableRegSave := 0
  psDelayRfupTime := 0
  pwmUseForPs := false
  psTdLastTick := 0
  psKeepTimerStatus := 0
  psKeepTimerPeriod := 0
  psKeepTimerFlag := 1
  psDisFlag := 0
  intEnable := ints
  armWakeupEn := 0
  hung := false
  effects := []

/-- What the functions read of other code. -/
structure Net where
  /-- the station has an address -/
  ifIsUp : Bool
  /-- the only role is the station -/
  roleSta : Bool
  /-- the station is connected -/
  connected : Bool
  /-- the MAC is asleep for Bluetooth -/
  bleSwitchMacSleeped : Bool
  deriving DecidableEq

namespace State

def effect (s : State) (e : Effect) : State := { s with effects := s.effects ++ [e] }

def clearInt (s : State) (bits : Reg) : State := { s with intEnable := s.intEnable &&& ~~~bits }

def setInt (s : State) (bits : Reg) : State := { s with intEnable := s.intEnable ||| bits }

/-- `PS_STA_DTIM_SWITCH` -/
def staDtimSwitch (s : State) (net : Net) : Bool :=
  s.bkPsMode = .dtimPsMode && net.ifIsUp && net.roleSta

/-- `PS_STA_DTIM_CAN_SLEEP` -/
def staDtimCanSleep (s : State) (net : Net) : Bool :=
  s.staDtimSwitch net && (s.waitedBeacon = .true || s.psArmWakeupWay = .user) && s.psCanSleep = 1

end State

/-! ## Sleep -/

/-- `power_save_sleep_status_set` -/
def powerSaveSleepStatusSet (s : State) : State :=
  { s with psRealSleep := 1, psArmWakeupWay := .none }

/-- `power_save_sleep` after the MAC went to sleep. -/
def goPs (s : State) : State :=
  if s.psLock = 0 then s.effect .errorPs
  else
    let s := { s with psLock := s.psLock - 1 }
    let s := (powerSaveSleepStatusSet s).effect .sctrlStaRfSleep
    let s := s.setInt fiqMacWakeup
    if s.psKeepTimerStatus = 1 then s.effect (.bmsgPs psBmsgIoctlRfKpStop) else s

/-- `power_save_sleep`. `inDoze` is the answer of `rwnxl_get_status_in_doze`, `pending` the
interrupt status, `ok` that of `rwnxl_sleep`. -/
def powerSaveSleep (s : State) (net : Net) (inDoze : Bool) (pending : Reg) (ok : Bool) : State :=
  if s.psRealSleep = 1 ∨ net.bleSwitchMacSleeped then s
  else if ¬s.staDtimCanSleep net then s
  else if inDoze then s
  else
    let s := s.effect .nxmacEnableIdleInterrupt
    if pending &&& fiqMacBusy ≠ 0 then s
    else
      let s := { s with intEnableRegSave := s.intEnable }
      let s := s.clearInt fiqMac
      if ok then goPs s else { s with intEnable := s.intEnableRegSave }

/-- `power_save_mac_idle_callback` -/
def powerSaveMacIdleCallback (s : State) : State :=
  let s := if s.sleepFirst ≠ 0 then { s with sleepFirst := 0 } else s
  { s with sleepCount := s.sleepCount + 1 }

/-! ## Wake-up -/

/-- `power_save_wakeup` -/
def powerSaveWakeup (s : State) : Option State :=
  let s := { s with waitedBeacon := .false }
  let s := if s.psArmWakeupWay = .rw then s.effect .setAllVifPreventSleep else s
  let s := (s.effect .sctrlStaRfWakeup).effect .rfWifiUsedSet
  let s := { s with armWakeupEn := s.armWakeupEn &&& ~~~macArmWakeupEnBit, tmStatus := .ckTimeout }
  let s := s.effect .rwnxlWakeup
  let s := (s.setInt fiqMac).clearInt fiqMacWakeup
  if s.psLock = 0 then some { s with psLock := s.psLock + 1 } else none

/-- `power_save_dtim_exit_check` -/
def powerSaveDtimExitCheck (s : State) : State :=
  if s.psDisFlag &&& needDisableBit ≠ 0 then
    let s := if s.bkPsMode = .noPsMode then s else s.effect (.bmsgPs psBmsgIoctlRfDisanable)
    { s with psDisFlag := s.psDisFlag &&& ~~~needDisableBit }
  else s

/-- `power_save_ieee_dtim_wakeup` -/
def powerSaveIeeeDtimWakeup (s : State) (net : Net) : Option State :=
  if WakeupWay.none.toNat < s.psArmWakeupWay.toNat ∧
      s.psArmWakeupWay.toNat ≤ WakeupWay.user.toNat ∧ s.psRealSleep ≠ 0 then do
    let s ← powerSaveWakeup s
    let s := { s with psRealSleep := 0, psCanSleep := 1 }
    let s := s.effect .mcuPsMachwCal
    let s :=
      if s.sleepFirst = 0 ∧ s.psKeepTimerPeriod ≠ 0 then
        { s with psKeepTimerFlag := 1 }.effect (.bmsgPs psBmsgIoctlRfKpSet)
      else s
    let s := if net.bleSwitchMacSleeped then s else s.effect .rfPsWkupSemlistSet
    some (powerSaveDtimExitCheck (s.effect .keTimers))
  else some s

/-- `power_save_dtim_wake`; `tick` is the answer of `fclk_get_tick`. The reconfiguration of the
PWM is for another chip. -/
def powerSaveDtimWake (s : State) (net : Net) (status : Reg) (tick : UInt32) : Option State :=
  if s.bkPsMode = .dtimPsMode ∧ s.psArmWakeupWay = .none ∧ status &&& macArmWakeupEnBit ≠ 0 then
    let s := { s with psArmWakeupWay := .uping }.clearInt fiqMacWakeup
    if s.pwmLessTime ≠ 0 then
      if s.pwmClkmux = pwmMuxPclk then
        some { s with tmStatus := .lowPower, pwmUseForPs := true, pwmLessTime := 0 }
      else if s.pwmClkmux = pwmMuxLpo then
        let s := { s with psDelayRfupTime := tick + s.pwmLessTime / 2 }
        if s.psDelayRfupTime < tick then do
          let s ← powerSaveIeeeDtimWakeup s net
          some { s with psDelayRfupTime := 0, pwmLessTime := 0 }
        else some { s with pwmLessTime := 0 }
      else do
        let s ← powerSaveIeeeDtimWakeup { s with psArmWakeupWay := .rw } net
        some { s with pwmLessTime := 0 }
    else powerSaveIeeeDtimWakeup { s with psArmWakeupWay := .rw } net
  else some s

/-- `power_save_pwm_isr` -/
def powerSavePwmIsr (s : State) (net : Net) : Option State :=
  if s.bkPsMode = .dtimPsMode ∧ s.tmStatus = .lowPower then do
    let s ← powerSaveIeeeDtimWakeup { s with psArmWakeupWay := .rw } net
    some { s with pwmUseForPs := false, tmStatus := .ckTimeout }
  else some s

/-- The wake-up that was delayed, in `power_save_rf_sleep_check`. -/
def delayedWakeup (s : State) (net : Net) (tick : UInt32) : Option State :=
  if s.psDelayRfupTime ≠ 0 ∧ (s.psDelayRfupTime - tick).toInt32 ≤ 0 then
    if s.psArmWakeupWay = .uping then do
      let s ← powerSaveIeeeDtimWakeup { s with psArmWakeupWay := .rw } net
      some { s with psDelayRfupTime := 0 }
    else some { s with psDelayRfupTime := 0 }
  else some s

/-- `power_save_td_check`; `paused` is the state of the DPSM. -/
def powerSaveTdCheck (s : State) (paused : Bool) : State :=
  if paused ∨ s.psArmWakeupWay = .user then s.effect .psRunTdTimer else s

/-- The first critical section of `power_save_rf_sleep_check`; `dtimSwitch` is what
`PS_STA_DTIM_SWITCH` was before it. -/
def powerSaveRfSleepCheck (s : State) (net : Net) (dtimSwitch : Bool) (tick : UInt32)
    (paused : Bool) : Option State :=
  if dtimSwitch then do
    let s ← delayedWakeup s net tick
    if s.psTdLastTick ≠ 0 ∧ (s.waitedBeacon = .true ∨ s.psArmWakeupWay = .user) then
      some { powerSaveTdCheck s paused with psTdLastTick := 0 }
    else some s
  else some s

/-- `power_save_rf_dtim_manual_do_wakeup` -/
def powerSaveRfDtimManualDoWakeup (s : State) (net : Net) : Option State :=
  if net.bleSwitchMacSleeped then some s
  else if s.bkPsMode = .dtimPsMode ∧ (s.psArmWakeupWay = .none ∨ s.psArmWakeupWay = .uping) ∧
      s.psRealSleep = 1 then
    let way : WakeupWay := if s.psArmWakeupWay = .uping then .rw else .user
    powerSaveIeeeDtimWakeup ({ s with psArmWakeupWay := way }.clearInt fiqMacWakeup) net
  else some s

/-! ## Modes -/

/-- `power_save_dtim_ps_init` -/
def powerSaveDtimPsInit (s : State) : State :=
  { s with sleepCount := 0, sleepFirst := 1, psCanSleep := 1, psTdLastTick := 0 }

/-- `power_save_dtim_ps_exit` -/
def powerSaveDtimPsExit (s : State) : State :=
  let s := { s with
    psCanSleep := 0, waitedBeacon := .init, psDataWakeupWaitTimeMs := 0,
    psPeriWakeupWaitTimeMs := 0 }
  { s.effect .nxmacBeaconIntClear with psRealSleep := 0, sleepCount := 0, sleepFirst := 1 }

/-- `power_save_dtim_enable_handler` -/
def powerSaveDtimEnableHandler (s : State) (net : Net) : State :=
  if s.bkPsMode = .dtimPsOpening ∧ net.connected then
    let s := powerSaveDtimPsInit { s with psPeriWakeupWaitTimeMs := 0 }
    { s with ifWaitBcn := 1, bkPsMode := .dtimPsMode }.effect .waitTimerInit
  else s

/-- An event that was put off until the wake-up. -/
def wkupEvent (bit : Reg) (e : Effect) (s : State) : State :=
  if s.psDisFlag &&& bit ≠ 0 then { s.effect e with psDisFlag := s.psDisFlag &&& ~~~bit } else s

/-- `power_save_dtim_disable_handler` -/
def powerSaveDtimDisableHandler (s : State) : State :=
  let s := s.effect .rfWifiUsedClr
  if s.bkPsMode = .dtimPsClosing then
    let s := { s with bkPsMode := .noPsMode }.effect .nxmacTimerValue
    let s := powerSaveDtimPsExit s
    if s.psDisFlag &&& needRebootBit ≠ 0 then { s.effect .reboot with hung := true }
    else wkupEvent needStopEzBit .exitEz (wkupEvent needStartEzBit .enterEz s)
  else s

/-! ## Runs -/

/-- What happens next. -/
inductive Input where
  | sleep (net : Net) (inDoze : Bool) (pending : Reg) (ok : Bool)
  | macIdleCallback
  | dtimWake (net : Net) (status : Reg) (tick : UInt32)
  | pwmIsr (net : Net)
  | rfSleepCheck (net : Net) (dtimSwitch : Bool) (tick : UInt32) (paused : Bool)
  | manualDoWakeup (net : Net)
  | dtimEnableHandler (net : Net)
  | dtimDisableHandler
  | psModeSet (mode : PsMode)
  /-- `power_save_beacon_state_set` -/
  | beaconStateSet (state : BeaconState)
  /-- `power_save_wkup_event_set` -/
  | wkupEventSet (value : Reg)
  deriving DecidableEq

def handle (s : State) : Input → Option State
  | .sleep net inDoze pending ok => some (powerSaveSleep s net inDoze pending ok)
  | .macIdleCallback => some (powerSaveMacIdleCallback s)
  | .dtimWake net status tick => powerSaveDtimWake s net status tick
  | .pwmIsr net => powerSavePwmIsr s net
  | .rfSleepCheck net dtimSwitch tick paused =>
    powerSaveRfSleepCheck s net dtimSwitch tick paused
  | .manualDoWakeup net => powerSaveRfDtimManualDoWakeup s net
  | .dtimEnableHandler net => some (powerSaveDtimEnableHandler s net)
  | .dtimDisableHandler => some (powerSaveDtimDisableHandler s)
  | .psModeSet mode => some { s with bkPsMode := mode }
  | .beaconStateSet state => some { s with waitedBeacon := state }
  | .wkupEventSet value => some { s with psDisFlag := s.psDisFlag ||| value }

/-- Nothing happens any more in the loop before a reboot. -/
def step : Machine State Input Unit := fun s input =>
  if s.hung then some (s, ()) else (handle s input).map (·, ())

/-- The lock is taken exactly in sleep, an interrupt of the MAC that was enabled at the start is
enabled outside of it, and no sleep found the lock taken. -/
structure LockOk (ints : Reg) (s : State) : Prop where
  lock : (s.psRealSleep = 1 ∧ s.psLock = 0) ∨ (s.psRealSleep = 0 ∧ s.psLock = 1)
  enabled : s.psRealSleep = 0 → ∀ i, ints.getLsbD i = true → fiqMac.getLsbD i = true →
    s.intEnable.getLsbD i = true
  noError : Effect.errorPs ∉ s.effects

/-- In every state of the run the lock is as it should be, and no `ASSERT` fails. -/
def LockKept (ints : Reg) (inputs : List Input) : Prop :=
  (Machine.run step (State.init ints) inputs).isSome ∧
    ∀ n s os, Machine.run step (State.init ints) (inputs.take n) = some (s, os) → LockOk ints s

/-- The mode is closed only when the radio is awake. -/
def ClosedAwake (s : State) : Input → Prop
  | .dtimDisableHandler => s.hung = true ∨ s.bkPsMode ≠ .dtimPsClosing ∨ s.psRealSleep = 0
  | _ => True

instance (s : State) : (input : Input) → Decidable (ClosedAwake s input)
  | .dtimDisableHandler => inferInstanceAs (Decidable
      (s.hung = true ∨ s.bkPsMode ≠ .dtimPsClosing ∨ s.psRealSleep = 0))
  | .sleep _ _ _ _ | .macIdleCallback | .dtimWake _ _ _ | .pwmIsr _ | .rfSleepCheck _ _ _ _ |
    .manualDoWakeup _ | .dtimEnableHandler _ | .psModeSet _ | .beaconStateSet _ |
    .wkupEventSet _ => inferInstanceAs (Decidable True)

end TuyaSdk.PowerSave
