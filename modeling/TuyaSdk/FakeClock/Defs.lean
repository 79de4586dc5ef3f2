import TuyaSdk.McuPs

/-!
# The software clock (`func/misc/fake_clock.c`)

The tick interrupt `fclk_hdl` counts ticks and seconds, and `fclk_update_tick` steps the clock over
ticks that were missed. A timer compares the clock with the time of the hardware every 15 s: a clock
that is late is stepped forward, one that is early gets a debt `increase_tick`, in ms, that
`mcu_ps.c` charges against the ticks to come. All of it runs with interrupts disabled.
-/

namespace TuyaSdk.FakeClock
open TuyaSdk.Lib TuyaSdk.McuPs

/-- `FCLK_SECOND` -/
abbrev fclkSecond : Nat := 1000 / fclkDurationMs

/-! ## The count -/

/-- `current_clock`, `current_seconds` and `second_countdown`. -/
structure Clock where
  currentClock : Nat
  currentSeconds : Nat
  secondCountdown : Nat

/-- The clock as it is initialised. -/
def Clock.initial : Clock := ⟨0, 0, fclkSecond⟩

/-- The count of `fclk_hdl`. -/
def Clock.count (c : Clock) : Clock :=
  let secondCountdown := sub32 c.secondCountdown 1
  if secondCountdown = 0 then
    { currentClock := u32 (c.currentClock + 1)
      currentSeconds := u32 (c.currentSeconds + 1)
      secondCountdown := fclkSecond }
  else
    { c with
      currentClock := u32 (c.currentClock + 1)
      secondCountdown := secondCountdown }

/-- The loop of `fclk_freertos_update_tick`: `current_seconds` and `tick` behind it. -/
def wholeSeconds (currentSeconds tick : Nat) : Nat × Nat :=
  if fclkSecond ≤ tick then wholeSeconds (u32 (currentSeconds + 1)) (tick - fclkSecond)
  else (currentSeconds, tick)
  termination_by tick
  decreasing_by simp only [fclkSecond, fclkDurationMs] at *; omega

/-- `fclk_freertos_update_tick` -/
def fclkFreertosUpdateTick (c : Clock) (tick : Nat) : Clock :=
  let currentClock := u32 (c.currentClock + tick)
  let (currentSeconds, tick) := wholeSeconds c.currentSeconds tick
  if c.secondCountdown ≤ tick then
    ⟨currentClock, u32 (currentSeconds + 1), sub32 fclkSecond (sub32 tick c.secondCountdown)⟩
  else ⟨currentClock, currentSeconds, sub32 c.secondCountdown tick⟩

/-- `fclk_get_second` -/
def fclkGetSecond (c : Clock) : Nat := c.currentClock / fclkSecond

/-- `fclk_reset_count` -/
def fclkResetCount (c : Clock) : Clock := { c with currentClock := 0, currentSeconds := 0 }

/-! ## The debt -/

/-- `mcu_ps_cal_increase_tick`: `*lost_p` and `increase_tick` behind it. -/
def mcuPsCalIncreaseTick (lostP : Nat) (increaseTick : Int) : Nat × Int :=
  if int32 lostP ≤ 0 ∨ increaseTick = 0 then (lostP, increaseTick)
  else
    let lost := int32 lostP + increaseTick
    if lost < 0 then (0, lost) else (lost.toNat, 0)

/-- The clock, `increase_tick`, `need_pass`, `cal_tick_save.tmp1` and `mcu_ps_machw_save`. -/
structure State where
  clock : Clock
  increaseTick : Int
  needPass : Nat
  tmp1 : Nat
  fclkTick : Nat
  machwTm : Nat

/-- After `timer_cal_init`, with nothing counted. -/
def State.initial : State := ⟨.initial, 0, 0, 0, 0, 0⟩

/-- `BK_TICKS_TO_MS(fclk_get_tick())` -/
def State.ms (s : State) : Nat := bkTicksToMs s.clock.currentClock

/-- `mcu_ps_need_pstick`: its first test sets a value that is overwritten. -/
def mcuPsNeedPstick (s : State) : State × Nat :=
  let needPass := u32 (s.needPass + 1)
  if s.needPass % 5 = 0 then
    let (lost, increaseTick) := mcuPsCalIncreaseTick fclkDurationMs s.increaseTick
    ({ s with needPass := needPass, increaseTick := increaseTick }, lost)
  else ({ s with needPass := needPass }, fclkDurationMs)

/-- `fclk_hdl`; `pwmIsr` is what `power_save_use_pwm_isr` returns. -/
def fclkHdl (s : State) (pwmIsr : Bool) : State :=
  if pwmIsr = true then s
  else
    let (s, ret) := mcuPsNeedPstick s
    if ret = 0 then s else { s with clock := s.clock.count }

/-- `fclk_update_tick`, which clears the debt with `mcu_ps_increase_clr`. -/
def fclkUpdateTick (s : State) (tick : Nat) : State :=
  if tick = 0 then s
  else { s with increaseTick := 0, clock := fclkFreertosUpdateTick s.clock tick }

/-- `mcu_ps_machw_init`; `machw` is what `hal_machw_time` returns. -/
def mcuPsMachwInit (s : State) (machw : BitVec 32) : State :=
  { s with fclkTick := s.ms, machwTm := machw.toNat }

/-- `ONE_CAL_TIME` -/
abbrev oneCalTime : Nat := 15000

/-- `lost` of `timer_cal_tick`. -/
def State.timerLost (s : State) : Int := int32 (sub32 (u32 (s.tmp1 + oneCalTime)) s.ms)

/-- `timer_cal_tick` -/
def timerCalTick (s : State) (machw : BitVec 32) : State :=
  let lost := s.timerLost
  let s := { s with tmp1 := u32 (s.tmp1 + oneCalTime) }
  let s :=
    if 2 * fclkDurationMs ≤ lost then
      { fclkUpdateTick s ((lost - fclkDurationMs).toNat / fclkDurationMs) with increaseTick := 0 }
    else if lost ≤ -(2 * fclkDurationMs) then
      { s with increaseTick := lost + fclkDurationMs }
    else s
  mcuPsMachwInit s machw

/-- The readings of `hal_machw_time` in `mcu_ps_machw_cal`, in order, and whether power save is on
and the radio sleeps by DTIM. -/
structure Machw where
  dtimEnabled : Bool
  probe : BitVec 32
  machw : BitVec 32
  last : BitVec 32

/-- `lost` of `mcu_ps_machw_cal`. -/
def State.machwLost (s : State) (m : Machw) : Nat :=
  sub32 (sub32 m.machw.toNat s.machwTm / 1000) (sub32 s.ms s.fclkTick)

/-- `mcu_ps_machw_cal` -/
def mcuPsMachwCal (s : State) (m : Machw) : State :=
  if m.dtimEnabled = false then s
  else if s.machwTm = 0 ∨ s.machwTm = 0xdead5555 ∨ m.probe = 0xdead5555 then
    mcuPsMachwInit s m.machw
  else
    let lost := s.machwLost m
    if lost < 0xFFFFFFFF / 2 ∧ 0 < lost then
      if 50000 < lost then mcuPsMachwInit s m.last
      else
        let (lost, increaseTick) := mcuPsCalIncreaseTick lost s.increaseTick
        mcuPsMachwInit
          (fclkUpdateTick { s with increaseTick := increaseTick } (lost / fclkDurationMs)) m.last
    else s

/-- What `mcu_power_save` finds: it slept and measured the ticks it missed (0 if it did not sleep at
all), or the radio was awake and the clock is set by the hardware. -/
inductive Wakeup where
  | measured (missTicks : BitVec 32)
  | awake (m : Machw)

/-- `mcu_power_save`: the state and `miss_ticks`. -/
def mcuPowerSaveTicks (s : State) : Wakeup → State × Nat
  | .measured missTicks =>
    let (lost, increaseTick) := mcuPsCalIncreaseTick missTicks.toNat s.increaseTick
    ({ s with increaseTick := increaseTick }, lost)
  | .awake m =>
    let s := mcuPsMachwCal s m
    let (lost, increaseTick) := mcuPsCalIncreaseTick 0 s.increaseTick
    ({ s with increaseTick := increaseTick }, lost)

/-- `bk_wlan_mcu_suppress_and_sleep` -/
def bkWlanMcuSuppressAndSleep (s : State) (w : Wakeup) : State :=
  let (s, missedTicks) := mcuPowerSaveTicks s w
  fclkUpdateTick s missedTicks

end TuyaSdk.FakeClock
