import Mathlib

/-!
# The PWM driver (`pwm_new.c`, `BkDriverPwm.c`)

Six channels in three groups. A group has one control register, with a byte of fields for each
of its channels, the mode of the group in bits 24 and 25, and the pending interrupts of its
channels in bits 30 and 31. The hardware sets these flags, writing a one clears them. A channel
has four timing registers.

Registers are kept by address. Before every access of the driver the hardware may raise flags
(`Dev.raises`), so every order of accesses and interrupts is covered. `Dev.cleared` is the log
of the flags that a write of the driver has cleared.
-/

namespace TuyaSdk.Pwm

/-! ## The registers -/

/-- `REG_PWM_GROUP_ADDR(x)`. -/
def groupAddr (x : Nat) : Nat := 0x00802B00 + 0x40 * x

/-- `REG_PWM_GROUP_CTRL_ADDR(x)`. -/
def ctrlAddr (x : Nat) : Nat := groupAddr x + 0x00 * 4

/-- `REG_GROUP_PWM0_T1_ADDR(x)` to `REG_GROUP_PWM0_T4_ADDR(x)`, by the number of the timer. -/
def pwm0TAddr (x i : Nat) : Nat := groupAddr x + i * 4

/-- `REG_GROUP_PWM1_T1_ADDR(x)` to `REG_GROUP_PWM1_T4_ADDR(x)`. -/
def pwm1TAddr (x i : Nat) : Nat := groupAddr x + (4 + i) * 4

/-- `REG_GROUP_PWM_CPU_ADDR(x)`. -/
def cpuAddr (x : Nat) : Nat := groupAddr x + 0x09 * 4

/-- `1 << n`. -/
abbrev bit (n : Nat) : BitVec 32 := BitVec.twoPow 32 n

/-- `PWM_GROUP_MODE_SET_BIT(x)`. -/
def modeSetBit (x : Nat) : Nat := 8 * x

/-- `PWM_GROUP_PWM_ENABLE_MASK(x)`. -/
def enableMask (x : Nat) : BitVec 32 := bit (8 * x + 3)

/-- `PWM_GROUP_PWM_INT_ENABLE_BIT(x)`. -/
def intEnableBit (x : Nat) : Nat := 8 * x + 4

/-- `PWM_GROUP_PWM_INT_LEVL_BIT(x)`. -/
def intLevlBit (x : Nat) : Nat := 8 * x + 6

/-- `PWM_GROUP_PWM_INT_LEVL_MASK(x)`. -/
def intLevlMask (x : Nat) : BitVec 32 := bit (intLevlBit x)

/-- `PWM_GROUP_PWM_CFG_UPDATA_MASK(x)`. -/
def cfgUpdataMask (x : Nat) : BitVec 32 := bit (8 * x + 7)

/-- `PWM_GROUP_PWM_GROUP_MODE_MASK`. -/
def groupModeMask : BitVec 32 := bit 24

/-- `PWM_GROUP_PWM_GROUP_MODE_ENABLE_MASK`. -/
def groupModeEnableMask : BitVec 32 := bit 25

/-- `PWM_GROUP_PWM_INT_STAT_CLEAR(x)`, and `PWM_GROUP_PWM_INT_STAT_MASK(x)`. -/
def intStatClear (x : Nat) : BitVec 32 := bit (x + 30)

/-- The registers, the interrupts that the hardware raises, and the driver's variables. -/
structure Dev (φ : Type*) where
  regs : Nat → BitVec 32
  /-- Bit 30 and 31 of the control registers, by channel. -/
  pending : Nat → Bool
  /-- The flags that come up right before the access of a moment. -/
  raises : Nat → Nat → Bool
  /-- What a read of a capture register gives at a moment. -/
  capture : Nat → BitVec 32
  moment : Nat
  cleared : List Nat
  currentGroup : Nat
  currentChannel : Nat
  /-- `p_PWM_Int_Handler`. -/
  pwmIntHandler : Nat → Option φ

variable {φ : Type*}

/-- What the hardware does before an access. -/
def Dev.tick (s : Dev φ) : Dev φ :=
  { s with
    pending := fun d => s.pending d || s.raises s.moment d
    moment := s.moment + 1 }

/-- The control register of group `g` with its flags. -/
def Dev.ctrl (s : Dev φ) (g : Nat) : BitVec 32 :=
  (s.regs (ctrlAddr g) &&& ~~~(intStatClear 0 ||| intStatClear 1)) |||
    (if s.pending (2 * g) then intStatClear 0 else 0) |||
    (if s.pending (2 * g + 1) then intStatClear 1 else 0)

/-- `REG_WRITE` of a register other than a control register. -/
def Dev.regWrite (s : Dev φ) (addr : Nat) (value : BitVec 32) : Dev φ :=
  { s.tick with regs := Function.update s.regs addr value }

/-- `REG_READ(REG_PWM_GROUP_CTRL_ADDR(g))`. -/
def Dev.readCtrl (s : Dev φ) (g : Nat) : BitVec 32 × Dev φ := (s.tick.ctrl g, s.tick)

/-- The flags of group `g` that a write of `value` clears. -/
def Dev.clearedBy (s : Dev φ) (g : Nat) (value : BitVec 32) : List Nat :=
  [2 * g, 2 * g + 1].filter fun d => s.pending d && value.getLsbD (d % 2 + 30)

/-- `REG_WRITE(REG_PWM_GROUP_CTRL_ADDR(g), value)`. -/
def Dev.writeCtrl (s : Dev φ) (g : Nat) (value : BitVec 32) : Dev φ :=
  { s.tick with
    regs := Function.update s.regs (ctrlAddr g) value
    pending := fun d => s.tick.pending d && !(d / 2 == g && value.getLsbD (d % 2 + 30))
    cleared := s.cleared ++ s.tick.clearedBy g value }

/-- A control register is read, changed and written back. -/
def Dev.modifyCtrl (s : Dev φ) (g : Nat) (f : BitVec 32 → BitVec 32) : Dev φ :=
  (s.readCtrl g).2.writeCtrl g (f (s.readCtrl g).1)

/-! ## `pwm_new.c` -/

/-- `pwm_param_t` without the clock. -/
structure PwmParam (φ : Type*) where
  channel : Nat
  mode : BitVec 3
  intEn : BitVec 1
  endValue : BitVec 32
  dutyCycle1 : BitVec 32
  dutyCycle2 : BitVec 32
  dutyCycle3 : BitVec 32
  pIntHandler : Option φ

/-- `PWM_COUNT`. -/
def PWM_COUNT : Nat := 6

/-- `PWM_CHANNEL_NUMBER_MAX`. -/
def PWM_CHANNEL_NUMBER_MAX : Nat := 5

/-- The group of a channel, as the driver's functions find it. -/
def groupOf (ucChannel : Nat) : Nat :=
  if ucChannel < 2 then 0 else if ucChannel < 4 then 1 else 2

/-- The number of a channel in its group. -/
def chanOf (ucChannel : Nat) : Nat :=
  if ucChannel < 2 then ucChannel else if ucChannel < 4 then ucChannel - 2 else ucChannel - 4

/-- `current_group` and `current_channel` are set for a channel. -/
def Dev.select (s : Dev φ) (ucChannel : Nat) : Dev φ :=
  { s with currentGroup := groupOf ucChannel, currentChannel := chanOf ucChannel }

/-- `get_current_group`. -/
def getCurrentGroup (s : Dev φ) (channel : Nat) : Nat × Dev φ :=
  if channel ≥ PWM_COUNT then (255, s) else ((s.select channel).currentGroup, s.select channel)

/-- `get_set_group`. -/
def getSetGroup (channel : Nat) : Nat :=
  if channel ≥ PWM_COUNT then 255 else groupOf channel

/-- `get_set_channel`. -/
def getSetChannel (channel : Nat) : Nat := (channel + 512 - 2 * getSetGroup channel) % 256

/-- `pwm_check_group`. -/
def pwmCheckGroup (channel1 channel2 : Nat) : Nat :=
  if channel2 = channel1 + 1 ∨ channel1 = channel2 + 1 then
    if channel1 = 0 then if channel2 = 1 then 1 else 0
    else if channel1 = 1 then if channel2 = 0 then 1 else 0
    else if channel1 = 2 then if channel2 = 3 then 1 else 0
    else if channel1 = 3 then if channel2 = 2 then 1 else 0
    else if channel1 = 4 then if channel2 = 5 then 1 else 0
    else if channel2 = 4 then 1 else 0
  else 0

/-- The four timing registers of a channel are written in order. -/
def Dev.writeTimers (s : Dev φ) (group chan : Nat) (t1 t2 t3 t4 : BitVec 32) : Dev φ :=
  if chan = 0 then
    (((s.regWrite (pwm0TAddr group 1) t1).regWrite (pwm0TAddr group 2) t2).regWrite
      (pwm0TAddr group 3) t3).regWrite (pwm0TAddr group 4) t4
  else
    (((s.regWrite (pwm1TAddr group 1) t1).regWrite (pwm1TAddr group 2) t2).regWrite
      (pwm1TAddr group 3) t3).regWrite (pwm1TAddr group 4) t4

/-- The value that clears the flag of a channel and no other. -/
def clearStat (chan : Nat) (value : BitVec 32) : BitVec 32 :=
  (value &&& ~~~(intStatClear 0 ||| intStatClear 1)) ||| intStatClear chan

/-- The interrupt-enable field of a channel is set. -/
def setIntEnable (chan : Nat) (enable : BitVec 1) (value : BitVec 32) : BitVec 32 :=
  (value &&& ~~~((1 : BitVec 32) <<< intEnableBit chan)) |||
    (enable.setWidth 32 <<< intEnableBit chan)

/-- The check at the head of `init_pwm_param`. -/
def PwmParam.Valid (p : PwmParam φ) : Prop :=
  p.channel < PWM_COUNT ∧ p.dutyCycle1 ≤ p.endValue

instance (p : PwmParam φ) : Decidable p.Valid := inferInstanceAs (Decidable (_ ∧ _))

/-- `init_pwm_param`; pins and clocks are other devices. -/
def initPwmParam (s : Dev φ) : Option (PwmParam φ) → Nat × Dev φ
  | none => (1, s)
  | some p =>
    if ¬p.Valid then (1, s)
    else
      let g := groupOf p.channel
      let c := chanOf p.channel
      -- pwm mode set
      let s := (s.select p.channel).modifyCtrl g fun value =>
        (value &&& ~~~((7 : BitVec 32) <<< modeSetBit c)) ||| (p.mode.setWidth 32 <<< modeSetBit c)
      let s := s.writeTimers g c p.dutyCycle1 p.dutyCycle2 p.dutyCycle3 p.endValue
      -- clear int status
      let s := s.modifyCtrl g (clearStat c)
      let s := { s with pwmIntHandler := Function.update s.pwmIntHandler p.channel p.pIntHandler }
      -- pwm int set
      (0, s.modifyCtrl g (setIntEnable c p.intEn))

/-- `pwm_unit_enable`. -/
def pwmUnitEnable (s : Dev φ) (ucChannel : Nat) : Dev φ :=
  if ucChannel > PWM_CHANNEL_NUMBER_MAX then s
  else (s.select ucChannel).modifyCtrl (groupOf ucChannel) (· ||| enableMask (chanOf ucChannel))

/-- `pwm_unit_disable`. -/
def pwmUnitDisable (s : Dev φ) (ucChannel : Nat) : Dev φ :=
  if ucChannel > PWM_CHANNEL_NUMBER_MAX then s
  else (s.select ucChannel).modifyCtrl (groupOf ucChannel) (· &&& ~~~enableMask (chanOf ucChannel))

/-- `pwm_interrupt_enable`; the value with the flag to clear is made and not written. -/
def pwmInterruptEnable (s : Dev φ) (ucChannel : Nat) (enable : Bool) : Dev φ :=
  if ucChannel > PWM_CHANNEL_NUMBER_MAX then s
  else
    let s := s.select ucChannel
    let s := if enable then (s.readCtrl (groupOf ucChannel)).2 else s
    s.modifyCtrl (groupOf ucChannel) (setIntEnable (chanOf ucChannel) (BitVec.ofBool enable))

/-- `pwm_capture_value_get`; `none` is its loop, which waits for a value read before. -/
def pwmCaptureValueGet (s : Dev φ) (ucChannel : Nat) : Option (BitVec 32 × Dev φ) :=
  let s := s.select ucChannel
  let value := s.capture s.moment
  let s := s.tick.regWrite (cpuAddr (groupOf ucChannel)) (value ||| bit (chanOf ucChannel))
  let state := s.capture s.moment
  let s := s.tick
  if state.getLsbD ucChannel then some (s.capture s.moment, s.tick) else none

/-- `pwm_set_duty_cycle`. -/
def pwmSetDutyCycle (s : Dev φ) (ucChannel : Nat) (u32DutyCycle : BitVec 32) : Dev φ :=
  let g := groupOf ucChannel
  let c := chanOf ucChannel
  let s := ((s.select ucChannel).readCtrl g).2
  let s := s.regWrite (if c = 0 then pwm0TAddr g 1 else pwm1TAddr g 1) u32DutyCycle
  s.modifyCtrl g (· ||| cfgUpdataMask c)

/-- `pwm_set_end_value`. -/
def pwmSetEndValue (s : Dev φ) (ucChannel : Nat) (u32EndValue : BitVec 32) : Dev φ :=
  let g := groupOf ucChannel
  let c := chanOf ucChannel
  let s := ((s.select ucChannel).readCtrl g).2
  let s := s.regWrite (if c = 0 then pwm0TAddr g 4 else pwm1TAddr g 4) u32EndValue
  s.modifyCtrl g (· ||| cfgUpdataMask c)

/-- `pwm_group_enable`. -/
def pwmGroupEnable (s : Dev φ) (ucChannel : Nat) : Dev φ :=
  if ucChannel > PWM_CHANNEL_NUMBER_MAX then s
  else
    { s with currentGroup := groupOf ucChannel }.modifyCtrl (groupOf ucChannel)
      (· ||| (enableMask 0 ||| enableMask 1))

/-- `pwm_group_mode_disable`. -/
def pwmGroupModeDisable (s : Dev φ) (ucChannel : Nat) : Dev φ :=
  if ucChannel > PWM_CHANNEL_NUMBER_MAX then s
  else
    { s with currentGroup := groupOf ucChannel }.modifyCtrl (groupOf ucChannel)
      (· &&& ~~~(enableMask 0 ||| enableMask 1 ||| groupModeMask ||| groupModeEnableMask))

/-- `pwm_group_mode_enable`. -/
def pwmGroupModeEnable (s : Dev φ) (ucChannel : Nat) : Dev φ :=
  let s := { s with
    currentGroup := groupOf ucChannel
    currentChannel := if ucChannel < 2 then ucChannel else s.currentChannel }
  pwmGroupEnable
    (s.modifyCtrl (groupOf ucChannel) (· ||| (groupModeMask ||| groupModeEnableMask))) ucChannel

/-- `pwm_init_levl_set_low`. -/
def pwmInitLevlSetLow (s : Dev φ) (ucChannel : Nat) : Dev φ :=
  if ucChannel > PWM_CHANNEL_NUMBER_MAX then s
  else (s.select ucChannel).modifyCtrl (groupOf ucChannel) (· &&& ~~~intLevlMask (chanOf ucChannel))

/-- `pwm_init_levl_set_high`. -/
def pwmInitLevlSetHigh (s : Dev φ) (ucChannel : Nat) : Dev φ :=
  if ucChannel > PWM_CHANNEL_NUMBER_MAX then s
  else (s.select ucChannel).modifyCtrl (groupOf ucChannel) (· ||| intLevlMask (chanOf ucChannel))

/-- `pwm_init_levl_get`. -/
def pwmInitLevlGet (s : Dev φ) (ucChannel : Nat) : Nat × Dev φ :=
  if ucChannel > PWM_CHANNEL_NUMBER_MAX then (1, s)
  else
    let s := s.select ucChannel
    let value := s.readCtrl (groupOf ucChannel)
    (if value.1 &&& intLevlMask (chanOf ucChannel) ≠ 0 then 1 else 0, value.2)

/-- `pwm_update_param`. -/
def pwmUpdateParam (s : Dev φ) (p : PwmParam φ) : Dev φ :=
  let r := getCurrentGroup s p.channel
  { r.2 with currentGroup := r.1 }.writeTimers r.1 r.2.currentChannel
    p.dutyCycle1 p.dutyCycle2 p.dutyCycle3 p.endValue

/-- `pwm_single_update_param`. -/
def pwmSingleUpdateParam (s : Dev φ) (p : PwmParam φ) : Dev φ :=
  s.writeTimers (getSetGroup p.channel) (getSetChannel p.channel)
    p.dutyCycle1 p.dutyCycle2 p.dutyCycle3 p.endValue

/-- `pwm_update_param_enable`. -/
def pwmUpdateParamEnable (s : Dev φ) (ucChannel : Nat) : Dev φ :=
  s.modifyCtrl (getSetGroup ucChannel) (· ||| cfgUpdataMask (getSetChannel ucChannel))

/-- `pwm_single_update_param_enable`. -/
def pwmSingleUpdateParamEnable (s : Dev φ) (ucChannel : Nat) (level : BitVec 32) : Dev φ :=
  let c := getSetChannel ucChannel
  s.modifyCtrl (getSetGroup ucChannel) fun value =>
    (value &&& ~~~intLevlMask c) ||| (cfgUpdataMask c ||| (level <<< intLevlBit c))

/-- `pwm_group_update_param_enable`; `initLevel0` and `initLevel1` are fields of its argument. -/
def pwmGroupUpdateParamEnable (s : Dev φ) (channel1 : Nat) (initLevel0 initLevel1 : BitVec 32) :
    Dev φ :=
  if channel1 ≥ PWM_COUNT then s
  else
    (s.select channel1).modifyCtrl (groupOf channel1) fun value =>
      let value := value &&& ~~~(intLevlMask 1 ||| intLevlMask 0)
      if chanOf channel1 = 0 then
        value ||| (cfgUpdataMask 0 ||| cfgUpdataMask 1 ||| (initLevel1 <<< intLevlBit 1) |||
          (initLevel0 <<< intLevlBit 0))
      else
        value ||| (cfgUpdataMask 0 ||| cfgUpdataMask 1 ||| (initLevel0 <<< intLevlBit 1) |||
          (initLevel1 <<< intLevlBit 0))

/-- `pwm_nogroup_update_param_enable`. -/
def pwmNogroupUpdateParamEnable (s : Dev φ) (channel1 channel2 : Nat)
    (initLevel0 initLevel1 : BitVec 32) : Dev φ :=
  let r1 := getCurrentGroup s channel1
  let chan1 := r1.2.currentChannel
  let r2 := getCurrentGroup { r1.2 with currentGroup := r1.1 } channel2
  let chan2 := r2.2.currentChannel
  let value1 := r2.2.readCtrl r1.1
  let value2 := value1.2.readCtrl r2.1
  let s := value2.2.writeCtrl r1.1 ((value1.1 &&& ~~~intLevlMask chan1) |||
    (cfgUpdataMask chan1 ||| (initLevel0 <<< intLevlBit chan1)))
  s.writeCtrl r2.1 ((value2.1 &&& ~~~intLevlMask chan2) |||
    (cfgUpdataMask chan2 ||| (initLevel1 <<< intLevlBit chan2)))

/-- `pwm_param_clear`. -/
def pwmParamClear (s : Dev φ) (ucChannel : Nat) : Dev φ :=
  (s.select ucChannel).writeTimers (groupOf ucChannel) (chanOf ucChannel) 0 0 0 0

/-- The commands of `pwm_ctrl` with their parameters. -/
inductive Cmd (φ : Type*) where
  | unitEnable (ucChannel : Nat)
  | unitDisable (ucChannel : Nat)
  | irEnable (cfg : Option Nat)
  | irDisable (cfg : Option Nat)
  | setIrCallback (cfg : Option (Nat × Option φ))
  | irClear (ucChannel : Nat)
  | initParam (p : Option (PwmParam φ))
  | setDutyCycle (p : PwmParam φ)
  | setEndValue (p : PwmParam φ)
  | capGet (ucChannel : Nat)
  | deinitParam (p : Option (PwmParam φ))
  | groupEnable (ucChannel : Nat)
  | groupDisable (ucChannel : Nat)
  | updataParam (p : PwmParam φ)
  | singleUpdataParam (p : PwmParam φ)
  | updataParamEnable (ucChannel : Nat)
  | initLevlSetLow (ucChannel : Nat)
  | initLevlSetHigh (ucChannel : Nat)
  | unknown

/-- `pwm_ctrl`, with the state left behind; `none` is a call that does not return. -/
def pwmCtrl (s : Dev φ) : Cmd φ → Option (Dev φ)
  | .unitEnable c => some (if c > 5 then s else pwmUnitEnable s c)
  | .unitDisable c => some (if c > 5 then s else pwmParamClear (pwmUnitDisable s c) c)
  | .irEnable none => some s
  | .irEnable (some c) => some (pwmInterruptEnable s (c % 256) true)
  | .irDisable none => some s
  | .irDisable (some c) => some (pwmInterruptEnable s (c % 256) false)
  | .setIrCallback none => some s
  | .setIrCallback (some (c, f)) =>
    some (if c ≤ PWM_CHANNEL_NUMBER_MAX then
      { s with pwmIntHandler := Function.update s.pwmIntHandler c f } else s)
  | .irClear c =>
    some (if c > 5 then s else
      { s with pwmIntHandler := Function.update s.pwmIntHandler c none })
  | .initParam p => some (initPwmParam s p).2
  | .setDutyCycle p =>
    some (if p.channel ≥ PWM_COUNT then s else pwmSetDutyCycle s p.channel p.dutyCycle1)
  | .setEndValue p =>
    some (if p.channel ≥ PWM_COUNT then s else pwmSetEndValue s p.channel p.endValue)
  | .capGet c => if c ≥ PWM_COUNT then some s else (pwmCaptureValueGet s c).map (·.2)
  | .deinitParam p => some (initPwmParam s p).2
  | .groupEnable c => some (if c > 5 then s else pwmGroupModeEnable s c)
  | .groupDisable c => some (if c > 5 then s else pwmGroupModeDisable s c)
  | .updataParam p => some (pwmUpdateParam s p)
  | .singleUpdataParam p => some (pwmSingleUpdateParam s p)
  | .updataParamEnable c => some (if c > 5 then s else pwmUpdateParamEnable s c)
  | .initLevlSetLow c => some (if c > 5 then s else pwmInitLevlSetLow s c)
  | .initLevlSetHigh c => some (if c > 5 then s else pwmInitLevlSetHigh s c)
  | .unknown => some s

/-- What a pass of the loop of `pwm_isr` found and did. -/
structure IsrPass (φ : Type*) where
  channel : Nat
  /-- The flag of the channel when it was examined. -/
  flag : Bool
  /-- The entry of the channel in `p_PWM_Int_Handler`. -/
  handler : Option φ
  /-- The flags that the pass cleared. -/
  cleared : List Nat
  called : Option φ

/-- A pass of the loop of `pwm_isr`; `call f i` is what the handler `f` does. -/
def isrPass (call : φ → Nat → Dev φ → Dev φ) (s : Dev φ) (i : Nat) : Dev φ × IsrPass φ :=
  let g := groupOf i
  let c := chanOf i
  let status := s.readCtrl g
  if status.1 &&& intStatClear c ≠ 0 then
    let value := status.2.readCtrl g
    let s' := value.2.writeCtrl g (clearStat c value.1)
    let hit := value.2.tick.clearedBy g (clearStat c value.1)
    match s'.pwmIntHandler i with
    | some f => (call f i s', ⟨i, s.tick.pending i, s.pwmIntHandler i, hit, some f⟩)
    | none => (s', ⟨i, s.tick.pending i, s.pwmIntHandler i, hit, none⟩)
  else (status.2, ⟨i, s.tick.pending i, s.pwmIntHandler i, [], none⟩)

/-- The passes of the loop from channel `i` on. -/
def isrLoop (call : φ → Nat → Dev φ → Dev φ) : Dev φ → List Nat → Dev φ × List (IsrPass φ)
  | s, [] => (s, [])
  | s, i :: is =>
    let r := isrPass call s i
    let rest := isrLoop call r.1 is
    (rest.1, r.2 :: rest.2)

/-- `pwm_isr`. -/
def pwmIsr (call : φ → Nat → Dev φ → Dev φ) (s : Dev φ) : Dev φ × List (IsrPass φ) :=
  isrLoop call s (List.range PWM_COUNT)

/-! ## `BkDriverPwm.c` -/

/-- `PWM_PWM_MODE`. -/
def PWM_PWM_MODE : BitVec 3 := 1

/-- `bk_pwm_initialize`. -/
def bkPwmInitialize (s : Dev φ) (pwm : Nat) (count dutyCycle1 dutyCycle2 dutyCycle3 : BitVec 32) :
    Dev φ :=
  let s := if dutyCycle1 = 0 then pwmInitLevlSetLow s pwm else pwmInitLevlSetHigh s pwm
  (initPwmParam s (some ⟨pwm, PWM_PWM_MODE, 0, count, dutyCycle1, dutyCycle2, dutyCycle3, none⟩)).2

/-- `bk_pwm_update_param`. -/
def bkPwmUpdateParam (s : Dev φ) (pwm : Nat)
    (frequency dutyCycle1 dutyCycle2 dutyCycle3 : BitVec 32) : Dev φ :=
  let initLevel : BitVec 32 := if dutyCycle1 = 0 then 0 else 1
  let s := pwmSingleUpdateParam s ⟨pwm, 0, 0, frequency, dutyCycle1, dutyCycle2, dutyCycle3, none⟩
  pwmSingleUpdateParamEnable s pwm initLevel

/-- The driver with the variables of the complementary pairs. -/
structure Cw (φ : Type*) where
  pwm : Dev φ
  groupFlag : Nat
  pwm1SetHighFlag : Nat
  pwm2SetLowFlag : Nat

/-- The check of the timing of a pair. -/
def CwValid (count dutyCycle1 dutyCycle2 deadBand : BitVec 32) : Prop :=
  ¬count < dutyCycle1 + dutyCycle2 + 2 * deadBand

instance (count d1 d2 db : BitVec 32) : Decidable (CwValid count d1 d2 db) :=
  inferInstanceAs (Decidable ¬_)

/-- `bk_pwm_cw_initialize`. -/
def bkPwmCwInitialize (s : Cw φ) (pwm1 pwm2 : Nat)
    (count dutyCycle1 dutyCycle2 deadBand : BitVec 32) : Cw φ :=
  if ¬CwValid count dutyCycle1 dutyCycle2 deadBand then s
  else
    let t1 := if dutyCycle1 = 0 then 0 else count - dutyCycle1 - deadBand
    let t2 := if dutyCycle1 = 0 then 0 else count - deadBand
    let p := (initPwmParam s.pwm (some ⟨pwm1, PWM_PWM_MODE, 0, count, t1, t2, 0, none⟩)).2
    let p := pwmInitLevlSetLow p pwm1
    let p := (initPwmParam p (some ⟨pwm2, PWM_PWM_MODE, 0, count, dutyCycle2, count, 0, none⟩)).2
    let p := if dutyCycle2 = 0 then pwmInitLevlSetLow p pwm2 else pwmInitLevlSetHigh p pwm2
    { pwm := if dutyCycle1 = count then pwmInitLevlSetHigh p pwm1 else pwmInitLevlSetLow p pwm1
      groupFlag := pwmCheckGroup pwm1 pwm2
      pwm1SetHighFlag := if dutyCycle1 = count then 1 else 0
      pwm2SetLowFlag := if dutyCycle2 = 0 then 1 else 0 }

/-- `bk_pwm_cw_start`. -/
def bkPwmCwStart (s : Cw φ) (pwm1 pwm2 : Nat) : Cw φ :=
  if s.groupFlag = 1 then { s with pwm := pwmGroupModeEnable s.pwm pwm1 }
  else { s with pwm := pwmUnitEnable (pwmUnitEnable s.pwm pwm1) pwm2 }

/-- `bk_pwm_cw_stop`. -/
def bkPwmCwStop (s : Cw φ) (pwm1 pwm2 : Nat) : Cw φ :=
  if s.groupFlag = 1 then { s with pwm := pwmGroupModeDisable s.pwm pwm1 }
  else { s with pwm := pwmUnitDisable (pwmUnitDisable s.pwm pwm1) pwm2 }

/-- `bk_pwm_cw_update_param`. `stack0` and `stack1` are what the fields `init_level0` and
`init_level1` of its parameter block hold before they are set. -/
def bkPwmCwUpdateParam (s : Cw φ) (pwm1 pwm2 : Nat)
    (count dutyCycle1 dutyCycle2 deadBand stack0 stack1 : BitVec 32) : Cw φ :=
  if ¬CwValid count dutyCycle1 dutyCycle2 deadBand then s
  else
    let deadBand := if dutyCycle1 = 0 then 0 else deadBand
    let groupFlag := pwmCheckGroup pwm1 pwm2
    let p := pwmUpdateParam s.pwm
      ⟨pwm1, 0, 0, count, count - dutyCycle1 - deadBand, count - deadBand, 0, none⟩
    let p := pwmUpdateParam p ⟨pwm2, 0, 0, count, dutyCycle2, count, 0, none⟩
    let set1 := s.pwm1SetHighFlag = 1
    let high := if set1 then (if dutyCycle1 = count then 1 else 0) else s.pwm1SetHighFlag
    let level0 := if set1 then (if dutyCycle1 = count then 1 else 0) else stack0
    let set2 := s.pwm2SetLowFlag = 1
    let low := if set2 then (if dutyCycle2 = 0 then 1 else 0) else s.pwm2SetLowFlag
    let level1 := if set2 then (if dutyCycle2 = 0 then 0 else 1) else stack1
    let get2 := pwmInitLevlGet p pwm2
    let p := if dutyCycle2 = 0 then get2.2 else p
    let low := if dutyCycle2 = 0 ∧ get2.1 = 1 then 1 else low
    let level1 := if dutyCycle2 = 0 then (if get2.1 = 1 then 0 else level1) else 1
    let get1 := pwmInitLevlGet p pwm1
    let p := if dutyCycle1 = count then get1.2 else p
    let high := if dutyCycle1 = count ∧ get1.1 = 0 then 1 else high
    let level0 := if dutyCycle1 = count then (if get1.1 = 0 then 1 else level0) else 0
    { pwm :=
        if groupFlag ≠ 0 then pwmGroupUpdateParamEnable p pwm1 level0 level1
        else pwmNogroupUpdateParamEnable p pwm1 pwm2 level0 level1
      groupFlag := groupFlag
      pwm1SetHighFlag := high
      pwm2SetLowFlag := low }

end TuyaSdk.Pwm
