import Mathlib

/-!
# The PWM channels of the adapter

`tkl_pwm.c`: the configuration of each channel, which may be set in any order or not at all, and
the calls that turn it into counts of the 26 MHz clock for the driver. Each call comes with the
entries of the two static arrays that it goes to and what it asks of the driver. `none` is a
division by zero.
-/

namespace TuyaSdk.TklPwm

abbrev pwmDevNum : Nat := 6
/-- The clock of the counter, in hertz. -/
abbrev pwmClock : Nat := 26 * 1000000
/-- A duty of 100 percent. -/
abbrev dutyCycle : Nat := 10000

/-- `OPERATE_RET`, as far as the calls return it. -/
inductive OperateRet where
  | ok
  | comError
  | invalidParm
  | notSupported
  deriving DecidableEq, Repr

/-- `TUYA_PWM_POLARITY_E` -/
inductive Polarity where
  | negative
  | positive
  deriving DecidableEq, Repr

/-- `TUYA_PWM_BASE_CFG_T`, whose other fields are not copied. -/
structure PwmBaseCfg where
  polarity : Polarity
  duty : BitVec 32
  frequency : BitVec 32
  deriving DecidableEq, Repr

/-- The statics. Both arrays go on with the memory behind them. -/
structure Statics where
  pwmCfg : Nat → PwmBaseCfg
  pwmStartFlag : Nat → Bool

/-- A call on the driver, with the arguments that are not constant. -/
inductive DrvCall where
  | bkInitialize (pwm : Nat) (count duty : BitVec 32)
  | start (pwm : Nat)
  | updateParam (pwm : Nat) (count duty : BitVec 32)
  | stop (pwm : Nat)
  | cwInitialize (pwm1 pwm2 : Nat) (count duty1 duty2 deadBand : BitVec 32)
  | cwStart (pwm1 pwm2 : Nat)
  | cwUpdateParam (pwm1 pwm2 : Nat) (count duty1 duty2 deadBand : BitVec 32)
  | cwStop (pwm1 pwm2 : Nat)
  deriving DecidableEq, Repr

/-- An entry of `pwm_cfg` or of `pwm_start_flag` that is read or written, or a call on the
driver. -/
inductive Event where
  | cfg (i : Nat)
  | flag (i : Nat)
  | drv (call : DrvCall)
  deriving DecidableEq, Repr

/-- What a call returns and leaves, and what it does in order. -/
structure Outcome where
  ret : OperateRet
  statics : Statics
  events : List Event

/-- Whether the driver returns `kNoErr`. -/
abbrev Driver := DrvCall → Bool

/-! ## The configuration -/

/-- The setters: a check of the channel, and its entry changed. -/
def updateCfg (s : Statics) (chId : Nat) (f : PwmBaseCfg → PwmBaseCfg) : Outcome :=
  if chId > pwmDevNum then ⟨.invalidParm, s, []⟩
  else ⟨.ok, { s with pwmCfg := Function.update s.pwmCfg chId (f (s.pwmCfg chId)) }, [.cfg chId]⟩

/-- `tkl_pwm_init` -/
def tklPwmInit (s : Statics) (chId : Nat) (cfg : PwmBaseCfg) : Outcome :=
  updateCfg s chId fun _ => ⟨cfg.polarity, cfg.duty, cfg.frequency⟩

/-- `tkl_pwm_duty_set` -/
def tklPwmDutySet (s : Statics) (chId : Nat) (duty : BitVec 32) : Outcome :=
  updateCfg s chId fun c => { c with duty }

/-- `tkl_pwm_frequency_set` -/
def tklPwmFrequencySet (s : Statics) (chId : Nat) (frequency : BitVec 32) : Outcome :=
  updateCfg s chId fun c => { c with frequency }

/-- `tkl_pwm_info_set` -/
def tklPwmInfoSet (s : Statics) (chId : Nat) (info : PwmBaseCfg) : Outcome :=
  updateCfg s chId fun _ => ⟨info.polarity, info.duty, info.frequency⟩

/-- `tkl_pwm_info_get`, with what it leaves in `info`. -/
def tklPwmInfoGet (s : Statics) (chId : Nat) (info : PwmBaseCfg) : Outcome × PwmBaseCfg :=
  if chId > pwmDevNum then (⟨.invalidParm, s, []⟩, info)
  else (⟨.ok, s, [.cfg chId]⟩, s.pwmCfg chId)

/-! ## Starting and stopping -/

/-- `count` -/
def pwmCount (frequency : BitVec 32) : Option (BitVec 32) :=
  if frequency = 0 then none else some (BitVec.ofNat 32 pwmClock / frequency)

/-- `duty` in counts. -/
def pwmDuty (duty count : BitVec 32) : BitVec 32 := duty * count / BitVec.ofNat 32 dutyCycle

/-- A call to set a channel or a pair up and, when that went well, one to start it: the calls
that are made, and whether all is well. -/
def bringUp (drv : Driver) (setUp start : DrvCall) : List Event × Bool :=
  if drv setUp then ([.drv setUp, .drv start], drv start) else ([.drv setUp], false)

/-- `ret` behind a call on the driver. -/
def toRet (noErr : Bool) : OperateRet := if noErr then .ok else .comError

/-- `tkl_pwm_start` -/
def tklPwmStart (drv : Driver) (s : Statics) (chId : Nat) : Option Outcome :=
  if chId > pwmDevNum then some ⟨.invalidParm, s, []⟩
  else
    match pwmCount (s.pwmCfg chId).frequency with
    | none => none
    | some count =>
      let duty := pwmDuty (s.pwmCfg chId).duty count
      if s.pwmStartFlag chId = false then
        let up := bringUp drv (.bkInitialize chId count duty) (.start chId)
        some ⟨toRet up.2, { s with pwmStartFlag := Function.update s.pwmStartFlag chId up.2 },
          [.cfg chId, .flag chId] ++ up.1 ++ [.flag chId]⟩
      else some ⟨.ok, s, [.cfg chId, .flag chId, .drv (.updateParam chId count duty)]⟩

/-- `tkl_pwm_stop` -/
def tklPwmStop (s : Statics) (chId : Nat) : Outcome :=
  if chId > pwmDevNum then ⟨.invalidParm, s, []⟩
  else ⟨.ok, { s with pwmStartFlag := Function.update s.pwmStartFlag chId false },
    [.drv (.stop chId), .flag chId]⟩

/-- The flags of both channels set to `b`. -/
def setBoth (flag : Nat → Bool) (ch0 ch1 : Nat) (b : Bool) : Nat → Bool :=
  Function.update (Function.update flag ch0 b) ch1 b

/-- `tkl_pwm_multichannel_start` of the channels `ch_id[0]` and `ch_id[1]`, which are read when
`num` is two. -/
def tklPwmMultichannelStart (drv : Driver) (s : Statics) (ch0 ch1 num : Nat) : Option Outcome :=
  if num = 2 then
    if ch0 > pwmDevNum ∨ ch1 > pwmDevNum then some ⟨.invalidParm, s, []⟩
    else if (s.pwmCfg ch0).frequency ≠ (s.pwmCfg ch1).frequency then
      some ⟨.comError, s, [.cfg ch0, .cfg ch1]⟩
    else
      match pwmCount (s.pwmCfg ch0).frequency with
      | none => none
      | some count =>
        let coldDuty := pwmDuty (s.pwmCfg ch0).duty count
        let warmDuty := pwmDuty (s.pwmCfg ch1).duty count
        if count ≥ coldDuty + warmDuty then
          let dead := (count - coldDuty - warmDuty) / 2
          if s.pwmStartFlag ch0 = false then
            let up := bringUp drv (.cwInitialize ch0 ch1 count coldDuty warmDuty dead)
              (.cwStart ch0 ch1)
            some ⟨toRet up.2, { s with pwmStartFlag := setBoth s.pwmStartFlag ch0 ch1 up.2 },
              [.cfg ch0, .cfg ch1, .flag ch0] ++ up.1 ++ [.flag ch0, .flag ch1]⟩
          else
            let update : DrvCall := .cwUpdateParam ch0 ch1 count coldDuty warmDuty dead
            some ⟨toRet (drv update), s, [.cfg ch0, .cfg ch1, .flag ch0, .drv update]⟩
        else some ⟨.comError, s, [.cfg ch0, .cfg ch1]⟩
  else some ⟨.notSupported, s, []⟩

/-- `tkl_pwm_multichannel_stop` -/
def tklPwmMultichannelStop (s : Statics) (ch0 ch1 num : Nat) : Outcome :=
  if num = 2 then
    if ch0 > pwmDevNum ∨ ch1 > pwmDevNum then ⟨.invalidParm, s, []⟩
    else ⟨.ok, { s with pwmStartFlag := setBoth s.pwmStartFlag ch0 ch1 false },
      [.drv (.cwStop ch0 ch1), .flag ch0, .flag ch1]⟩
  else ⟨.notSupported, s, []⟩

/-! ## Sequences of calls -/

/-- A call on the adapter. -/
inductive Call where
  | init (chId : Nat) (cfg : PwmBaseCfg)
  | start (chId : Nat)
  | stop (chId : Nat)
  | multichannelStart (ch0 ch1 num : Nat)
  | multichannelStop (ch0 ch1 num : Nat)
  | dutySet (chId : Nat) (duty : BitVec 32)
  | frequencySet (chId : Nat) (frequency : BitVec 32)
  | infoSet (chId : Nat) (info : PwmBaseCfg)
  | infoGet (chId : Nat) (info : PwmBaseCfg)
  deriving DecidableEq, Repr

/-- One call. -/
def call (drv : Driver) (s : Statics) : Call → Option Outcome
  | .init chId cfg => some (tklPwmInit s chId cfg)
  | .start chId => tklPwmStart drv s chId
  | .stop chId => some (tklPwmStop s chId)
  | .multichannelStart ch0 ch1 num => tklPwmMultichannelStart drv s ch0 ch1 num
  | .multichannelStop ch0 ch1 num => some (tklPwmMultichannelStop s ch0 ch1 num)
  | .dutySet chId duty => some (tklPwmDutySet s chId duty)
  | .frequencySet chId frequency => some (tklPwmFrequencySet s chId frequency)
  | .infoSet chId info => some (tklPwmInfoSet s chId info)
  | .infoGet chId info => some (tklPwmInfoGet s chId info).1

end TuyaSdk.TklPwm
