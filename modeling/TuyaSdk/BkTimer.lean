import Mathlib

/-!
# The hardware timers (`driver/pwm/bk_timer.c`)

Two groups of three channels, on the 26 MHz and on the 32 kHz clock. A group has one control
register, with the enable bits of its channels, the divider of its clock in bits 3 to 5 and the
interrupt flags of its channels in bits 7 to 9; a channel has a register for its end value.

`CMD_TIMER_INIT_PARAM` takes any divider, and multiplies the period in 32 bits.
-/

namespace TuyaSdk.BkTimer

/-! ## The registers -/

/-- `PWM_NEW_BASE` -/
def pwmNewBase : Nat := 0x00802A00

/-- `TIMER0_2_CTL` -/
def timer0_2Ctl : Nat := pwmNewBase + 3 * 4

/-- `TIMER3_5_CTL` -/
def timer3_5Ctl : Nat := pwmNewBase + 0x13 * 4

/-- `REG_TIMERCTLA_PERIOD_ADDR(n)` -/
def regTimerctlaPeriodAddr (n : Nat) : Nat := pwmNewBase + 0x04 * n

/-- `REG_TIMERCTLB_PERIOD_ADDR(n)` -/
def regTimerctlbPeriodAddr (n : Nat) : Nat := pwmNewBase + 0x10 * 4 + 0x04 * (n - 3)

/-- `PWD_TIMER_26M_CLK_BIT` -/
def pwdTimer26mClkBit : BitVec 32 := (1 : BitVec 32) <<< (20 : Nat)

/-- `PWD_TIMER_32K_CLK_BIT` -/
def pwdTimer32kClkBit : BitVec 32 := (1 : BitVec 32) <<< (21 : Nat)

/-- The timer registers, `ICU_PERI_CLK_PWD`, whether `IRQ_TIMER` is enabled, and
`p_TIMER_Int_Handler`. -/
structure Dev (φ : Type*) where
  regs : Nat → BitVec 32
  periClkPwd : BitVec 32
  irqTimer : Bool
  pTimerIntHandler : Nat → Option φ

variable {φ : Type*}

/-- `REG_WRITE` of a timer register. -/
def Dev.regWrite (s : Dev φ) (addr : Nat) (value : BitVec 32) : Dev φ :=
  { s with regs := Function.update s.regs addr value }

/-- `timer_param_t` -/
structure TimerParam (φ : Type*) where
  channel : BitVec 8
  div : BitVec 8
  period : BitVec 32
  tIntHandler : Option φ

/-! ## The commands -/

/-- `value` of the functions below: the product is 32 bits wide, the clamp 64. -/
def endvalue (ticks time div : BitVec 32) : BitVec 32 :=
  let div := if div = 0 then 1 else div
  let value := (time * ticks / div).setWidth 64
  let value := if 0xffffffff < value then 0xffffffff else value
  value.setWidth 32

/-- `bk_timer_cal_endvalue` -/
def bkTimerCalEndvalue (ucChannel timeMs div : BitVec 32) : BitVec 32 :=
  if ucChannel < 3 then endvalue 26000 timeMs div else endvalue 32 timeMs div

/-- `bk_timer_cal_endvalue_us` -/
def bkTimerCalEndvalueUs (_ucChannel timeUs div : BitVec 32) : BitVec 32 := endvalue 26 timeUs div

/-- The new value of a control register, `TIMERCTLA_CLKDIV_POSI` being 3 in both groups. -/
def ctlValue (value : BitVec 32) (div : BitVec 8) (n : Nat) : BitVec 32 :=
  let value := value &&& ~~~((0x07 : BitVec 32) <<< (3 : Nat))
  let value := value ||| ((div.setWidth 32 - 1) <<< (3 : Nat))
  value ||| ((1 : BitVec 32) <<< n)

/-- A channel is set up: its handler, its clock, its end value and its control register. -/
def program (s : Dev φ) (p : TimerParam φ) (clk : BitVec 32) (periodAddr : Nat)
    (value : BitVec 32) (ctl n : Nat) : Dev φ :=
  let s :=
    { s with
      pTimerIntHandler := Function.update s.pTimerIntHandler p.channel.toNat p.tIntHandler
      periClkPwd := s.periClkPwd &&& ~~~clk }
  let s := s.regWrite periodAddr value
  let s := s.regWrite ctl (ctlValue (s.regs ctl) p.div n)
  { s with irqTimer := true }

/-- `init_timer_param`, and whether it returns `BK_TIMER_SUCCESS`. -/
def initTimerParam (s : Dev φ) (p : TimerParam φ) : Dev φ × Bool :=
  let ucChannel := p.channel.toNat
  let value := bkTimerCalEndvalue (p.channel.setWidth 32) p.period (p.div.setWidth 32)
  if 5 < ucChannel then (s, false)
  else if ucChannel < 3 then
    (program s p pwdTimer26mClkBit (regTimerctlaPeriodAddr ucChannel) value timer0_2Ctl ucChannel,
      true)
  else
    (program s p pwdTimer32kClkBit (regTimerctlbPeriodAddr ucChannel) value timer3_5Ctl
      (ucChannel - 3), true)

/-- `init_timer_param_us` -/
def initTimerParamUs (s : Dev φ) (p : TimerParam φ) : Dev φ × Bool :=
  let ucChannel := p.channel.toNat
  let value := bkTimerCalEndvalueUs (p.channel.setWidth 32) p.period (p.div.setWidth 32)
  if 2 < ucChannel then (s, false)
  else
    (program s p pwdTimer26mClkBit (regTimerctlaPeriodAddr ucChannel) value timer0_2Ctl ucChannel,
      true)

/-- `CMD_TIMER_INIT_PARAM` and `CMD_TIMER_INIT_PARAM_US` of `bk_timer_ctrl`. -/
inductive Cmd where
  | initParam
  | initParamUs
  deriving DecidableEq

/-- `bk_timer_ctrl` -/
def bkTimerCtrl (s : Dev φ) (cmd : Cmd) (p : TimerParam φ) : Dev φ × Bool :=
  match cmd with
  | .initParam => initTimerParam s p
  | .initParamUs => initTimerParamUs s p

/-! ## What a command is to program -/

/-- The channels of a command. -/
def Cmd.InRange (cmd : Cmd) (n : Nat) : Prop :=
  match cmd with
  | .initParam => n ≤ 5
  | .initParamUs => n ≤ 2

/-- The ticks in a unit of the period. -/
def Cmd.ticks (cmd : Cmd) (n : Nat) : Nat :=
  match cmd with
  | .initParam => if n < 3 then 26000 else 32
  | .initParamUs => 26

/-- The register of the end value of channel `n`. -/
def periodAddr (n : Nat) : Nat :=
  if n < 3 then regTimerctlaPeriodAddr n else regTimerctlbPeriodAddr n

/-- The control register of channel `n`. -/
def ctlAddr (n : Nat) : Nat := if n < 3 then timer0_2Ctl else timer3_5Ctl

/-- The enable bit of channel `n`. -/
def enBit (n : Nat) : Nat := if n < 3 then n else n - 3

/-- The divider that a control register selects. -/
def divider (ctl : BitVec 32) : Nat := (ctl.extractLsb' 3 3).toNat + 1

/-- The registers of channel `n` are programmed for `ticks` on top of `regs`. -/
structure Programmed (n ticks : Nat) (period : BitVec 32) (regs regs' : Nat → BitVec 32) : Prop where
  endvalue : (regs' (periodAddr n)).toNat =
    min (period.toNat * ticks / divider (regs' (ctlAddr n))) (2 ^ 32 - 1)
  fields : ∀ i, ¬(3 ≤ i ∧ i < 6) → i ≠ enBit n →
    (regs' (ctlAddr n)).getLsbD i = (regs (ctlAddr n)).getLsbD i
  others : ∀ a, a ≠ periodAddr n → a ≠ ctlAddr n → regs' a = regs a

/-- A command programs the channel it is given, whatever the registers held, and does nothing to a
channel it does not have. -/
structure Right (cmd : Cmd) (p : TimerParam φ) : Prop where
  programmed : cmd.InRange p.channel.toNat → ∀ s : Dev φ,
    Programmed p.channel.toNat (cmd.ticks p.channel.toNat) p.period s.regs
      (bkTimerCtrl s cmd p).1.regs
  refused : ¬cmd.InRange p.channel.toNat → ∀ s : Dev φ, bkTimerCtrl s cmd p = (s, false)

/-! ## The end value -/

theorem endvalue_toNat (ticks time div : BitVec 32) :
    (endvalue ticks time div).toNat =
      time.toNat * ticks.toNat % 2 ^ 32 / (if div = 0 then 1 else div.toNat) := by
  have hmul := BitVec.toNat_mul time ticks
  have hdiv : (if div = 0 then (1 : BitVec 32) else div).toNat =
      if div = 0 then 1 else div.toNat := by
    split <;> rfl
  simp only [endvalue]
  rw [← hmul, ← hdiv, ← BitVec.toNat_udiv]
  generalize time * ticks / (if div = 0 then 1 else div) = value
  have hlt := value.isLt
  have hclamp : ¬ (0xffffffff : BitVec 64) < value.setWidth 64 := by
    rw [BitVec.lt_def, BitVec.toNat_setWidth]
    simp
    omega
  rw [if_neg hclamp]
  simp

/-- A product that fits is divided as it is, one that does not is too small: an even product never
reaches the clamp. -/
theorem wrapped_div_iff {P d : Nat} (hd : 1 ≤ d) (hle : d ≤ 8) (heven : 2 ∣ P) :
    P % 2 ^ 32 / d = min (P / d) (2 ^ 32 - 1) ↔ P < 2 ^ 32 := by
  constructor
  · intro h
    by_contra hge
    have hrem : P % 2 ^ 32 + d ≤ P := by omega
    have hmore : P % 2 ^ 32 / d + 1 ≤ P / d := by
      rw [← Nat.add_div_right _ hd]
      exact Nat.div_le_div_right hrem
    have hself : P % 2 ^ 32 / d ≤ P % 2 ^ 32 := Nat.div_le_self _ _
    omega
  · intro h
    have hself : P / d ≤ P := Nat.div_le_self _ _
    rw [Nat.mod_eq_of_lt h]
    omega

theorem two_dvd_ticks (cmd : Cmd) (n : Nat) : 2 ∣ cmd.ticks n := by
  cases cmd <;> simp only [Cmd.ticks]
  · split <;> decide
  · decide

/-! ## The control register -/

/-- The divider field, as the commands write it: unbounded. -/
def divField (div : BitVec 8) : BitVec 32 := div.setWidth 32 - 1

theorem divField_toNat (div : BitVec 8) :
    (divField div).toNat = if div.toNat = 0 then 2 ^ 32 - 1 else div.toNat - 1 := by
  have hlt := div.isLt
  have hwidth : (div.setWidth 32).toNat = div.toNat := by
    rw [BitVec.toNat_setWidth]
    omega
  rw [divField, BitVec.toNat_sub, hwidth, show (1 : BitVec 32).toNat = 1 from rfl]
  split <;> omega

/-- The field has three bits only from 1 to 8. -/
theorem divField_fits (div : BitVec 8) :
    (divField div).toNat < 8 ↔ 1 ≤ div.toNat ∧ div.toNat ≤ 8 := by
  have hlt := div.isLt
  rw [divField_toNat]
  split <;> omega

theorem getLsbD_mask (i : Nat) :
    ((0x07 : BitVec 32) <<< (3 : Nat)).getLsbD i = decide (3 ≤ i ∧ i < 6) := by
  by_cases h : i < 32
  · have hall : ∀ j : Fin 32,
        ((0x07 : BitVec 32) <<< (3 : Nat)).getLsbD j = decide (3 ≤ j.val ∧ j.val < 6) := by
      decide
    exact hall ⟨i, h⟩
  · rw [BitVec.getLsbD_of_ge _ _ (by omega), eq_comm, decide_eq_false_iff_not]
    omega

theorem getLsbD_ctlValue (value : BitVec 32) (div : BitVec 8) {n i : Nat} (hn : n < 32) :
    (ctlValue value div n).getLsbD i =
      (value.getLsbD i && !decide (3 ≤ i ∧ i < 6) ||
        decide (3 ≤ i ∧ i < 32) && (divField div).getLsbD (i - 3) || decide (i = n)) := by
  have hone : ((1 : BitVec 32) <<< n).getLsbD i = decide (i = n) := by
    rw [show (1 : BitVec 32) = 1#32 from rfl, ← BitVec.twoPow_eq, BitVec.getLsbD_twoPow]
    simp [hn, eq_comm]
  have hvalue : ∀ h : 32 ≤ i, value.getLsbD i = false := fun h => BitVec.getLsbD_of_ge _ _ h
  rw [ctlValue, BitVec.getLsbD_or, BitVec.getLsbD_or, BitVec.getLsbD_and, BitVec.getLsbD_not,
    getLsbD_mask, hone, ← divField, BitVec.getLsbD_shiftLeft]
  by_cases h32 : i < 32
  · by_cases h3 : i < 3
    · simp [h32, h3, Nat.not_le_of_lt h3]
    · simp [h32, h3, Nat.le_of_not_lt h3]
  · simp [h32, hvalue (by omega)]

/-- A divider from 1 to 8 is what its field selects. -/
theorem divider_ctlValue (value : BitVec 32) {div : BitVec 8} {n : Nat} (hn : n < 3)
    (hfits : (divField div).toNat < 8) : divider (ctlValue value div n) = div.toNat := by
  have hfield : (ctlValue value div n).extractLsb' 3 3 = (divField div).setWidth 3 := by
    apply BitVec.eq_of_getLsbD_eq
    intro i hi
    rw [BitVec.getLsbD_extractLsb', BitVec.getLsbD_setWidth, getLsbD_ctlValue _ _ (by omega)]
    simp [show 3 + i < 6 by omega, show 3 + i < 32 by omega, show 3 + i ≠ n by omega]
  have hdiv := (divField_fits div).mp hfits
  rw [divider, hfield, BitVec.toNat_setWidth, Nat.mod_eq_of_lt hfits, divField_toNat,
    if_neg (by omega)]
  omega

/-- A divider out of its field sets a bit of another. -/
theorem divField_spill {div : BitVec 8} (h : ¬(divField div).toNat < 8) :
    ∃ j, 3 ≤ j ∧ j < 8 ∧ (divField div).getLsbD j = true := by
  have hlt := div.isLt
  by_cases hz : div.toNat = 0
  · obtain rfl : div = 0 := BitVec.eq_of_toNat_eq hz
    exact ⟨3, by decide⟩
  · have hnat : (divField div).toNat = div.toNat - 1 := by rw [divField_toNat, if_neg hz]
    obtain ⟨j, hj, hbit⟩ := Nat.exists_ge_and_testBit_of_ge_two_pow (n := 3) (not_lt.mp h)
    refine ⟨j, hj, ?_, hbit⟩
    by_contra hge
    have hsmall : (divField div).toNat < 2 ^ j :=
      lt_of_lt_of_le (by omega : _ < 2 ^ 8) (Nat.pow_le_pow_right (by decide) (not_lt.mp hge))
    rw [Nat.testBit_lt_two_pow hsmall] at hbit
    exact absurd hbit (by decide)

/-- The other fields keep their bits exactly if the divider fits into its field. -/
theorem fields_ctlValue {div : BitVec 8} {n : Nat} (hn : n < 3) :
    (∀ value : BitVec 32, ∀ i, ¬(3 ≤ i ∧ i < 6) → i ≠ n →
      (ctlValue value div n).getLsbD i = value.getLsbD i) ↔ (divField div).toNat < 8 := by
  constructor
  · intro h
    by_contra hno
    obtain ⟨j, hj, hlt, hbit⟩ := divField_spill hno
    have hzero := h 0 (j + 3) (by omega) (by omega)
    rw [getLsbD_ctlValue _ _ (by omega), Nat.add_sub_cancel, hbit] at hzero
    simp at hzero
    omega
  · intro hfits value i hout hne
    have hhigh : 3 ≤ i → (divField div).getLsbD (i - 3) = false := by
      intro hi
      apply Nat.testBit_lt_two_pow
      exact lt_of_lt_of_le hfits (Nat.pow_le_pow_right (n := 2) (by decide) (by omega : 3 ≤ i - 3))
    rw [getLsbD_ctlValue _ _ (by omega)]
    by_cases hi : 3 ≤ i
    · simp [hhigh hi, hne, hout]
    · simp [hi, hne]

/-! ## The commands -/

theorem endvalue_fits {cmd : Cmd} {n : Nat} {period : BitVec 32} {div : BitVec 8}
    (hdiv : 1 ≤ div.toNat ∧ div.toNat ≤ 8) :
    (endvalue (BitVec.ofNat 32 (cmd.ticks n)) period (div.setWidth 32)).toNat =
        min (period.toNat * cmd.ticks n / div.toNat) (2 ^ 32 - 1) ↔
      period.toNat * cmd.ticks n < 2 ^ 32 := by
  have hwidth : (div.setWidth 32).toNat = div.toNat := by
    rw [BitVec.toNat_setWidth]
    omega
  have hne : ¬ div.setWidth 32 = 0 := by
    intro h
    rw [h] at hwidth
    simp at hwidth
    omega
  have hticks : (BitVec.ofNat 32 (cmd.ticks n)).toNat = cmd.ticks n := by
    cases cmd <;> simp only [Cmd.ticks]
    · split <;> rfl
    · rfl
  rw [endvalue_toNat, if_neg hne, hwidth, hticks]
  exact wrapped_div_iff hdiv.1 hdiv.2 (Dvd.dvd.mul_left (two_dvd_ticks cmd n) _)

theorem bkTimerCalEndvalue_eq (channel : BitVec 8) (time div : BitVec 32) :
    bkTimerCalEndvalue (channel.setWidth 32) time div =
      endvalue (BitVec.ofNat 32 (Cmd.initParam.ticks channel.toNat)) time div := by
  have hlt : channel.setWidth 32 < 3 ↔ channel.toNat < 3 := by
    have := channel.isLt
    rw [BitVec.lt_def, BitVec.toNat_setWidth, show (3 : BitVec 32).toNat = 3 from rfl]
    omega
  simp only [bkTimerCalEndvalue, hlt, Cmd.ticks]
  split <;> rfl

theorem ctlAddr_ne_periodAddr {n : Nat} (h : n ≤ 5) : ctlAddr n ≠ periodAddr n := by
  simp only [ctlAddr, periodAddr, timer0_2Ctl, timer3_5Ctl, regTimerctlaPeriodAddr,
    regTimerctlbPeriodAddr]
  split <;> omega

theorem program_regs (s : Dev φ) (p : TimerParam φ) (clk : BitVec 32) {periodAddr ctl : Nat}
    (value : BitVec 32) (n : Nat) (h : ctl ≠ periodAddr) :
    (program s p clk periodAddr value ctl n).regs =
      Function.update (Function.update s.regs periodAddr value) ctl
        (ctlValue (s.regs ctl) p.div n) := by
  simp only [program, Dev.regWrite, Function.update_of_ne h]

/-- Both commands program the registers of a channel in the same way. -/
theorem bkTimerCtrl_regs (s : Dev φ) {cmd : Cmd} {p : TimerParam φ}
    (h : cmd.InRange p.channel.toNat) :
    (bkTimerCtrl s cmd p).1.regs =
      Function.update
        (Function.update s.regs (periodAddr p.channel.toNat)
          (endvalue (BitVec.ofNat 32 (cmd.ticks p.channel.toNat)) p.period (p.div.setWidth 32)))
        (ctlAddr p.channel.toNat)
        (ctlValue (s.regs (ctlAddr p.channel.toNat)) p.div (enBit p.channel.toNat)) := by
  cases cmd with
  | initParam =>
    have hle : p.channel.toNat ≤ 5 := h
    have hne := ctlAddr_ne_periodAddr hle
    simp only [bkTimerCtrl, initTimerParam, bkTimerCalEndvalue_eq, if_neg (not_lt.mpr hle)]
    by_cases h3 : p.channel.toNat < 3
    · simp only [ctlAddr, periodAddr, enBit, if_pos h3] at hne ⊢
      exact program_regs s p _ _ _ hne
    · simp only [ctlAddr, periodAddr, enBit, if_neg h3] at hne ⊢
      exact program_regs s p _ _ _ hne
  | initParamUs =>
    have hle : p.channel.toNat ≤ 2 := h
    have h3 : p.channel.toNat < 3 := by omega
    have hne := ctlAddr_ne_periodAddr (n := p.channel.toNat) (by omega)
    simp only [ctlAddr, periodAddr, enBit, if_pos h3] at hne ⊢
    simp only [bkTimerCtrl, initTimerParamUs, if_neg (not_lt.mpr hle)]
    exact program_regs s p _ _ _ hne

theorem bkTimerCtrl_refused (s : Dev φ) {cmd : Cmd} {p : TimerParam φ}
    (h : ¬cmd.InRange p.channel.toNat) : bkTimerCtrl s cmd p = (s, false) := by
  cases cmd with
  | initParam => exact if_pos (not_le.mp h)
  | initParamUs => exact if_pos (not_le.mp h)

theorem enBit_lt {cmd : Cmd} {n : Nat} (h : cmd.InRange n) : n ≤ 5 ∧ enBit n < 3 := by
  cases cmd <;> simp only [Cmd.InRange] at h <;> rw [enBit] <;> split <;> omega

/-- A command programs a channel rightly, whatever the registers hold, if and only if its divider
fits into the field and the product into 32 bits; it always refuses a channel out of range. -/
theorem timerRight_iff (cmd : Cmd) (p : TimerParam φ) :
    Right cmd p ↔
      (cmd.InRange p.channel.toNat →
        (1 ≤ p.div.toNat ∧ p.div.toNat ≤ 8) ∧
          p.period.toNat * cmd.ticks p.channel.toNat < 2 ^ 32) := by
  constructor
  · intro h hin
    obtain ⟨hle, hen⟩ := enBit_lt hin
    have hne := ctlAddr_ne_periodAddr hle
    have hright := h.programmed hin
    have hfits : (divField p.div).toNat < 8 := by
      rw [← fields_ctlValue hen]
      intro value i hout hi
      have hfields :=
        (hright ⟨fun _ => value, 0, false, fun _ => none⟩).fields i hout hi
      rwa [bkTimerCtrl_regs _ hin, Function.update_self] at hfields
    have hdiv := (divField_fits p.div).mp hfits
    refine ⟨hdiv, (endvalue_fits hdiv).mp ?_⟩
    have hend := (hright ⟨fun _ => 0, 0, false, fun _ => none⟩).endvalue
    rwa [bkTimerCtrl_regs _ hin, Function.update_of_ne hne.symm, Function.update_self,
      Function.update_self, divider_ctlValue _ hen hfits] at hend
  · intro h
    refine ⟨fun hin s => ?_, fun hno s => bkTimerCtrl_refused s hno⟩
    obtain ⟨hle, hen⟩ := enBit_lt hin
    obtain ⟨hdiv, hprod⟩ := h hin
    have hne := ctlAddr_ne_periodAddr hle
    have hfits := (divField_fits p.div).mpr hdiv
    rw [bkTimerCtrl_regs _ hin]
    refine ⟨?_, fun i hout hi => ?_, fun a hper hctl => ?_⟩
    · rw [Function.update_of_ne hne.symm, Function.update_self, Function.update_self,
        divider_ctlValue _ hen hfits]
      exact (endvalue_fits hdiv).mpr hprod
    · rw [Function.update_self]
      exact (fields_ctlValue hen).mpr hfits _ i hout hi
    · rw [Function.update_of_ne hctl, Function.update_of_ne hper]

/-- 200 s on the 26 MHz clock: the end value is the product less 2³². -/
theorem timerRight_overflow : ¬ ∀ (cmd : Cmd) (p : TimerParam Unit), Right cmd p := by
  intro h
  have hin : Cmd.initParam.InRange 0 := Nat.zero_le 5
  have hend := ((h .initParam ⟨0, 1, 200000, none⟩).programmed hin
    ⟨fun _ => 0, 0, false, fun _ => none⟩).endvalue
  revert hend
  decide

end TuyaSdk.BkTimer
