import TuyaSdk.Lib.Bytes
import TuyaSdk.Lib.Machine

/-!
# The busy count of the peripherals (`func/power_save/mcu_ps.c`)

Drivers count themselves busy between `peri_busy_count_add` and `peri_busy_count_dec`, and
`mcu_power_save` sleeps only when nobody is busy. Every function here makes its change
between `GLOBAL_INT_DISABLE` and `GLOBAL_INT_RESTORE`, so that any interleaving of tasks and
interrupt handlers is an order of calls. The system records who has a pair open.
-/

namespace TuyaSdk.McuPs

open Lib

/-- `MCU_PS_INFO`; `peri_busy_count` is an `int`. -/
structure McuPsInfo where
  mcuPsOn : BitVec 8
  periBusyCount : Int
  mcuPrevent : BitVec 32

/-- `mcu_ps_info` as it is initialised. -/
def mcuPsInfo : McuPsInfo := ⟨0, 0, 0⟩

/-- `peri_busy_count_add`; `none` is a signed overflow. -/
def periBusyCountAdd (info : McuPsInfo) : Option McuPsInfo :=
  if info.periBusyCount < 2 ^ 31 - 1 then
    some { info with periBusyCount := info.periBusyCount + 1 }
  else none

/-- `peri_busy_count_dec`; `none` is a signed overflow. -/
def periBusyCountDec (info : McuPsInfo) : Option McuPsInfo :=
  if -2 ^ 31 < info.periBusyCount then
    some { info with periBusyCount := info.periBusyCount - 1 }
  else none

/-- `mcu_prevent_set` -/
def mcuPreventSet (info : McuPsInfo) (prevent : BitVec 32) : McuPsInfo :=
  { info with mcuPrevent := info.mcuPrevent ||| prevent }

/-- `mcu_prevent_clear` -/
def mcuPreventClear (info : McuPsInfo) (prevent : BitVec 32) : McuPsInfo :=
  { info with mcuPrevent := info.mcuPrevent &&& ~~~prevent }

/-- `mcu_ps_enable` -/
def mcuPsEnable (info : McuPsInfo) : McuPsInfo := { info with mcuPsOn := 1 }

/-- `mcu_ps_disable` -/
def mcuPsDisable (info : McuPsInfo) : McuPsInfo := { info with mcuPsOn := 0 }

/-- `mcu_ps_init`, as far as it concerns `mcu_ps_info`. -/
def mcuPsInit (info : McuPsInfo) : McuPsInfo :=
  if info.mcuPsOn = 0 then { info with mcuPsOn := 1, periBusyCount := 0 } else info

/-- `mcu_ps_exit`, as far as it concerns `mcu_ps_info`. -/
def mcuPsExit (info : McuPsInfo) : McuPsInfo :=
  if info.mcuPsOn = 1 then { info with mcuPsOn := 0, periBusyCount := 0 } else info

/-! ## `mcu_power_save` -/

/-- `FCLK_DURATION_MS` -/
abbrev fclkDurationMs : Nat := 2

/-- `BK_TICKS_TO_MS` -/
def bkTicksToMs (tick : Nat) : Nat := u32 (tick * fclkDurationMs)

/-- `(int32)x` -/
def int32 (x : Nat) : Int := (BitVec.ofNat 32 x).toInt

/-- The tests of `mcu_power_save` on `sleep_tick`, none of which leaves its loop. -/
def longEnough (sleepTick : Nat) : Bool :=
  let sleepMs := bkTicksToMs sleepTick
  if sleepMs ≤ 2 then false
  else
    let sleepPwmT := u32 (sub32 sleepMs fclkDurationMs * 32)
    if int32 sleepPwmT ≤ 64 then false else true

/-- `mcu_power_save` enters `sctrl_mcu_sleep`; `txlSleepCheck` is what `txl_sleep_check`
returns. -/
def mcuPowerSave (info : McuPsInfo) (sleepTick : Nat) (txlSleepCheck : Bool) : Bool :=
  if info.mcuPsOn = 1 ∧ info.periBusyCount = 0 ∧ info.mcuPrevent = 0 ∧ txlSleepCheck then
    longEnough sleepTick
  else false

/-! ## The system -/

variable {τ : Type*} [DecidableEq τ]

/-- `mcu_ps_info`, and the tasks and interrupt handlers that have a pair open, once for each
of their pairs. -/
structure Sys (τ : Type*) where
  info : McuPsInfo
  openPairs : List τ

/-- A call; the calls that open and close a pair are made by a task `t`. -/
inductive Call (τ : Type*) where
  | add (t : τ)
  | dec (t : τ)
  | init
  | exit
  | enable
  | disable
  | preventSet (prevent : BitVec 32)
  | preventClear (prevent : BitVec 32)
  | powerSave (sleepTick : Nat) (txlSleepCheck : Bool)

/-- One call; the output is whether it sleeps. -/
def step : Machine (Sys τ) (Call τ) Bool := fun s c =>
  match c with
  | .add t => (periBusyCountAdd s.info).map fun info => (⟨info, t :: s.openPairs⟩, false)
  | .dec t => (periBusyCountDec s.info).map fun info => (⟨info, s.openPairs.erase t⟩, false)
  | .init => some ({ s with info := mcuPsInit s.info }, false)
  | .exit => some ({ s with info := mcuPsExit s.info }, false)
  | .enable => some ({ s with info := mcuPsEnable s.info }, false)
  | .disable => some ({ s with info := mcuPsDisable s.info }, false)
  | .preventSet prevent => some ({ s with info := mcuPreventSet s.info prevent }, false)
  | .preventClear prevent => some ({ s with info := mcuPreventClear s.info prevent }, false)
  | .powerSave sleepTick txlSleepCheck =>
    some (s, mcuPowerSave s.info sleepTick txlSleepCheck)

/-- A pair is closed only by who has it open, and fewer pairs are open than an `int` counts. -/
def Balanced (s : Sys τ) : Call τ → Prop
  | .add _ => s.openPairs.length + 1 < 2 ^ 31
  | .dec t => t ∈ s.openPairs
  | _ => True

/-- Power save is not switched on by `mcu_ps_init`, or off by `mcu_ps_exit`, while a pair is
open. -/
def SwitchedIdle (s : Sys τ) : Call τ → Prop
  | .init => s.info.mcuPsOn = 0 → s.openPairs = []
  | .exit => s.info.mcuPsOn = 1 → s.openPairs = []
  | _ => True

instance (s : Sys τ) : ∀ c : Call τ, Decidable (Balanced s c)
  | .add _ => inferInstanceAs (Decidable (_ < _))
  | .dec t => inferInstanceAs (Decidable (t ∈ s.openPairs))
  | .init | .exit | .enable | .disable | .preventSet _ | .preventClear _ | .powerSave _ _ =>
    inferInstanceAs (Decidable True)

instance (s : Sys τ) : ∀ c : Call τ, Decidable (SwitchedIdle s c)
  | .init => inferInstanceAs (Decidable (s.info.mcuPsOn = 0 → s.openPairs = []))
  | .exit => inferInstanceAs (Decidable (s.info.mcuPsOn = 1 → s.openPairs = []))
  | .add _ | .dec _ | .enable | .disable | .preventSet _ | .preventClear _ | .powerSave _ _ =>
    inferInstanceAs (Decidable True)

/-- Before the first call. -/
def initial (τ : Type*) : Sys τ := ⟨mcuPsInfo, []⟩

/-! ## The count -/

/-- The count is the number of pairs open. -/
def Counts (s : Sys τ) : Prop := s.info.periBusyCount = s.openPairs.length

/-- The count is the number of pairs open, and `mcu_power_save` sleeps exactly when no pair is
open and nothing else keeps it from sleeping. -/
def Guards (s : Sys τ) : Prop :=
  Counts s ∧ ∀ sleepTick txlSleepCheck, mcuPowerSave s.info sleepTick txlSleepCheck = true ↔
    s.openPairs = [] ∧ s.info.mcuPsOn = 1 ∧ s.info.mcuPrevent = 0 ∧ txlSleepCheck = true ∧
      longEnough sleepTick = true

variable {s : Sys τ}

omit [DecidableEq τ] in
theorem Counts.eq_zero_iff (h : Counts s) : s.info.periBusyCount = 0 ↔ s.openPairs = [] := by
  rw [h, Int.natCast_eq_zero, List.length_eq_zero_iff]

omit [DecidableEq τ] in
theorem Counts.guards (h : Counts s) : Guards s := by
  refine ⟨h, fun sleepTick txlSleepCheck => ?_⟩
  rw [mcuPowerSave, ← h.eq_zero_iff]
  constructor
  · intro hsleep
    split at hsleep
    · rename_i hall
      exact ⟨hall.2.1, hall.1, hall.2.2.1, hall.2.2.2, hsleep⟩
    · cases hsleep
  · rintro ⟨hopen, hon, hprevent, htxl, hlong⟩
    rw [if_pos ⟨hon, hopen, hprevent, htxl⟩]
    exact hlong

/-- Switching power save keeps the count, if no pair is open then. -/
theorem Counts.switch (h : Counts s) {info : McuPsInfo} {p : Prop} [Decidable p] {on : BitVec 8}
    (hinfo : info = if p then { s.info with mcuPsOn := on, periBusyCount := 0 } else s.info)
    (hidle : p → s.openPairs = []) : Counts (⟨info, s.openPairs⟩ : Sys τ) := by
  unfold Counts at h ⊢
  by_cases hp : p
  · rw [hinfo, if_pos hp, hidle hp]
    rfl
  · rw [hinfo, if_neg hp]
    exact h

theorem Counts.step (h : Counts s) {c : Call τ} (hb : Balanced s c) (hi : SwitchedIdle s c) :
    ∃ s' o, step s c = some (s', o) ∧ Counts s' := by
  cases c with
  | add t =>
    have hlt : s.info.periBusyCount < 2 ^ 31 - 1 := by
      have hb : s.openPairs.length + 1 < 2 ^ 31 := hb
      rw [h]
      omega
    refine ⟨_, _, by rw [McuPs.step, periBusyCountAdd, if_pos hlt]; rfl, ?_⟩
    change s.info.periBusyCount + 1 = ((t :: s.openPairs).length : Int)
    rw [h, List.length_cons, Int.natCast_succ]
  | dec t =>
    have hpos : 0 < s.openPairs.length := List.length_pos_of_mem hb
    have hlt : -2 ^ 31 < s.info.periBusyCount := by
      rw [h]
      omega
    refine ⟨_, _, by rw [McuPs.step, periBusyCountDec, if_pos hlt]; rfl, ?_⟩
    change s.info.periBusyCount - 1 = ((s.openPairs.erase t).length : Int)
    rw [h, List.length_erase_of_mem hb]
    omega
  | init => exact ⟨_, _, rfl, h.switch rfl hi⟩
  | exit => exact ⟨_, _, rfl, h.switch rfl hi⟩
  | enable => exact ⟨_, _, rfl, h⟩
  | disable => exact ⟨_, _, rfl, h⟩
  | preventSet prevent => exact ⟨_, _, rfl, h⟩
  | preventClear prevent => exact ⟨_, _, rfl, h⟩
  | powerSave sleepTick txlSleepCheck => exact ⟨_, _, rfl, h⟩

/-- After any balanced calls that switch power save only while no pair is open, the count
guards sleep. -/
theorem busy_count_guards (cs : List (Call τ))
    (hl : Machine.Legal step (fun s c => Balanced s c ∧ SwitchedIdle s c) (initial τ) cs) :
    ∃ s outs, Machine.run step (initial τ) cs = some (s, outs) ∧ Guards s := by
  obtain ⟨s, outs, hrun, h⟩ := Machine.run_total (I := fun s _ => Counts s)
    (fun s _ c h hc => h.step hc.1 hc.2) (rfl : Counts (initial τ)) hl
  exact ⟨s, outs, hrun, h.guards⟩

/-- Two tasks that are busy at the same time, with power save switched before and after. -/
theorem two_tasks_guard : ∃ s outs,
    Machine.run step (initial Nat) [.init, .add 1, .disable, .add 2, .enable, .powerSave 10 true,
      .dec 1, .dec 2, .powerSave 10 true, .exit] = some (s, outs) ∧ Guards s :=
  busy_count_guards _ (Machine.legal_of_check (by decide +kernel))

/-- Power save is switched off and on while a task is busy: the count is 0 with a pair open. -/
theorem switched_while_busy :
    ¬ ∀ (cs : List (Call Nat)) (s : Sys Nat) (outs : List Bool),
      Machine.Legal step Balanced (initial Nat) cs →
      Machine.run step (initial Nat) cs = some (s, outs) → Guards s := by
  intro h
  have hrun : (Machine.run step (initial Nat) [.init, .add 1, .exit, .init]).any
      (fun r => decide (r.1.info.periBusyCount = 0 ∧ r.1.openPairs = [1])) = true := by
    decide +kernel
  obtain ⟨⟨s, outs⟩, hr, hs⟩ := (Option.any_eq_true _ _).mp hrun
  have hg := h _ s outs (Machine.legal_of_check (by decide +kernel)) hr
  obtain ⟨hzero, hopen⟩ := of_decide_eq_true hs
  have hnil := hg.1.eq_zero_iff.mp hzero
  rw [hopen] at hnil
  cases hnil

end TuyaSdk.McuPs
