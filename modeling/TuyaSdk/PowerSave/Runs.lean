import TuyaSdk.PowerSave.Lock

/-!
# Runs of the DTIM sleep

Every step but the closing of the mode keeps the lock, and the closing keeps it exactly when the
radio is awake: `power_save_dtim_ps_exit` clears the flag of a sleeping radio and neither gives
the lock back nor enables the interrupts.
-/

namespace TuyaSdk.PowerSave

open TuyaSdk.Lib

variable {ints : Reg} {s s' : State} {net : Net}

namespace LockOk

/-- A wake-up followed by changes of fields that the lock does not depend on. -/
theorem ieeeDtimWakeup_bind (h : LockOk ints s) {f : State → State}
    (hf : ∀ t, LockOk ints t → LockOk ints (f t)) :
    ∃ s', (powerSaveIeeeDtimWakeup s net).bind (fun t => some (f t)) = some s' ∧
      LockOk ints s' := by
  have hwake : ∃ s', powerSaveIeeeDtimWakeup s net = some s' ∧ LockOk ints s' := h.ieeeDtimWakeup
  obtain ⟨t, ht, hok⟩ := hwake
  exact ⟨f t, by rw [ht]; rfl, hf t hok⟩

theorem dtimWake (h : LockOk ints s) (status : Reg) (tick : UInt32) :
    ∃ s', powerSaveDtimWake s net status tick = some s' ∧ LockOk ints s' := by
  have hup : LockOk ints ({ s with psArmWakeupWay := .uping }.clearInt fiqMacWakeup) := by
    refine LockOk.clearWakeup ?_
    exact h.congr rfl rfl rfl rfl
  rw [powerSaveDtimWake]
  split
  case isFalse => exact ⟨s, rfl, h⟩
  case isTrue =>
    dsimp only
    split
    · split
      · exact ⟨_, rfl, hup.congr rfl rfl rfl rfl⟩
      · split
        · split
          · refine ieeeDtimWakeup_bind ?_ fun t ht => ?_
            · exact hup.congr rfl rfl rfl rfl
            · exact ht.congr rfl rfl rfl rfl
          · exact ⟨_, rfl, hup.congr rfl rfl rfl rfl⟩
        · refine ieeeDtimWakeup_bind ?_ fun t ht => ?_
          · exact hup.congr rfl rfl rfl rfl
          · exact ht.congr rfl rfl rfl rfl
    · refine ieeeDtimWakeup ?_
      exact hup.congr rfl rfl rfl rfl

theorem pwmIsr (h : LockOk ints s) : ∃ s', powerSavePwmIsr s net = some s' ∧ LockOk ints s' := by
  rw [powerSavePwmIsr]
  split
  · refine ieeeDtimWakeup_bind ?_ fun t ht => ?_
    · exact h.congr rfl rfl rfl rfl
    · exact ht.congr rfl rfl rfl rfl
  · exact ⟨s, rfl, h⟩

theorem delayedWakeup (h : LockOk ints s) (tick : UInt32) :
    ∃ s', delayedWakeup s net tick = some s' ∧ LockOk ints s' := by
  rw [PowerSave.delayedWakeup]
  split
  · split
    · refine ieeeDtimWakeup_bind ?_ fun t ht => ?_
      · exact h.congr rfl rfl rfl rfl
      · exact ht.congr rfl rfl rfl rfl
    · exact ⟨_, rfl, h.congr rfl rfl rfl rfl⟩
  · exact ⟨s, rfl, h⟩

theorem tdCheck (h : LockOk ints s) (paused : Bool) : LockOk ints (powerSaveTdCheck s paused) := by
  rw [powerSaveTdCheck]
  split
  · exact h.effect nofun
  · exact h

theorem rfSleepCheck (h : LockOk ints s) (dtimSwitch : Bool) (tick : UInt32) (paused : Bool) :
    ∃ s', powerSaveRfSleepCheck s net dtimSwitch tick paused = some s' ∧ LockOk ints s' := by
  rw [powerSaveRfSleepCheck]
  split
  case isFalse => exact ⟨s, rfl, h⟩
  case isTrue =>
    have hwake : ∃ s', PowerSave.delayedWakeup s net tick = some s' ∧ LockOk ints s' :=
      h.delayedWakeup tick
    obtain ⟨t, ht, hok⟩ := hwake
    have hcheck : LockOk ints { powerSaveTdCheck t paused with psTdLastTick := 0 } :=
      (hok.tdCheck paused).congr rfl rfl rfl rfl
    rw [ht, Option.bind_eq_bind, Option.bind_some]
    split
    · exact ⟨_, rfl, hcheck⟩
    · exact ⟨t, rfl, hok⟩

theorem manualDoWakeup (h : LockOk ints s) :
    ∃ s', powerSaveRfDtimManualDoWakeup s net = some s' ∧ LockOk ints s' := by
  rw [powerSaveRfDtimManualDoWakeup]
  split
  · exact ⟨s, rfl, h⟩
  · split
    · refine (LockOk.clearWakeup ?_).ieeeDtimWakeup
      exact h.congr rfl rfl rfl rfl
    · exact ⟨s, rfl, h⟩

theorem macIdleCallback (h : LockOk ints s) : LockOk ints (powerSaveMacIdleCallback s) := by
  rw [powerSaveMacIdleCallback]
  split
  · exact h.congr rfl rfl rfl rfl
  · exact h.congr rfl rfl rfl rfl

theorem dtimEnableHandler (h : LockOk ints s) :
    LockOk ints (powerSaveDtimEnableHandler s net) := by
  rw [powerSaveDtimEnableHandler]
  split
  · refine LockOk.effect (e := .waitTimerInit) ?_ nofun
    exact h.congr rfl rfl rfl rfl
  · exact h

/-! ## The closing of the mode -/

theorem wkupEvent (h : LockOk ints s) (bit : Reg) {e : Effect} (he : e ≠ .errorPs) :
    LockOk ints (wkupEvent bit e s) := by
  rw [PowerSave.wkupEvent]
  split
  · exact (h.effect he).congr rfl rfl rfl rfl
  · exact h

theorem dtimPsExit (h : LockOk ints s) (hawake : s.psRealSleep = 0) :
    LockOk ints (powerSaveDtimPsExit s) := by
  have hclear : LockOk ints { s with
      psCanSleep := 0, waitedBeacon := .init, psDataWakeupWaitTimeMs := 0,
      psPeriWakeupWaitTimeMs := 0 } := h.congr rfl rfl rfl rfl
  exact (hclear.effect (e := .nxmacBeaconIntClear) nofun).congr hawake.symm rfl rfl rfl

theorem dtimDisableHandler (h : LockOk ints s)
    (hawake : s.bkPsMode ≠ .dtimPsClosing ∨ s.psRealSleep = 0) :
    LockOk ints (powerSaveDtimDisableHandler s) := by
  have hclr := h.effect (e := .rfWifiUsedClr) nofun
  rw [powerSaveDtimDisableHandler]
  dsimp only
  split
  case isFalse => exact hclr
  case isTrue hmode =>
    have hzero : s.psRealSleep = 0 := hawake.resolve_left fun hne => hne hmode
    have hclosed : LockOk ints { s.effect .rfWifiUsedClr with bkPsMode := .noPsMode } :=
      hclr.congr rfl rfl rfl rfl
    have hexit := dtimPsExit (hclosed.effect (e := .nxmacTimerValue) nofun) hzero
    split
    · exact (hexit.effect (e := .reboot) nofun).congr rfl rfl rfl rfl
    · exact (hexit.wkupEvent needStartEzBit (e := .enterEz) nofun).wkupEvent needStopEzBit
        (e := .exitEz) nofun

end LockOk

/-- The flag and the lock after the mode was closed. -/
theorem dtimDisableHandler_asleep (hmode : s.bkPsMode = .dtimPsClosing) :
    (powerSaveDtimDisableHandler s).psRealSleep = 0 ∧
      (powerSaveDtimDisableHandler s).psLock = s.psLock := by
  have hevent : ∀ (bit : Reg) (e : Effect) (t : State),
      (wkupEvent bit e t).psRealSleep = t.psRealSleep ∧ (wkupEvent bit e t).psLock = t.psLock := by
    intro bit e t
    rw [wkupEvent]
    split <;> exact ⟨rfl, rfl⟩
  rw [powerSaveDtimDisableHandler]
  dsimp only
  rw [if_pos (show (s.effect .rfWifiUsedClr).bkPsMode = .dtimPsClosing from hmode)]
  split
  · exact ⟨rfl, rfl⟩
  · rw [(hevent _ _ _).1, (hevent _ _ _).1, (hevent _ _ _).2, (hevent _ _ _).2]
    exact ⟨rfl, rfl⟩

/-- A closing that finds the radio asleep leaves the lock taken. -/
theorem not_lockOk_dtimDisableHandler (h : LockOk ints s) (hmode : s.bkPsMode = .dtimPsClosing)
    (hasleep : s.psRealSleep ≠ 0) : ¬LockOk ints (powerSaveDtimDisableHandler s) := by
  intro hok
  obtain ⟨hflag, hlock⟩ := dtimDisableHandler_asleep hmode
  have htaken := (hok.awake (by rw [hflag]; decide)).2
  rw [hlock, (h.asleep hasleep).2] at htaken
  cases htaken

/-! ## Steps -/

theorem LockOk.handle (h : LockOk ints s) {input : Input} (hok : ClosedAwake s input)
    (hhung : s.hung = false) : ∃ s', handle s input = some s' ∧ LockOk ints s' := by
  cases input with
  | sleep net inDoze pending ok => exact ⟨_, rfl, h.sleep inDoze pending ok⟩
  | macIdleCallback => exact ⟨_, rfl, h.macIdleCallback⟩
  | dtimWake net status tick => exact h.dtimWake status tick
  | pwmIsr net => exact h.pwmIsr
  | rfSleepCheck net dtimSwitch tick paused => exact h.rfSleepCheck dtimSwitch tick paused
  | manualDoWakeup net => exact h.manualDoWakeup
  | dtimEnableHandler net => exact ⟨_, rfl, h.dtimEnableHandler⟩
  | dtimDisableHandler =>
    refine ⟨_, rfl, h.dtimDisableHandler (hok.resolve_left ?_)⟩
    rw [hhung]
    exact Bool.false_ne_true
  | psModeSet mode => exact ⟨_, rfl, h.congr rfl rfl rfl rfl⟩
  | beaconStateSet state => exact ⟨_, rfl, h.congr rfl rfl rfl rfl⟩
  | wkupEventSet value => exact ⟨_, rfl, h.congr rfl rfl rfl rfl⟩

theorem LockOk.step (h : LockOk ints s) {input : Input} (hok : ClosedAwake s input) :
    ∃ s' o, step s input = some (s', o) ∧ LockOk ints s' := by
  rw [PowerSave.step]
  cases hhung : s.hung with
  | true => exact ⟨s, (), rfl, h⟩
  | false =>
    obtain ⟨s', hs', hok'⟩ := h.handle hok hhung
    exact ⟨s', (), by rw [hs']; rfl, hok'⟩

theorem LockOk.not_step (h : LockOk ints s) {input : Input} (hbad : ¬ClosedAwake s input) :
    ∃ s' o, PowerSave.step s input = some (s', o) ∧ ¬LockOk ints s' := by
  cases input with
  | dtimDisableHandler =>
    obtain ⟨hhung, hmode, hsleep⟩ : ¬s.hung = true ∧ s.bkPsMode = .dtimPsClosing ∧
        s.psRealSleep ≠ 0 := by
      rw [ClosedAwake, not_or, not_or, not_not] at hbad
      exact hbad
    refine ⟨_, (), ?_, not_lockOk_dtimDisableHandler h hmode hsleep⟩
    rw [PowerSave.step, if_neg hhung]
    rfl
  | _ => exact absurd trivial hbad

theorem lockOk_init (ints : Reg) : LockOk ints (State.init ints) where
  lock := Or.inr ⟨rfl, rfl⟩
  enabled _ _ hi _ := hi
  noError := List.not_mem_nil

/-- The lock is kept in every state of a run exactly when the mode is never closed on a sleeping
radio. -/
theorem lockKept_iff (ints : Reg) (inputs : List Input) :
    LockKept ints inputs ↔ Machine.Legal step ClosedAwake (State.init ints) inputs := by
  refine Machine.total_iff_legal (fun _ h => h) (fun s input h => ?_) (lockOk_init ints)
  by_cases hok : ClosedAwake s input
  · obtain ⟨s', o, hs', hkept⟩ := h.step hok
    exact ⟨s', o, hs', fun _ => hkept, fun hno => absurd hok hno⟩
  · obtain ⟨s', o, hs', hlost⟩ := h.not_step hok
    exact ⟨s', o, hs', fun hyes => absurd hyes hok, fun _ => hlost⟩

/-- A station that is up and connected. -/
def netUp : Net := ⟨true, true, true, false⟩

/-- The station goes to sleep and the mode is closed before it wakes: the radio counts as awake,
with the lock taken. -/
def closedAsleep : List Input :=
  [.psModeSet .dtimPsOpening, .dtimEnableHandler netUp, .beaconStateSet .true,
    .sleep netUp false 0 true, .psModeSet .dtimPsClosing, .dtimDisableHandler]

theorem not_forall_lockKept : ¬∀ ints inputs, LockKept ints inputs := by
  intro hall
  have hlost : (Machine.run step (State.init fiqMac) (closedAsleep.take 6)).any
      (fun r => r.1.psRealSleep = 0 ∧ r.1.psLock = 0) = true := by decide +kernel
  obtain ⟨⟨s, os⟩, hrun, hs⟩ := (Option.any_eq_true _ _).mp hlost
  obtain ⟨hflag, hlock⟩ := of_decide_eq_true hs
  have hok := (hall fiqMac closedAsleep).2 6 s os hrun
  have htaken := (hok.awake (by rw [hflag]; decide)).2
  rw [hlock] at htaken
  cases htaken

end TuyaSdk.PowerSave
