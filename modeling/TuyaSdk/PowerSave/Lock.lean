import TuyaSdk.PowerSave.Defs

/-!
# The sleep lock

Every sleep takes the lock and every wake-up gives it back, each with the flag and the
interrupts. Only `power_save_dtim_disable_handler` clears the flag alone.
-/

namespace TuyaSdk.PowerSave

open TuyaSdk.Lib

variable {ints : Reg} {s s' : State} {net : Net}

/-! ## Interrupts -/

/-- The wake-up interrupt is none of those that are masked in sleep. -/
theorem wakeup_not_mac {i : Nat} (h : fiqMac.getLsbD i = true) :
    fiqMacWakeup.getLsbD i = false := by
  have hall : ∀ j : Fin 32, fiqMac.getLsbD j = true → fiqMacWakeup.getLsbD j = false := by decide
  exact hall ⟨i, BitVec.lt_of_getLsbD h⟩ h

theorem getLsbD_clearWakeup (reg : Reg) {i : Nat} (h : fiqMac.getLsbD i = true) :
    (reg &&& ~~~fiqMacWakeup).getLsbD i = reg.getLsbD i := by
  rw [BitVec.getLsbD_and, BitVec.getLsbD_not, wakeup_not_mac h, Bool.not_false, Bool.and_true,
    decide_eq_true (BitVec.lt_of_getLsbD h), Bool.and_true]

namespace LockOk

theorem effect (h : LockOk ints s) {e : Effect} (he : e ≠ .errorPs) : LockOk ints (s.effect e) where
  lock := h.lock
  enabled := h.enabled
  noError := by
    intro hmem
    rcases List.mem_append.mp hmem with hmem | hmem
    · exact h.noError hmem
    · exact he (List.mem_singleton.mp hmem).symm

theorem clearWakeup (h : LockOk ints s) : LockOk ints (s.clearInt fiqMacWakeup) where
  lock := h.lock
  enabled hawake i hi hmac :=
    (getLsbD_clearWakeup s.intEnable hmac).trans (h.enabled hawake i hi hmac)
  noError := h.noError

/-- Fields that the lock does not depend on. -/
theorem congr (h : LockOk ints s) (hsleep : s'.psRealSleep = s.psRealSleep)
    (hlock : s'.psLock = s.psLock) (hint : s'.intEnable = s.intEnable)
    (heff : s'.effects = s.effects) : LockOk ints s' where
  lock := by rw [hsleep, hlock]; exact h.lock
  enabled := by rw [hsleep, hint]; exact h.enabled
  noError := heff ▸ h.noError

theorem awake (h : LockOk ints s) (hsleep : s.psRealSleep ≠ 1) :
    s.psRealSleep = 0 ∧ s.psLock = 1 :=
  h.lock.resolve_left fun hl => hsleep hl.1

theorem asleep (h : LockOk ints s) (hsleep : s.psRealSleep ≠ 0) :
    s.psRealSleep = 1 ∧ s.psLock = 0 :=
  h.lock.resolve_right fun hl => hsleep hl.1

/-! ## Sleep -/

/-- The interrupts are masked already. -/
theorem goPs (hlock : s.psLock = 1) (hno : Effect.errorPs ∉ s.effects) :
    LockOk ints (goPs s) := by
  have hne : ¬s.psLock = 0 := by rw [hlock]; decide
  have hslept : LockOk ints (((powerSaveSleepStatusSet { s with psLock := s.psLock - 1 }).effect
      .sctrlStaRfSleep).setInt fiqMacWakeup) := by
    constructor
    · exact Or.inl ⟨rfl, by change s.psLock - 1 = 0; rw [hlock]; rfl⟩
    · intro hawake
      cases hawake
    · intro hmem
      rcases List.mem_append.mp hmem with hmem | hmem
      · exact hno hmem
      · cases List.mem_singleton.mp hmem
  rw [PowerSave.goPs, if_neg hne]
  dsimp only
  split
  · exact hslept.effect nofun
  · exact hslept

theorem sleep (h : LockOk ints s) (inDoze : Bool) (pending : Reg) (ok : Bool) :
    LockOk ints (powerSaveSleep s net inDoze pending ok) := by
  rw [powerSaveSleep]
  by_cases hsleep : s.psRealSleep = 1 ∨ net.bleSwitchMacSleeped
  · rwa [if_pos hsleep]
  · rw [if_neg hsleep]
    obtain ⟨hawake, hlock⟩ := h.awake fun hs => hsleep (Or.inl hs)
    split
    · exact h
    · split
      · exact h
      · have heff : LockOk ints (s.effect .nxmacEnableIdleInterrupt) := h.effect nofun
        dsimp only
        split
        · exact heff
        · split
          · exact goPs hlock heff.noError
          · exact heff.congr rfl rfl rfl rfl

/-! ## Wake-up -/

/-- What a wake-up leaves. -/
theorem powerSaveWakeup_eq (hlock : s.psLock = 0) (hno : Effect.errorPs ∉ s.effects) :
    ∃ s', powerSaveWakeup s = some s' ∧ s'.psLock = 1 ∧
      s'.intEnable = (s.intEnable ||| fiqMac) &&& ~~~fiqMacWakeup ∧
      Effect.errorPs ∉ s'.effects := by
  unfold powerSaveWakeup
  by_cases hway : s.psArmWakeupWay = .rw
  · refine ⟨_, if_pos ?_, ?_, ?_, ?_⟩ <;>
      simp [hway, hlock, hno, State.effect, State.setInt, State.clearInt]
  · refine ⟨_, if_pos ?_, ?_, ?_, ?_⟩ <;>
      simp [hway, hlock, hno, State.effect, State.setInt, State.clearInt]

/-- All interrupts of the MAC are enabled after a wake-up. -/
theorem enabled_wakeup (reg : Reg) {i : Nat} (h : fiqMac.getLsbD i = true) :
    ((reg ||| fiqMac) &&& ~~~fiqMacWakeup).getLsbD i = true := by
  rw [getLsbD_clearWakeup _ h, BitVec.getLsbD_or, h, Bool.or_true]

theorem exitCheck (h : LockOk ints s) : LockOk ints (powerSaveDtimExitCheck s) := by
  rw [powerSaveDtimExitCheck]
  split
  · dsimp only
    split
    · exact h.congr rfl rfl rfl rfl
    · exact (h.effect (e := .bmsgPs psBmsgIoctlRfDisanable) nofun).congr rfl rfl rfl rfl
  · exact h

theorem ieeeDtimWakeup (h : LockOk ints s) :
    ∃ s', powerSaveIeeeDtimWakeup s net = some s' ∧ LockOk ints s' := by
  rw [powerSaveIeeeDtimWakeup]
  split
  case isFalse => exact ⟨s, rfl, h⟩
  case isTrue hway =>
    obtain ⟨s₁, hwake, hlock, hint, hno⟩ :=
      powerSaveWakeup_eq (h.asleep hway.2.2).2 h.noError
    have hup : LockOk ints { s₁ with psRealSleep := 0, psCanSleep := 1 } :=
      ⟨Or.inr ⟨rfl, hlock⟩, fun _ i _ hmac => hint ▸ enabled_wakeup s.intEnable hmac, hno⟩
    have hawake := hup.effect (e := .mcuPsMachwCal) nofun
    have hflag : LockOk ints { { s₁ with psRealSleep := 0, psCanSleep := 1 }.effect
        .mcuPsMachwCal with psKeepTimerFlag := 1 } := hawake.congr rfl rfl rfl rfl
    have hkeep := hflag.effect (e := .bmsgPs psBmsgIoctlRfKpSet) nofun
    rw [hwake]
    refine ⟨_, rfl, exitCheck (effect ?_ nofun)⟩
    split <;> split
    · exact hkeep
    · exact hawake
    · exact hkeep.effect nofun
    · exact hawake.effect nofun

end LockOk

end TuyaSdk.PowerSave
