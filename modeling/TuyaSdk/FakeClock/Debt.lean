import TuyaSdk.FakeClock.Defs
import TuyaSdk.Lib.Machine

/-!
# The debt of the clock

The clock and the debt of `increase_tick`, both in ms, make up the ticks the interrupts and the
sleeps reported since the last correction. A tick that finds 1 ms of debt is counted in whole, and
`mcu_power_save` charges the debt in ticks: both lose debt.
-/

namespace TuyaSdk.FakeClock
open TuyaSdk.Lib TuyaSdk.McuPs

/-- What happens to the clock: the tick interrupt, the period of `timer_cal_tick` and a return of
`mcu_power_save`. -/
inductive Event where
  | tick (pwmIsr : Bool)
  | timerCal (machw : BitVec 32)
  | sleep (w : Wakeup)

/-- The clock, and the ms it owes: those of the ticks since the last correction, from the sum of
clock and debt that the correction set. -/
structure Ledger where
  state : State
  due : Int

def Ledger.initial : Ledger := ⟨.initial, 0⟩

/-- `due` after a calibration, which is a correction if it changed the clock or the debt. -/
def dueAfterCal (l : Ledger) (s : State) : Int :=
  if s.clock.currentClock = l.state.clock.currentClock ∧ s.increaseTick = l.state.increaseTick then
    l.due
  else s.ms + s.increaseTick

/-- What an event adds to the account. -/
def dueAfter (l : Ledger) (s : State) : Event → Int
  | .tick true => l.due
  | .tick false => l.due + fclkDurationMs
  | .timerCal _ | .sleep (.awake _) => dueAfterCal l s
  | .sleep (.measured missTicks) => l.due + fclkDurationMs * missTicks.toNat

/-- The state after an event. -/
def stateAfter (s : State) : Event → State
  | .tick pwmIsr => fclkHdl s pwmIsr
  | .timerCal machw => timerCalTick s machw
  | .sleep w => bkWlanMcuSuppressAndSleep s w

/-- One event. -/
def account : Machine Ledger Event Unit := fun l e =>
  some (⟨stateAfter l.state e, dueAfter l (stateAfter l.state e) e⟩, ())

/-- The debt is not positive, `mcu_ps_cal_increase_tick` keeps the sum of `*lost_p` and the debt, and
no debt was dropped since the last correction. -/
structure Ledger.Balanced (l : Ledger) : Prop where
  notPositive : l.state.increaseTick ≤ 0
  nonneg : ∀ lostP : BitVec 32, 0 ≤ lostP.toInt →
    0 ≤ int32 (mcuPsCalIncreaseTick lostP.toNat l.state.increaseTick).1
  constant : ∀ lostP : BitVec 32,
    int32 (mcuPsCalIncreaseTick lostP.toNat l.state.increaseTick).1 +
      (mcuPsCalIncreaseTick lostP.toNat l.state.increaseTick).2 =
        lostP.toInt + l.state.increaseTick
  due : (l.state.ms : Int) + l.state.increaseTick ≡ l.due [ZMOD 2 ^ 32]

/-- No counted tick finds 1 ms of debt, and no sleep that missed ticks returns to a debt. -/
def ChargedInFull (l : Ledger) : Event → Prop
  | .tick false => l.state.needPass % 5 = 0 → l.state.increaseTick ≠ -1
  | .sleep (.measured missTicks) => missTicks = 0 ∨ l.state.increaseTick = 0
  | .tick true | .timerCal _ | .sleep (.awake _) => True

/-! ## The clock and the debt in range -/

/-- The clock is 32 bits and the debt is an `int` that is not positive. -/
structure State.InRange (s : State) : Prop where
  clock : s.clock.currentClock < 2 ^ 32
  lower : -2 ^ 31 ≤ s.increaseTick
  upper : s.increaseTick ≤ 0

theorem int32_of_lt {x : Nat} (h : x < 2 ^ 31) : int32 x = x := by
  rw [int32, BitVec.toInt_eq_toNat_cond, BitVec.toNat_ofNat, Nat.mod_eq_of_lt (by omega),
    if_pos (by omega)]

theorem int32_of_le {x : Nat} (h : 2 ^ 31 ≤ x) (hx : x < 2 ^ 32) : int32 x = x - 2 ^ 32 := by
  rw [int32, BitVec.toInt_eq_toNat_cond, BitVec.toNat_ofNat, Nat.mod_eq_of_lt hx,
    if_neg (by omega)]
  norm_num

theorem le_int32 (x : Nat) : -2 ^ 31 ≤ int32 x := BitVec.le_toInt _

theorem int32_lt (x : Nat) : int32 x < 2 ^ 31 := BitVec.toInt_lt

/-- `mcu_ps_cal_increase_tick` leaves both as they are, charges a part of the debt, or all of it. -/
theorem mcuPsCalIncreaseTick_cases {lostP : Nat} (hl : lostP < 2 ^ 32) (increaseTick : Int) :
    ((2 ^ 31 ≤ lostP ∨ lostP = 0 ∨ increaseTick = 0) ∧
      mcuPsCalIncreaseTick lostP increaseTick = (lostP, increaseTick)) ∨
    (0 < lostP ∧ lostP < 2 ^ 31 ∧ increaseTick ≠ 0 ∧ lostP + increaseTick < 0 ∧
      mcuPsCalIncreaseTick lostP increaseTick = (0, lostP + increaseTick)) ∨
    (0 < lostP ∧ lostP < 2 ^ 31 ∧ increaseTick ≠ 0 ∧ 0 ≤ lostP + increaseTick ∧
      mcuPsCalIncreaseTick lostP increaseTick = ((lostP + increaseTick).toNat, 0)) := by
  by_cases hneg : 2 ^ 31 ≤ lostP
  · have hle : int32 lostP ≤ 0 := by
      rw [int32_of_le hneg hl]
      omega
    exact .inl ⟨.inl hneg, by simp only [mcuPsCalIncreaseTick, hle, true_or, if_true]⟩
  · have hint : int32 lostP = lostP := int32_of_lt (by omega)
    simp only [mcuPsCalIncreaseTick, hint]
    by_cases hskip : (lostP : Int) ≤ 0 ∨ increaseTick = 0
    · rw [if_pos hskip]
      exact .inl ⟨by omega, rfl⟩
    · rw [if_neg hskip]
      by_cases hpart : (lostP : Int) + increaseTick < 0
      · rw [if_pos hpart]
        exact .inr (.inl ⟨by omega, by omega, by omega, hpart, rfl⟩)
      · rw [if_neg hpart]
        exact .inr (.inr ⟨by omega, by omega, by omega, by omega, rfl⟩)

theorem State.InRange.charge {s : State} (h : s.InRange) {lostP : Nat} (hl : lostP < 2 ^ 32) :
    -2 ^ 31 ≤ (mcuPsCalIncreaseTick lostP s.increaseTick).2 ∧
      (mcuPsCalIncreaseTick lostP s.increaseTick).2 ≤ 0 := by
  have hlo := h.lower
  have hup := h.upper
  rcases mcuPsCalIncreaseTick_cases hl s.increaseTick with
    ⟨-, hr⟩ | ⟨-, -, -, hneg, hr⟩ | ⟨-, -, -, -, hr⟩ <;> rw [hr] <;> constructor <;> dsimp only <;>
    omega

@[simp]
theorem count_currentClock (c : Clock) : c.count.currentClock = u32 (c.currentClock + 1) := by
  simp only [Clock.count]
  split <;> rfl

@[simp]
theorem fclkFreertosUpdateTick_currentClock (c : Clock) (tick : Nat) :
    (fclkFreertosUpdateTick c tick).currentClock = u32 (c.currentClock + tick) := by
  simp only [fclkFreertosUpdateTick]
  split <;> rfl

theorem fclkUpdateTick_inRange {s : State} (h : s.InRange) (tick : Nat) :
    (fclkUpdateTick s tick).InRange := by
  rw [fclkUpdateTick]
  split
  · exact h
  · refine ⟨?_, by simp, by simp⟩
    rw [fclkFreertosUpdateTick_currentClock]
    exact u32_lt _

theorem State.InRange.withCharge {s : State} (h : s.InRange) {lostP : Nat} (hl : lostP < 2 ^ 32) :
    { s with increaseTick := (mcuPsCalIncreaseTick lostP s.increaseTick).2 }.InRange :=
  ⟨h.clock, (h.charge hl).1, (h.charge hl).2⟩

theorem mcuPsMachwInit_inRange {s : State} (h : s.InRange) (machw : BitVec 32) :
    (mcuPsMachwInit s machw).InRange :=
  ⟨h.clock, h.lower, h.upper⟩

theorem fclkHdl_inRange {s : State} (h : s.InRange) (pwmIsr : Bool) :
    (fclkHdl s pwmIsr).InRange := by
  have hcount : ∀ {s : State}, s.InRange → { s with clock := s.clock.count }.InRange := by
    intro s h
    refine ⟨?_, h.lower, h.upper⟩
    rw [count_currentClock]
    exact u32_lt _
  have hneed : (mcuPsNeedPstick s).1.InRange := by
    have hcharge := h.charge (show fclkDurationMs < 2 ^ 32 by decide)
    rw [mcuPsNeedPstick]
    split
    · exact ⟨h.clock, hcharge.1, hcharge.2⟩
    · exact ⟨h.clock, h.lower, h.upper⟩
  rw [fclkHdl]
  split
  · exact h
  · dsimp only
    split
    · exact hneed
    · exact hcount hneed

theorem State.InRange.settle {s : State} (h : s.InRange) :
    { s with increaseTick := 0 }.InRange := ⟨h.clock, by simp, by simp⟩

theorem timerCalTick_inRange {s : State} (h : s.InRange) (machw : BitVec 32) :
    (timerCalTick s machw).InRange := by
  have hsaved : { s with tmp1 := u32 (s.tmp1 + oneCalTime) }.InRange :=
    ⟨h.clock, h.lower, h.upper⟩
  rw [timerCalTick]
  refine mcuPsMachwInit_inRange ?_ machw
  split
  · exact (fclkUpdateTick_inRange hsaved _).settle
  · have hlo : -2 ^ 31 ≤ s.timerLost := le_int32 _
    split
    · refine ⟨h.clock, ?_, ?_⟩ <;> simp only [fclkDurationMs] at * <;> omega
    · exact hsaved

theorem mcuPsMachwCal_inRange {s : State} (h : s.InRange) (m : Machw) :
    (mcuPsMachwCal s m).InRange := by
  rw [mcuPsMachwCal]
  split
  · exact h
  split
  · exact mcuPsMachwInit_inRange h _
  dsimp only
  split
  · split
    · exact mcuPsMachwInit_inRange h _
    · exact mcuPsMachwInit_inRange (fclkUpdateTick_inRange (h.withCharge (u32_lt _)) _) _
  · exact h

theorem bkWlanMcuSuppressAndSleep_measured (s : State) (missTicks : BitVec 32) :
    bkWlanMcuSuppressAndSleep s (.measured missTicks) =
      fclkUpdateTick
        { s with increaseTick := (mcuPsCalIncreaseTick missTicks.toNat s.increaseTick).2 }
        (mcuPsCalIncreaseTick missTicks.toNat s.increaseTick).1 :=
  rfl

/-- With the radio awake there are no missed ticks to charge. -/
theorem bkWlanMcuSuppressAndSleep_awake (s : State) (m : Machw) :
    bkWlanMcuSuppressAndSleep s (.awake m) = mcuPsMachwCal s m := by
  have hz : ∀ increaseTick, mcuPsCalIncreaseTick 0 increaseTick = (0, increaseTick) := by
    intro increaseTick
    have hint : int32 0 ≤ 0 := by decide
    simp only [mcuPsCalIncreaseTick, hint, true_or, if_true]
  simp only [bkWlanMcuSuppressAndSleep, mcuPowerSaveTicks, hz, fclkUpdateTick, if_true]

theorem stateAfter_inRange {s : State} (h : s.InRange) (e : Event) :
    (stateAfter s e).InRange := by
  cases e with
  | tick pwmIsr => exact fclkHdl_inRange h pwmIsr
  | timerCal machw => exact timerCalTick_inRange h machw
  | sleep w =>
    cases w with
    | measured missTicks => exact fclkUpdateTick_inRange (h.withCharge missTicks.isLt) _
    | awake m =>
      rw [stateAfter, bkWlanMcuSuppressAndSleep_awake]
      exact mcuPsMachwCal_inRange h m

/-! ## The account of an event -/

theorem ms_modEq (s : State) : (s.ms : Int) ≡ 2 * s.clock.currentClock [ZMOD 2 ^ 32] := by
  simp only [State.ms, bkTicksToMs, fclkDurationMs, u32, Int.ModEq]
  omega

/-- A clock that did not move keeps the account if the debt moved by what was due. -/
theorem due_of_clock_eq {l : Ledger} {s : State} {add : Int}
    (h : (l.state.ms : Int) + l.state.increaseTick ≡ l.due [ZMOD 2 ^ 32])
    (hc : s.clock.currentClock = l.state.clock.currentClock) :
    (s.ms : Int) + s.increaseTick ≡ l.due + add [ZMOD 2 ^ 32] ↔
      s.increaseTick - l.state.increaseTick ≡ add [ZMOD 2 ^ 32] := by
  rw [State.ms, hc, ← State.ms]
  simp only [Int.ModEq] at *
  omega

/-- A clock that was stepped keeps the account if step and debt moved by what was due. -/
theorem due_of_clock_step {l : Ledger} {s : State} {add : Int} {n : Nat}
    (h : (l.state.ms : Int) + l.state.increaseTick ≡ l.due [ZMOD 2 ^ 32])
    (hc : s.clock.currentClock = u32 (l.state.clock.currentClock + n)) :
    (s.ms : Int) + s.increaseTick ≡ l.due + add [ZMOD 2 ^ 32] ↔
      2 * n + (s.increaseTick - l.state.increaseTick) ≡ add [ZMOD 2 ^ 32] := by
  simp only [State.ms, hc, bkTicksToMs, fclkDurationMs, u32, Int.ModEq] at *
  omega

theorem balanced_iff {l : Ledger} (h : l.state.InRange) :
    l.Balanced ↔ (l.state.ms : Int) + l.state.increaseTick ≡ l.due [ZMOD 2 ^ 32] := by
  refine ⟨fun h => h.due, fun hdue => ⟨h.upper, ?_, ?_, hdue⟩⟩
  · intro lostP hnonneg
    have hint : lostP.toInt = int32 lostP.toNat := by simp [int32]
    have hup := h.upper
    rcases mcuPsCalIncreaseTick_cases lostP.isLt l.state.increaseTick with
      ⟨-, hr⟩ | ⟨-, -, -, -, hr⟩ | ⟨-, hlt, -, -, hr⟩ <;> rw [hr]
    · exact hint ▸ hnonneg
    · exact (by decide : 0 ≤ int32 0)
    · rw [int32_of_lt (by omega)]
      omega
  · intro lostP
    have hint : lostP.toInt = int32 lostP.toNat := by simp [int32]
    have hup := h.upper
    rcases mcuPsCalIncreaseTick_cases lostP.isLt l.state.increaseTick with
      ⟨-, hr⟩ | ⟨hpos, hlt, -, -, hr⟩ | ⟨hpos, hlt, -, hle, hr⟩ <;> rw [hr, hint]
    · rw [int32_of_lt hlt, show int32 0 = 0 by decide]
      omega
    · rw [int32_of_lt hlt, int32_of_lt (by omega)]
      omega

theorem dueAfterCal_modEq {l : Ledger}
    (h : (l.state.ms : Int) + l.state.increaseTick ≡ l.due [ZMOD 2 ^ 32]) (s : State) :
    (s.ms : Int) + s.increaseTick ≡ dueAfterCal l s [ZMOD 2 ^ 32] := by
  rw [dueAfterCal]
  split
  · next hsame => rwa [State.ms, hsame.1, hsame.2, ← State.ms]
  · rfl

/-- The interrupt takes over the debt that `mcu_ps_need_pstick` leaves, and counts the tick unless it
was charged in full. -/
theorem fclkHdl_fields (s : State) :
    (fclkHdl s false).increaseTick = (mcuPsNeedPstick s).1.increaseTick ∧
      (fclkHdl s false).clock =
        if (mcuPsNeedPstick s).2 = 0 then s.clock else s.clock.count := by
  have hclock : (mcuPsNeedPstick s).1.clock = s.clock := by
    rw [mcuPsNeedPstick]
    split <;> rfl
  rw [fclkHdl, if_neg (by decide)]
  dsimp only
  split
  · exact ⟨rfl, hclock⟩
  · exact ⟨rfl, by rw [hclock]⟩

theorem mcuPsNeedPstick_fields (s : State) :
    ((mcuPsNeedPstick s).2, (mcuPsNeedPstick s).1.increaseTick) =
      if s.needPass % 5 = 0 then mcuPsCalIncreaseTick fclkDurationMs s.increaseTick
      else (fclkDurationMs, s.increaseTick) := by
  rw [mcuPsNeedPstick]
  split <;> rfl

/-- What a tick owes, by what `mcu_ps_need_pstick` returns and leaves. -/
theorem tick_due_of {l : Ledger} {lost : Nat} {debt : Int}
    (h : (l.state.ms : Int) + l.state.increaseTick ≡ l.due [ZMOD 2 ^ 32])
    (hp : ((mcuPsNeedPstick l.state).2, (mcuPsNeedPstick l.state).1.increaseTick) = (lost, debt)) :
    ((fclkHdl l.state false).ms : Int) + (fclkHdl l.state false).increaseTick ≡
        l.due + fclkDurationMs [ZMOD 2 ^ 32] ↔
      (if lost = 0 then 0 else 2) + (debt - l.state.increaseTick) ≡ 2 [ZMOD 2 ^ 32] := by
  obtain ⟨hdebt, hclock⟩ := fclkHdl_fields l.state
  rw [Prod.mk.injEq] at hp
  rw [hp.1] at hclock
  rw [hp.2] at hdebt
  by_cases hz : lost = 0
  · rw [if_pos hz] at hclock ⊢
    rw [due_of_clock_eq h (by rw [hclock]), hdebt, zero_add]
    rfl
  · rw [if_neg hz] at hclock ⊢
    rw [due_of_clock_step (n := 1) h (by rw [hclock, count_currentClock]), hdebt]
    rfl

/-- The tick interrupt charges what it suppresses, but for a debt of 1 ms, which it drops. -/
theorem tick_due {l : Ledger} (hr : l.state.InRange)
    (h : (l.state.ms : Int) + l.state.increaseTick ≡ l.due [ZMOD 2 ^ 32]) :
    ((fclkHdl l.state false).ms : Int) + (fclkHdl l.state false).increaseTick ≡
        l.due + fclkDurationMs [ZMOD 2 ^ 32] ↔
      (l.state.needPass % 5 = 0 → l.state.increaseTick ≠ -1) := by
  have hup := hr.upper
  have hp := mcuPsNeedPstick_fields l.state
  by_cases hturn : l.state.needPass % 5 = 0
  · rw [if_pos hturn] at hp
    rcases mcuPsCalIncreaseTick_cases (show 2 < 2 ^ 32 by decide) l.state.increaseTick with
      ⟨hno, hcal⟩ | ⟨-, -, -, hpart, hcal⟩ | ⟨-, -, hne, hall, hcal⟩ <;> rw [hcal] at hp
    · rw [tick_due_of h hp, if_neg (by decide)]
      refine iff_of_true ?_ fun _ => by omega
      simp
    · rw [tick_due_of h hp, if_pos rfl]
      refine iff_of_true ?_ fun _ => by omega
      simp
    · -- a debt of 2 ms is charged with the tick, one of 1 ms is gone with the tick counted
      rw [tick_due_of h hp]
      by_cases hone : l.state.increaseTick = -1
      · rw [if_neg (by omega), hone]
        simp [hturn, Int.ModEq]
      · rw [if_pos (by omega)]
        refine iff_of_true ?_ fun _ => hone
        rw [show l.state.increaseTick = -2 by omega]
        rfl
  · rw [if_neg hturn] at hp
    rw [tick_due_of h hp, if_neg (by decide)]
    simp [hturn]

/-- A sleep reports its ticks in full only to a clock without debt. -/
theorem measured_due {l : Ledger} (hr : l.state.InRange)
    (h : (l.state.ms : Int) + l.state.increaseTick ≡ l.due [ZMOD 2 ^ 32])
    (missTicks : BitVec 32) :
    let s := bkWlanMcuSuppressAndSleep l.state (.measured missTicks)
    (s.ms : Int) + s.increaseTick ≡ l.due + fclkDurationMs * missTicks.toNat [ZMOD 2 ^ 32] ↔
      missTicks = 0 ∨ l.state.increaseTick = 0 := by
  have hlo := hr.lower
  have hup := hr.upper
  have hlt := missTicks.isLt
  have hzero : missTicks = 0 ↔ missTicks.toNat = 0 := by
    rw [← BitVec.toNat_inj]
    rfl
  rw [bkWlanMcuSuppressAndSleep_measured, hzero]
  generalize missTicks.toNat = miss at *
  have hstep : ∀ (debt : Int) (n : Nat), n ≠ 0 →
      ((fclkUpdateTick { l.state with increaseTick := debt } n).ms +
        (fclkUpdateTick { l.state with increaseTick := debt } n).increaseTick ≡
          l.due + fclkDurationMs * miss [ZMOD 2 ^ 32] ↔
        2 * n + (0 - l.state.increaseTick) ≡ fclkDurationMs * miss [ZMOD 2 ^ 32]) := by
    intro debt n hn
    rw [fclkUpdateTick, if_neg hn]
    exact due_of_clock_step h (fclkFreertosUpdateTick_currentClock _ _)
  have hstay : ∀ (debt : Int) (n : Nat), n = 0 →
      ((fclkUpdateTick { l.state with increaseTick := debt } n).ms +
        (fclkUpdateTick { l.state with increaseTick := debt } n).increaseTick ≡
          l.due + fclkDurationMs * miss [ZMOD 2 ^ 32] ↔
        debt - l.state.increaseTick ≡ fclkDurationMs * miss [ZMOD 2 ^ 32]) := by
    intro debt n hn
    rw [fclkUpdateTick, if_pos hn]
    exact due_of_clock_eq h rfl
  rcases mcuPsCalIncreaseTick_cases hlt l.state.increaseTick with
    ⟨hno, hcal⟩ | ⟨hpos, hsmall, hne, hpart, hcal⟩ | ⟨hpos, hsmall, hne, hall, hcal⟩ <;> rw [hcal]
  · by_cases hz : miss = 0
    · refine (hstay _ _ hz).trans ?_
      simp only [Int.ModEq, fclkDurationMs]
      omega
    · refine (hstep _ _ hz).trans ?_
      simp only [Int.ModEq, fclkDurationMs]
      omega
  · refine (hstay _ _ rfl).trans ?_
    simp only [Int.ModEq, fclkDurationMs]
    omega
  · by_cases hz : (miss + l.state.increaseTick).toNat = 0
    · refine (hstay _ _ hz).trans ?_
      simp only [Int.ModEq, fclkDurationMs]
      omega
    · refine (hstep _ _ hz).trans ?_
      simp only [Int.ModEq, fclkDurationMs]
      omega

theorem account_step (l : Ledger) (e : Event) (h : l.state.InRange ∧ l.Balanced) :
    ∃ l' o, account l e = some (l', o) ∧ (ChargedInFull l e → l'.state.InRange ∧ l'.Balanced) ∧
      (¬ChargedInFull l e → ¬l'.Balanced) := by
  have hr := stateAfter_inRange h.1 e
  refine ⟨_, (), rfl, ?_⟩
  have hiff : Ledger.Balanced ⟨stateAfter l.state e, dueAfter l (stateAfter l.state e) e⟩ ↔
      ChargedInFull l e := by
    rw [balanced_iff hr]
    cases e with
    | tick pwmIsr =>
      cases pwmIsr with
      | true => exact iff_of_true h.2.due trivial
      | false => exact tick_due h.1 h.2.due
    | timerCal machw => exact iff_of_true (dueAfterCal_modEq h.2.due _) trivial
    | sleep w =>
      cases w with
      | measured missTicks => exact measured_due h.1 h.2.due missTicks
      | awake m => exact iff_of_true (dueAfterCal_modEq h.2.due _) trivial
  exact ⟨fun hok => ⟨hr, hiff.mpr hok⟩, fun hno hb => hno (hiff.mp hb)⟩

/-- The debt of the clock is kept in every state of a run of interrupts, calibrations and sleeps
exactly when no counted tick of it finds 1 ms of debt and no sleep that missed ticks finds any. -/
theorem debtKept_iff (events : List Event) :
    (∀ n l os, Machine.run account .initial (events.take n) = some (l, os) → l.Balanced) ↔
      Machine.Legal account ChargedInFull .initial events := by
  have hr : Ledger.initial.state.InRange := ⟨by decide, by decide, by decide⟩
  exact Machine.consequence_iff_legal (fun _ h => h.2) account_step
    ⟨hr, (balanced_iff hr).mpr rfl⟩

/-- A sleep of 20 s leaves the clock 5 s early when `timer_cal_tick` sees it: the 10 ms that the next
sleep reports are charged as 5. -/
theorem debtKept_afterSleep :
    ¬ ∀ (events : List Event) (n : Nat) (l : Ledger) (os : List Unit),
      Machine.run account .initial (events.take n) = some (l, os) → l.Balanced := by
  intro h
  let slept := stateAfter .initial (.sleep (.measured 10000))
  let early := stateAfter slept (.timerCal 0)
  have hr : State.initial.InRange := ⟨by decide, by decide, by decide⟩
  have hclock : slept.clock.currentClock = 10000 := by
    have hcal : mcuPsCalIncreaseTick 10000 0 = (10000, 0) := by decide
    have hupdate : slept = fclkUpdateTick .initial 10000 := by
      change bkWlanMcuSuppressAndSleep .initial (.measured 10000) = _
      rw [bkWlanMcuSuppressAndSleep_measured]
      change fclkUpdateTick
        { State.initial with increaseTick := (mcuPsCalIncreaseTick 10000 0).2 }
        (mcuPsCalIncreaseTick 10000 0).1 = _
      rw [hcal]
      rfl
    rw [hupdate, fclkUpdateTick, if_neg (by decide)]
    exact fclkFreertosUpdateTick_currentClock _ _
  have hsaved : slept.tmp1 = 0 := rfl
  have hlost : slept.timerLost = -5000 := by
    rw [State.timerLost, State.ms, hclock, hsaved]
    decide
  have hdebt : early.increaseTick = -4998 := by
    change (timerCalTick slept 0).increaseTick = _
    rw [timerCalTick, hlost]
    rfl
  have hrange : early.InRange := stateAfter_inRange (stateAfter_inRange hr _) _
  obtain ⟨l, hrange, hincrease, hearly, hlate⟩ : ∃ l : Ledger, l.state.InRange ∧
      l.state.increaseTick = -4998 ∧ l.Balanced ∧
      Ledger.Balanced ⟨stateAfter l.state (.sleep (.measured 5)),
        dueAfter l (stateAfter l.state (.sleep (.measured 5))) (.sleep (.measured 5))⟩ :=
    ⟨⟨early, dueAfter ⟨slept, 20000⟩ early (.timerCal 0)⟩,
      hrange, hdebt,
      h [.sleep (.measured 10000), .timerCal 0, .sleep (.measured 5)] 2 _ [(), ()] rfl,
      h [.sleep (.measured 10000), .timerCal 0, .sleep (.measured 5)] 3 _ [(), (), ()] rfl⟩
  rcases (measured_due hrange hearly.due 5).mp hlate.due with hno | hno
  · exact absurd hno (by decide)
  · rw [hincrease] at hno
    exact absurd hno (by decide)

end TuyaSdk.FakeClock
