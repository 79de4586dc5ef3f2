import TuyaSdk.FakeClock.Defs
import TuyaSdk.Lib.Machine

/-!
# Ticks and steps count alike

The clock after `n` ticks is a function of `n`, however they were split into ticks and steps, and
its counters agree. `fclk_reset_count` leaves `second_countdown` as it is, so that the counters
agree again only if it is called when a second has just been counted.
-/

namespace TuyaSdk.FakeClock
open TuyaSdk.Lib TuyaSdk.McuPs

/-- The clock `n` ticks after its start. -/
def clockAt (n : Nat) : Clock := ⟨u32 n, u32 (n / fclkSecond), fclkSecond - n % fclkSecond⟩

/-- Calls of the clock: a tick that `fclk_hdl` counts, `fclk_update_tick` and `fclk_reset_count`. -/
inductive Call where
  | hdl
  | updateTick (tick : BitVec 32)
  | resetCount
  deriving DecidableEq

/-- The clock, and the ticks it was given since it was last reset. -/
structure Counted where
  clock : Clock
  ticks : Nat

/-- The clock at the start. -/
def Counted.initial : Counted := ⟨.initial, 0⟩

/-- One call. -/
def call : Machine Counted Call Unit
  | s, .hdl => some (⟨s.clock.count, s.ticks + 1⟩, ())
  | s, .updateTick tick =>
    if tick.toNat = 0 then some (s, ())
    else some (⟨fclkFreertosUpdateTick s.clock tick.toNat, s.ticks + tick.toNat⟩, ())
  | s, .resetCount => some (⟨fclkResetCount s.clock, 0⟩, ())

/-- The counters are in order and agree, and depend only on the number of ticks. -/
structure Counted.Kept (s : Counted) : Prop where
  countdown : 1 ≤ s.clock.secondCountdown ∧ s.clock.secondCountdown ≤ fclkSecond
  count : s.clock.currentClock ≡
    s.clock.currentSeconds * fclkSecond + (fclkSecond - s.clock.secondCountdown) [MOD 2 ^ 32]
  second : s.ticks < 2 ^ 32 → s.clock.currentSeconds = fclkGetSecond s.clock
  split : s.clock = clockAt s.ticks

/-- A reset comes when a second has just been counted. -/
def ResetsOnSecond (s : Counted) : Call → Prop
  | .resetCount => s.ticks % fclkSecond = 0
  | .hdl | .updateTick _ => True

instance (s : Counted) (c : Call) : Decidable (ResetsOnSecond s c) := by
  cases c <;> simp only [ResetsOnSecond] <;> infer_instance

theorem clockAt_zero : clockAt 0 = .initial := rfl

theorem kept_iff {s : Counted} : s.Kept ↔ s.clock = clockAt s.ticks := by
  refine ⟨fun h => h.split, fun h => ?_⟩
  have hsplit := Nat.div_add_mod s.ticks fclkSecond
  refine ⟨?_, ?_, fun hlt => ?_, h⟩ <;> rw [h]
  · simp only [clockAt, fclkSecond, fclkDurationMs]
    omega
  · simp only [clockAt, fclkSecond, fclkDurationMs, u32, Nat.ModEq] at *
    omega
  · simp only [clockAt, fclkGetSecond, fclkSecond, fclkDurationMs, u32] at *
    omega

/-! ## What a call does to the count -/

theorem fclkSecond_eq : fclkSecond = 500 := rfl

theorem count_last {c : Clock} (h : c.secondCountdown = 1) :
    c.count = ⟨u32 (c.currentClock + 1), u32 (c.currentSeconds + 1), fclkSecond⟩ := by
  have hz : sub32 c.secondCountdown 1 = 0 := by rw [h, sub32_of_le (by decide) (by decide)]
  simp only [Clock.count, hz, if_true]

theorem count_within {c : Clock} (h : 1 < c.secondCountdown) (hle : c.secondCountdown ≤ 500) :
    c.count = ⟨u32 (c.currentClock + 1), c.currentSeconds, c.secondCountdown - 1⟩ := by
  have hsub : sub32 c.secondCountdown 1 = c.secondCountdown - 1 :=
    sub32_of_le (by omega) (by omega)
  have hnz : ¬c.secondCountdown - 1 = 0 := by omega
  simp only [Clock.count, hsub, hnz, if_false]

theorem count_clockAt (n : Nat) : (clockAt n).count = clockAt (n + 1) := by
  have hcd : (clockAt n).secondCountdown = 500 - n % 500 := rfl
  by_cases hlast : n % 500 = 499
  · rw [count_last (by omega)]
    simp only [clockAt, fclkSecond_eq, u32, Clock.mk.injEq]
    omega
  · rw [count_within (by omega) (by omega)]
    simp only [clockAt, fclkSecond_eq, u32, Clock.mk.injEq]
    omega

theorem wholeSeconds_eq (currentSeconds tick : Nat) (h : currentSeconds < 2 ^ 32) :
    wholeSeconds currentSeconds tick =
      (u32 (currentSeconds + tick / fclkSecond), tick % fclkSecond) := by
  fun_induction wholeSeconds currentSeconds tick with
  | case1 currentSeconds tick hle ih =>
    rw [ih (u32_lt _)]
    have hdiv : tick / fclkSecond = (tick - fclkSecond) / fclkSecond + 1 :=
      Nat.div_eq_sub_div (by decide) hle
    rw [hdiv, ← Nat.mod_eq_sub_mod hle]
    simp only [u32, Prod.mk.injEq, and_true]
    omega
  | case2 currentSeconds tick hlt =>
    have hlt : tick < fclkSecond := by omega
    rw [Nat.div_eq_of_lt hlt, Nat.mod_eq_of_lt hlt, Nat.add_zero, u32_of_lt h]

/-- What `fclk_freertos_update_tick` does behind its loop, on a clock whose second counts down. -/
theorem fclkFreertosUpdateTick_eq {c : Clock} (hs : c.currentSeconds < 2 ^ 32)
    (hcd : 1 ≤ c.secondCountdown ∧ c.secondCountdown ≤ 500) (tick : Nat) :
    fclkFreertosUpdateTick c tick =
      if c.secondCountdown ≤ tick % 500 then
        ⟨u32 (c.currentClock + tick), u32 (c.currentSeconds + tick / 500 + 1),
          500 - (tick % 500 - c.secondCountdown)⟩
      else
        ⟨u32 (c.currentClock + tick), u32 (c.currentSeconds + tick / 500),
          c.secondCountdown - tick % 500⟩ := by
  have hlt := Nat.mod_lt tick (show 0 < 500 by decide)
  simp only [fclkFreertosUpdateTick, wholeSeconds_eq _ tick hs, fclkSecond_eq]
  split
  · rw [sub32_of_le (a := tick % 500) (by omega) (by omega), sub32_of_le (by omega) (by omega)]
    simp only [u32, Nat.mod_add_mod]
  · rw [sub32_of_le (by omega) (by omega)]

theorem fclkFreertosUpdateTick_clockAt (n tick : Nat) :
    fclkFreertosUpdateTick (clockAt n) tick = clockAt (n + tick) := by
  have hcd : (clockAt n).secondCountdown = 500 - n % 500 := rfl
  have hlt := Nat.mod_lt n (show 0 < 500 by decide)
  rw [fclkFreertosUpdateTick_eq (u32_lt _) (by omega)]
  -- the parts of a second on both sides may make up a whole one
  by_cases hcarry : 500 ≤ n % 500 + tick % 500
  · rw [if_pos (by omega)]
    simp only [clockAt, fclkSecond_eq, u32, Clock.mk.injEq]
    omega
  · rw [if_neg (by omega)]
    simp only [clockAt, fclkSecond_eq, u32, Clock.mk.injEq]
    omega

theorem fclkResetCount_clockAt (n : Nat) :
    fclkResetCount (clockAt n) = clockAt 0 ↔ n % fclkSecond = 0 := by
  simp only [fclkResetCount, clockAt, Clock.mk.injEq, fclkSecond_eq, u32]
  omega

theorem call_kept (s : Counted) (c : Call) (h : s.Kept) :
    ∃ s' o, call s c = some (s', o) ∧ (s'.Kept ↔ ResetsOnSecond s c) := by
  obtain ⟨clock, ticks⟩ := s
  obtain rfl : clock = clockAt ticks := h.split
  cases c with
  | hdl =>
    have hkept : Counted.Kept ⟨(clockAt ticks).count, ticks + 1⟩ := by
      rw [kept_iff, count_clockAt]
    exact ⟨_, (), rfl, iff_of_true hkept trivial⟩
  | updateTick tick =>
    have hkept : Counted.Kept
        ⟨fclkFreertosUpdateTick (clockAt ticks) tick.toNat, ticks + tick.toNat⟩ :=
      kept_iff.mpr (fclkFreertosUpdateTick_clockAt ticks tick.toNat)
    rw [call]
    split
    · exact ⟨_, (), rfl, iff_of_true h trivial⟩
    · exact ⟨_, (), rfl, iff_of_true hkept trivial⟩
  | resetCount =>
    refine ⟨⟨fclkResetCount (clockAt ticks), 0⟩, (), rfl, ?_⟩
    rw [kept_iff]
    exact fclkResetCount_clockAt ticks

/-- The counters of the software clock are in order, agree and depend only on the number of ticks in
every state of a run of calls exactly when every `fclk_reset_count` of it comes when a second has
just been counted. -/
theorem clockKept_iff (calls : List Call) :
    (∀ n s os, Machine.run call .initial (calls.take n) = some (s, os) → s.Kept) ↔
      Machine.Legal call ResetsOnSecond .initial calls :=
  Machine.always_iff_legal call_kept (kept_iff.mpr clockAt_zero.symm)

/-- Reset after one tick, the clock counts its first second after 499 ticks. -/
theorem clockKept_afterReset :
    ¬ ∀ (calls : List Call) (n : Nat) (s : Counted) (os : List Unit),
      Machine.run call .initial (calls.take n) = some (s, os) → s.Kept := by
  intro h
  have hkept := h [.hdl, .resetCount] 2 ⟨⟨0, 0, 499⟩, 0⟩ [(), ()] rfl
  have hcount := hkept.count
  revert hcount
  decide

end TuyaSdk.FakeClock
