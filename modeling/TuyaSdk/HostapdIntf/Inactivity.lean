import TuyaSdk.FakeClock.Count

/-!
# Station inactivity (`func/hostapd_intf/hostapd_intf.c`)

hostapd polls a silent station with a null frame and asks how long it has been inactive. The
callback of an acknowledged frame stamps the station with the tick, and `hapd_get_sta_info` takes
the time since the stamp. It handles the wrap of the tick by hand.

The station table belongs to the MAC library: what `sta_mgmt_get_sta` and
`sta_mgmt_get_sta_with_id` find is a parameter of the calls.
-/

namespace TuyaSdk.HostapdIntf
open TuyaSdk.Lib TuyaSdk.FakeClock

/-- `TICK_PER_SECOND` -/
abbrev tickPerSecond : Nat := fclkSecond

/-- `FRAME_SUCCESSFUL_TX_BIT` -/
def frameSuccessfulTxBit : Nat := 23

/-- The clock, and `pre_rx_timepoint` of each `struct sta_info_tag`. -/
structure Stations where
  clock : Clock
  preRxTimepoint : Nat → BitVec 32

/-- `fclk_get_tick`, as the 32 bits it is stored in. -/
def Stations.tick (s : Stations) : BitVec 32 := BitVec.ofNat 32 s.clock.currentClock

/-- `hapd_poll_callback`; `staEntry` is what `sta_mgmt_get_sta_with_id` finds. -/
def hapdPollCallback (s : Stations) (staEntry : Option Nat) (status : BitVec 32) : Stations :=
  if status.getLsbD frameSuccessfulTxBit = false then s
  else
    match staEntry with
    | none => s
    | some sta => { s with preRxTimepoint := Function.update s.preRxTimepoint sta s.tick }

/-- `hapd_get_sta_info` on a `param` that is there: what it returns and `inactive_sec`; `entry` is
what `sta_mgmt_get_sta` finds. -/
def hapdGetStaInfo (s : Stations) (entry : Option Nat) : Int × Nat :=
  match entry with
  | none => (0, 0)
  | some sta =>
    let preRxTimepoint := (s.preRxTimepoint sta).toNat
    if preRxTimepoint = 0 then (0, 0)
    else
      let tickCnt := s.tick.toNat
      if preRxTimepoint < tickCnt then (0, sub32 tickCnt preRxTimepoint / tickPerSecond)
      else (0, u32 (sub32 0xFFFFFFFF preRxTimepoint + tickCnt) / tickPerSecond)

/-- What happens between two queries: calls of the clock, and callbacks of null frames. -/
inductive Event where
  | clock (c : Call)
  | poll (staEntry : Option Nat) (status : BitVec 32)

/-- The clock after one of its calls. -/
def clockAfter (c : Clock) : Call → Clock
  | .hdl => c.count
  | .updateTick tick => if tick.toNat = 0 then c else fclkFreertosUpdateTick c tick.toNat
  | .resetCount => fclkResetCount c

/-- One event. -/
def Stations.after (s : Stations) : Event → Stations
  | .clock c => { s with clock := clockAfter s.clock c }
  | .poll staEntry status => hapdPollCallback s staEntry status

/-- The events in order. -/
def history : Stations → List Event → Stations := List.foldl Stations.after

/-- The tick an event stamps the station with. -/
def stamp (s : Stations) (sta : Nat) : Event → Option (BitVec 32)
  | .clock _ => none
  | .poll staEntry status =>
    if status.getLsbD frameSuccessfulTxBit = true ∧ staEntry = some sta then some s.tick else none

/-- The tick that the station was last stamped with. -/
def lastActive : Stations → Nat → List Event → Option (BitVec 32)
  | _, _, [] => none
  | s, sta, e :: es => (lastActive (s.after e) sta es).or (stamp s sta e)

/-- The seconds from tick `t₀` to tick `t`. -/
def elapsedSeconds (t₀ t : BitVec 32) : Nat := (t - t₀).toNat / tickPerSecond

/-- The time is right: a stamp of 0 is still in its first second, the tick has not come back to
another stamp, and a time that wraps is not a whole number of seconds. -/
def Timed (t₀ t : BitVec 32) : Prop :=
  if t₀ = 0 then t.toNat < tickPerSecond
  else t₀ < t ∨ t < t₀ ∧ ¬ tickPerSecond ∣ (t - t₀).toNat

instance (t₀ t : BitVec 32) : Decidable (Timed t₀ t) := by
  unfold Timed
  infer_instance

/-! ## The stamp -/

theorem after_preRxTimepoint (s : Stations) (sta : Nat) (e : Event) :
    (s.after e).preRxTimepoint sta = (stamp s sta e).getD (s.preRxTimepoint sta) := by
  cases e with
  | clock c => rfl
  | poll staEntry status =>
    simp only [Stations.after, hapdPollCallback, stamp]
    cases hack : status.getLsbD frameSuccessfulTxBit with
    | false => simp
    | true =>
      cases staEntry with
      | none => simp
      | some other =>
        by_cases heq : other = sta
        · subst heq
          simp
        · simp [heq, Function.update_of_ne (Ne.symm heq)]

theorem history_preRxTimepoint (s : Stations) (sta : Nat) (events : List Event) :
    (history s events).preRxTimepoint sta =
      (lastActive s sta events).getD (s.preRxTimepoint sta) := by
  induction events generalizing s with
  | nil => rfl
  | cons e es ih =>
    rw [history, List.foldl_cons, ← history, ih, after_preRxTimepoint, lastActive]
    cases lastActive (s.after e) sta es with
    | none => simp
    | some t => simp

/-! ## The time since the stamp -/

/-- Past the wrap one tick is missing, which is a second if a whole number of them has passed. -/
theorem wrapped_div {d : Nat} (h : 0 < d) :
    (d - 1) / tickPerSecond = d / tickPerSecond ↔ ¬ tickPerSecond ∣ d := by
  rw [Nat.dvd_iff_mod_eq_zero, show tickPerSecond = 500 from rfl]
  omega

theorem hapdGetStaInfo_iff (s : Stations) (sta : Nat) :
    hapdGetStaInfo s (some sta) = (0, elapsedSeconds (s.preRxTimepoint sta) s.tick) ↔
      Timed (s.preRxTimepoint sta) s.tick := by
  simp only [hapdGetStaInfo, Timed, elapsedSeconds, ← BitVec.toNat_inj, BitVec.lt_def]
  have h₀ := (s.preRxTimepoint sta).isLt
  have ht := s.tick.isLt
  have hsub := BitVec.toNat_sub s.tick (s.preRxTimepoint sta)
  generalize (s.preRxTimepoint sta).toNat = t₀ at *
  generalize (s.tick - s.preRxTimepoint sta).toNat = d at *
  generalize s.tick.toNat = t at *
  change _ ↔ if t₀ = 0 then _ else _
  by_cases hz : t₀ = 0
  · have hd : d = t := by omega
    rw [if_pos hz, if_pos hz, hd, Prod.mk.injEq, show tickPerSecond = 500 from rfl]
    omega
  rw [if_neg hz, if_neg hz]
  by_cases hlt : t₀ < t
  · have hd : d = sub32 t t₀ := by
      rw [sub32_of_le hlt.le ht]
      omega
    rw [if_pos hlt, hd]
    exact iff_of_true rfl (.inl hlt)
  · have hmax : u32 (sub32 0xFFFFFFFF t₀ + t) = 2 ^ 32 - t₀ + t - 1 := by
      rw [sub32_of_le (by omega) (by omega), u32_of_lt (by omega)]
      omega
    rw [if_neg hlt, hmax, Prod.mk.injEq]
    by_cases heq : t = t₀
    · have hd : d = 0 := by omega
      rw [hd, heq, show tickPerSecond = 500 from rfl]
      omega
    · have hd : d = 2 ^ 32 - t₀ + t := by omega
      rw [← hd, wrapped_div (by omega)]
      omega

/-- After every history in which a station was last stamped at tick `t₀`, the seconds that
`hapd_get_sta_info` reports are those since `t₀` exactly when `Timed` says so. -/
theorem inactiveSec_iff (s : Stations) (events : List Event) (sta : Nat) (t₀ : BitVec 32)
    (h : lastActive s sta events = some t₀) :
    hapdGetStaInfo (history s events) (some sta) =
        (0, elapsedSeconds t₀ (history s events).tick) ↔
      Timed t₀ (history s events).tick := by
  have hstamp : (history s events).preRxTimepoint sta = t₀ := by
    rw [history_preRxTimepoint, h, Option.getD_some]
  rw [← hstamp]
  exact hapdGetStaInfo_iff _ sta

/-- The clock at its start, and stations that were never polled. -/
def Stations.initial : Stations := ⟨.initial, fun _ => 0⟩

/-- One tick, a null frame that station 3 acknowledges, one more tick. -/
theorem inactiveSec_nextTick :
    hapdGetStaInfo
        (history .initial [.clock .hdl, .poll (some 3) (BitVec.twoPow 32 23), .clock .hdl])
        (some 3) = (0, 0) :=
  (inactiveSec_iff .initial [.clock .hdl, .poll (some 3) (BitVec.twoPow 32 23), .clock .hdl] 3 1
    (by decide)).mpr (by decide)

/-- A station that was polled in this tick has been silent for 99 days. -/
theorem inactiveSec_sameTick :
    ¬ ∀ (s : Stations) (events : List Event) (sta : Nat) (t₀ : BitVec 32),
      lastActive s sta events = some t₀ →
        hapdGetStaInfo (history s events) (some sta) =
          (0, elapsedSeconds t₀ (history s events).tick) := by
  intro h
  have hsame := h .initial [.clock .hdl, .poll (some 3) (BitVec.twoPow 32 23)] 3 1 (by decide)
  revert hsame
  decide

end TuyaSdk.HostapdIntf
