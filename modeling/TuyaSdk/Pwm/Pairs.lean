import TuyaSdk.Lib.Unwinding
import TuyaSdk.Pwm.Channels

/-!
# Complementary pairs

Two channels make a complementary pair, driven in the group mode of the hardware if they are a
group. Whether they are, and which of the two initial levels was forced, is kept in three
variables for all pairs (`group_flag`, `pwm1_set_high_flag`, `pwm2_set_low_flag`). A pair is on
its own as long as a start or stop finds the group flag that its own calls left, and an update
sets the levels it writes.
-/

namespace TuyaSdk.Pwm
open TuyaSdk.Lib

variable {φ : Type*} {s s' s'' t : Dev φ}

/-- Two channels. -/
structure Pair where
  a : Nat
  b : Nat
  a_lt : a < 6
  b_lt : b < 6
  ne : a ≠ b

theorem pwmCheckGroup_eq (p : Pair) :
    pwmCheckGroup p.a p.b = if p.a / 2 = p.b / 2 then 1 else 0 := by
  have hall : ∀ a < 6, ∀ b < 6, a ≠ b → pwmCheckGroup a b = if a / 2 = b / 2 then 1 else 0 := by
    decide
  exact hall p.a p.a_lt p.b p.b_lt p.ne

/-- The bits of the group mode. -/
def GroupMode (i : Nat) : Prop := i = 24 ∨ i = 25

/-- The control fields of a pair: the bytes of its channels, and the group mode if they are a
group. -/
def Pair.Bits (p : Pair) (g i : Nat) : Prop :=
  OfChannel p.a g i ∨ OfChannel p.b g i ∨ (p.a / 2 = p.b / 2 ∧ g = p.a / 2 ∧ GroupMode i)

/-- What a pair sees of the control registers: the bytes of its channels and the mode of their
groups. -/
def Pair.View (p : Pair) (g i : Nat) : Prop :=
  OfChannel p.a g i ∨ OfChannel p.b g i ∨ ((g = p.a / 2 ∨ g = p.b / 2) ∧ GroupMode i)

/-- The channels of a pair. -/
def Pair.Has (p : Pair) (d : Nat) : Prop := d = p.a ∨ d = p.b

/-- The channel is in a group with one of the pair. -/
def Pair.Near (p : Pair) (d : Nat) : Prop := d / 2 = p.a / 2 ∨ d / 2 = p.b / 2

/-- The pairs have no channel in common. -/
def Pair.Disjoint (p q : Pair) : Prop := ∀ d, p.Has d → ¬q.Has d

theorem OfChannel.unique {c d g i : Nat} (h : OfChannel c g i) (h' : OfChannel d g i) :
    c = d := by
  unfold OfChannel at h h'
  omega

theorem OfChannel.not_groupMode {c g i : Nat} (h : OfChannel c g i) : ¬GroupMode i := by
  unfold OfChannel at h
  unfold GroupMode
  omega

theorem Pair.Disjoint.bits {p q : Pair} (h : p.Disjoint q) {g i : Nat} (hp : p.View g i) :
    ¬q.Bits g i := by
  have ha := h p.a (.inl rfl)
  have hb := h p.b (.inr rfl)
  unfold Pair.Has at ha hb
  rw [not_or] at ha hb
  intro hq
  rcases hp with hp | hp | ⟨hg, hmode⟩
  · rcases hq with hq | hq | ⟨-, -, hmode⟩
    · exact ha.1 (hp.unique hq)
    · exact ha.2 (hp.unique hq)
    · exact hp.not_groupMode hmode
  · rcases hq with hq | hq | ⟨-, -, hmode⟩
    · exact hb.1 (hp.unique hq)
    · exact hb.2 (hp.unique hq)
    · exact hp.not_groupMode hmode
  · rcases hq with hq | hq | ⟨hgroup, hgq, -⟩
    · exact hq.not_groupMode hmode
    · exact hq.not_groupMode hmode
    · -- the other pair has both channels of the group
      have hne := q.ne
      obtain ⟨ha, ha'⟩ := ha
      obtain ⟨hb, hb'⟩ := hb
      rcases hg with hg | hg
      · clear hb hb'
        omega
      · clear ha ha'
        omega

/-! ## No flag of another channel is cleared -/

/-- No flag of channel `d` is cleared between the states if none is up. -/
structure Quiet (d : Nat) (s s' : Dev φ) : Prop where
  moment : s.moment ≤ s'.moment
  raises : s'.raises = s.raises
  quiet : ¬s.PendingBy d (s'.moment - s.moment) →
    s'.cleared.count d = s.cleared.count d ∧ s'.pending d = false

theorem Quiet.of_traffic {d len : Nat} {last : Option Nat}
    (h : ¬s.PendingBy d len → Traffic d last len s s') (hm : s'.moment = s.moment + len)
    (hr : s'.raises = s.raises) : Quiet d s s' := by
  refine ⟨by omega, hr, fun hq => ?_⟩
  rw [hm, Nat.add_sub_cancel_left] at hq
  have htraffic := h hq
  obtain ⟨new, hc, hmem, hp⟩ := htraffic.clears
  have hnew : d ∉ new := by
    intro hin
    obtain ⟨n, hn, hup⟩ := hmem.mp hin
    exact hq (hup.mono (htraffic.inside n hn))
  refine ⟨?_, ?_⟩
  · rw [hc, List.count_append, List.count_eq_zero.mpr hnew, Nat.add_zero]
  · exact Bool.eq_false_iff.mpr fun hup => hq ((hp hnew).mp hup)

theorem quiet_of_still {d n : Nat} (h : ¬s.PendingBy d n → Traffic d none n s s')
    (hm : s'.moment = s.moment + n) (hr : s'.raises = s.raises) : Quiet d s s' :=
  Quiet.of_traffic h hm hr

theorem Traffic.isQuiet {d len : Nat} {last : Option Nat} (h : Traffic d last len s s') :
    Quiet d s s' :=
  Quiet.of_traffic (fun _ => h) h.moment h.raises

theorem Quiet.trans {d : Nat} (h : Quiet d s s') (h' : Quiet d s' s'') : Quiet d s s'' := by
  have hm := h.moment
  have hm' := h'.moment
  refine ⟨by omega, by rw [h'.raises, h.raises], fun hq => ?_⟩
  obtain ⟨hc, hp⟩ := h.quiet fun hup => hq (hup.mono (by omega))
  have hq' : ¬s'.PendingBy d (s''.moment - s'.moment) := by
    rintro (hup | ⟨k, hk, hup⟩)
    · rw [hp] at hup
      exact Bool.false_ne_true hup
    · rw [h.raises] at hup
      refine hq (.inr ⟨s'.moment - s.moment + k, by omega, ?_⟩)
      rw [← Nat.add_assoc, Nat.add_sub_cancel' hm]
      exact hup
  obtain ⟨hc', hp'⟩ := h'.quiet hq'
  exact ⟨by rw [hc', hc], hp'⟩

/-! ## What is done to a pair -/

/-- Between the states nothing changes but the fields and timing registers of the pair, and no
flag of another channel is cleared if none is up. -/
structure OnPair (p : Pair) (s s' : Dev φ) : Prop where
  changes : Changes p.Bits p.Has s s'
  quiet : ∀ d, ¬p.Has d → Quiet d s s'
  apart : ∀ d, ¬p.Near d → s'.cleared.count d = s.cleared.count d

variable {p : Pair}

theorem OnPair.trans (h : OnPair p s s') (h' : OnPair p s' s'') : OnPair p s s'' where
  changes := h.changes.trans h'.changes
  quiet d hd := (h.quiet d hd).trans (h'.quiet d hd)
  apart d hd := by rw [h'.apart d hd, h.apart d hd]

/-- A flag that is not written back is not cleared. -/
theorem Traffic.count_none {d len : Nat} (h : Traffic d none len s s') :
    s'.cleared.count d = s.cleared.count d :=
  h.count_eq.mpr (by simp)

theorem OnChannel.onPair {c len : Nat} {last : Option Nat} (h : OnChannel c last len s s')
    (hc : p.Has c) : OnPair p s s' := by
  refine ⟨h.changes.mono (fun g i hb => ?_) (fun d hd => hd ▸ hc), fun d hd => ?_, fun d hd => ?_⟩
  · rcases hc with rfl | rfl
    · exact .inl hb
    · exact .inr (.inl hb)
  · refine (h.traffic d ?_).isQuiet
    rintro rfl
    exact hd hc
  · have hg : ¬d / 2 = c / 2 := by
      unfold Pair.Near at hd
      rcases hc with rfl | rfl <;> omega
    have htraffic := h.traffic d fun heq => hg (heq ▸ rfl)
    rw [if_neg hg] at htraffic
    exact htraffic.count_none

theorem OnPair.refl (p : Pair) (s : Dev φ) : OnPair p s s :=
  (OnChannel.still (c := p.a) rfl rfl rfl rfl rfl).onPair (.inl rfl)

/-- A pair that is a group has the control register for itself. -/
theorem onPair_modifyGroup (p : Pair) (s : Dev φ) (hg : p.a / 2 = p.b / 2)
    {f : BitVec 32 → BitVec 32} (h : Within (fun i => i < 16 ∨ GroupMode i) f) :
    OnPair p s (s.modifyCtrl (p.a / 2) f) := by
  have hne := p.ne
  refine ⟨(modifyCtrl_changes s _ h).mono (fun g i hb => ?_) fun d hd => hd, fun d hd => ?_,
    fun d hd => ?_⟩
  · unfold Pair.Bits OfChannel
    obtain ⟨rfl, hlow | hmode⟩ := hb
    · omega
    · exact .inr (.inr ⟨hg, rfl, hmode⟩)
  · refine (modifyCtrl_masked s fun hd' => ?_).isQuiet
    unfold Pair.Has at hd
    omega
  · exact (modifyCtrl_masked s fun hd' => absurd (.inl hd') hd).count_none

/-- The variables of the driver are set. -/
theorem onPair_variables (p : Pair) (s : Dev φ) (g c : Nat) :
    OnPair p s { s with currentGroup := g, currentChannel := c } :=
  OnChannel.onPair (c := p.a) (OnChannel.still rfl rfl rfl rfl rfl) (.inl rfl)

theorem onPair_groupEnable (s : Dev φ) (hg : p.a / 2 = p.b / 2) :
    OnPair p s (pwmGroupEnable s p.a) := by
  have ha := p.a_lt
  unfold pwmGroupEnable PWM_CHANNEL_NUMBER_MAX
  rw [if_neg (by omega), groupOf_eq ha]
  have hvars := onPair_variables p s (p.a / 2) s.currentChannel
  refine hvars.trans (onPair_modifyGroup p _ hg (Leaves.within (leaves_or ?_)))
  exact (inside_bit (.inl (by omega))).or (inside_bit (.inl (by omega)))

theorem onPair_groupModeEnable (s : Dev φ) (hg : p.a / 2 = p.b / 2) :
    OnPair p s (pwmGroupModeEnable s p.a) := by
  unfold pwmGroupModeEnable
  simp only [groupOf_eq p.a_lt]
  refine OnPair.trans ?_ (onPair_groupEnable _ hg)
  have hvars := onPair_variables p s (p.a / 2) (if p.a < 2 then p.a else s.currentChannel)
  refine hvars.trans (onPair_modifyGroup p _ hg (Leaves.within (leaves_or ?_)))
  exact (inside_bit (.inr (.inl rfl))).or (inside_bit (.inr (.inr rfl)))

theorem onPair_groupModeDisable (s : Dev φ) (hg : p.a / 2 = p.b / 2) :
    OnPair p s (pwmGroupModeDisable s p.a) := by
  have ha := p.a_lt
  unfold pwmGroupModeDisable PWM_CHANNEL_NUMBER_MAX
  rw [if_neg (by omega), groupOf_eq ha]
  have hvars := onPair_variables p s (p.a / 2) s.currentChannel
  refine hvars.trans (onPair_modifyGroup p _ hg (Leaves.within (leaves_andNot ?_)))
  exact (((inside_bit (.inl (by omega))).or (inside_bit (.inl (by omega)))).or
    (inside_bit (.inr (.inl rfl)))).or (inside_bit (.inr (.inr rfl)))

/-- A level field holds a bit. -/
theorem inside_level {b : Nat → Prop} {x : Nat} {level : BitVec 32} (hl : level.toNat < 2)
    (hb : b (8 * x + 6)) : Inside b (level <<< intLevlBit x) := by
  refine inside_shift (k := 1) hl fun i hi hlt => ?_
  unfold intLevlBit at hi hlt
  obtain rfl : i = 8 * x + 6 := by omega
  exact hb

theorem onPair_groupUpdate (s : Dev φ) (hg : p.a / 2 = p.b / 2) {l0 l1 : BitVec 32}
    (h0 : l0.toNat < 2) (h1 : l1.toNat < 2) :
    OnPair p s (pwmGroupUpdateParamEnable s p.a l0 l1) := by
  have ha := p.a_lt
  unfold pwmGroupUpdateParamEnable PWM_COUNT
  rw [if_neg (by omega), groupOf_eq ha, chanOf_eq ha]
  refine ((onChannel_select s p.a p.a).onPair (.inl rfl)).trans
    (onPair_modifyGroup p _ hg (Leaves.within ?_))
  have hmask : Inside (fun i => i < 16 ∨ GroupMode i) (intLevlMask 1 ||| intLevlMask 0) :=
    (inside_bit (.inl (by decide))).or (inside_bit (.inl (by decide)))
  have hupd : Inside (fun i => i < 16 ∨ GroupMode i) (cfgUpdataMask 0 ||| cfgUpdataMask 1) :=
    (inside_bit (.inl (by decide))).or (inside_bit (.inl (by decide)))
  have hlevel : ∀ x < 2, ∀ l : BitVec 32, l.toNat < 2 →
      Inside (fun i => i < 16 ∨ GroupMode i) (l <<< intLevlBit x) :=
    fun x hx l hl => inside_level hl (.inl (by omega))
  by_cases hchan : p.a % 2 = 0
  · simp only [hchan, if_true]
    exact leaves_put hmask ((hupd.or (hlevel 1 (by omega) l1 h1)).or (hlevel 0 (by omega) l0 h0))
  · simp only [hchan, if_false]
    exact leaves_put hmask ((hupd.or (hlevel 1 (by omega) l0 h0)).or (hlevel 0 (by omega) l1 h1))

theorem writeCtrl_ofChannel {c : Nat} {value : BitVec 32} {timers : Nat → Prop}
    (h : ∀ i, i < 30 → ¬i / 8 = c % 2 → value.getLsbD i = s.ctrlBit (c / 2) i) :
    Changes (OfChannel c) timers s (s.writeCtrl (c / 2) value) :=
  writeCtrl_changes h

/-- The value that updates one channel outside of a group. -/
def putLevel (x : Nat) (level value : BitVec 32) : BitVec 32 :=
  (value &&& ~~~intLevlMask x) ||| (cfgUpdataMask x ||| (level <<< intLevlBit x))

theorem putLevel_leaves (x : Nat) {level : BitVec 32} (hl : level.toNat < 2) :
    Leaves (fun i => i / 8 = x) (putLevel x level) :=
  leaves_put (inside_byte (by omega)) ((inside_byte (by omega)).or (inside_level hl (by omega)))

theorem nogroupUpdate_eq (p : Pair) (s : Dev φ) (l0 l1 : BitVec 32) :
    pwmNogroupUpdateParamEnable s p.a p.b l0 l1 =
      ((s.select p.b).tick.tick.writeCtrl (p.a / 2)
          (putLevel (p.a % 2) l0 (s.tick.ctrl (p.a / 2)))).writeCtrl (p.b / 2)
        (putLevel (p.b % 2) l1 (s.tick.tick.ctrl (p.b / 2))) := by
  unfold pwmNogroupUpdateParamEnable
  simp only [getCurrentGroup_eq p.a_lt, getCurrentGroup_eq p.b_lt]
  have ha : (s.select p.a).currentChannel = p.a % 2 := chanOf_eq p.a_lt
  have hb : ∀ s : Dev φ, (s.select p.b).currentChannel = p.b % 2 := fun s => chanOf_eq p.b_lt
  rw [ha, hb]
  rfl

theorem onPair_nogroupUpdate (s : Dev φ) (hg : p.a / 2 ≠ p.b / 2) {l0 l1 : BitVec 32}
    (h0 : l0.toNat < 2) (h1 : l1.toNat < 2) :
    OnPair p s (pwmNogroupUpdateParamEnable s p.a p.b l0 l1) := by
  rw [nogroupUpdate_eq]
  have hbits : ∀ (s : Dev φ) (g i : Nat), i < 30 → (s.ctrl g).getLsbD i = s.ctrlBit g i :=
    fun s g i hi => ctrl_getLsbD hi
  have hreads : ∀ d, Traffic d none 2 s (s.select p.b).tick.tick := by
    intro d
    have hsel : Traffic d none 0 s (s.select p.b) := Traffic.still rfl rfl rfl rfl
    have htick : ∀ s : Dev φ, Traffic d none 1 s s.tick := fun s => Traffic.tick rfl rfl rfl rfl
    exact (hsel.trans (htick _)).trans (htick _)
  refine ⟨?_, fun d hd => ?_, fun d hd => ?_⟩
  · have hreads : Changes p.Bits p.Has s (s.select p.b).tick.tick := Changes.of_regs rfl
    have hfst : Changes p.Bits p.Has (s.select p.b).tick.tick
        ((s.select p.b).tick.tick.writeCtrl (p.a / 2)
          (putLevel (p.a % 2) l0 (s.tick.ctrl (p.a / 2)))) := by
      refine (writeCtrl_ofChannel fun i hi hb => ?_).mono (fun g i hb => .inl hb) fun d hd => hd
      rw [putLevel_leaves (p.a % 2) h0 _ i (by omega) hb, hbits _ _ _ hi]
      rfl
    refine (hreads.trans hfst).trans
      ((writeCtrl_ofChannel fun i hi hb => ?_).mono (fun g i hb => .inr (.inl hb)) fun d hd => hd)
    have hne : ctrlAddr (p.b / 2) ≠ ctrlAddr (p.a / 2) :=
      fun heq => hg (ctrlAddr_inj.mp heq).symm
    rw [putLevel_leaves (p.b % 2) h1 _ i (by omega) hb, hbits _ _ _ hi]
    simp [Dev.ctrlBit, Dev.writeCtrl, Function.update_of_ne hne, Dev.tick, Dev.select]
  · unfold Pair.Has at hd
    refine quiet_of_still (n := 4) (fun hq => ?_) rfl rfl
    have h1' : s.tick.pending d = false := by
      rw [Bool.eq_false_iff, ne_eq, tick_pending]
      exact fun hup => hq (hup.mono (by omega))
    have h2' : s.tick.tick.pending d = false := by
      rw [Bool.eq_false_iff, ne_eq, tick_tick_pending]
      exact fun hup => hq (hup.mono (by omega))
    refine ((hreads d).trans (writeCtrl_traffic _ fun hdg => ?_)).trans
      (writeCtrl_traffic _ fun hdg => ?_)
    · rw [putLevel_leaves _ h0 _ _ (by omega) (by omega), ← hdg, ctrl_flag, h1']
    · rw [putLevel_leaves _ h1 _ _ (by omega) (by omega), ← hdg, ctrl_flag, h2']
  · refine Traffic.count_none ((hreads d).trans
      (writeCtrl_traffic _ fun hdg => absurd (.inl hdg) hd) |>.trans
      (writeCtrl_traffic _ fun hdg => absurd (.inr hdg) hd))

end TuyaSdk.Pwm
