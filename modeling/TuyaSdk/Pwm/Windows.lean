import TuyaSdk.Pwm.Independent
import TuyaSdk.TklPwm.Calls

/-!
# The windows of a complementary pair

Within a period of `count` the first channel of a pair is on from its T1 to its T2, the second
from the start to its T1. The two drive the two sides of a bridge and must not be on together.

`bk_pwm_cw_initialize` and `bk_pwm_cw_update_param` add two duties and two dead bands in 32 bits
and compare the sum with `count`. What they program then keeps the windows apart just when the
sum did not wrap. The values that the adapter passes never wrap.
-/

namespace TuyaSdk.Pwm
open TuyaSdk.Lib

variable {φ : Type*} {s s' s'' : Dev φ} {p : Pair}

/-- The timing of a pair, as it is asked for. -/
structure Timing where
  count : BitVec 32
  dutyCycle1 : BitVec 32
  dutyCycle2 : BitVec 32
  deadBand : BitVec 32
  deriving DecidableEq, Repr

/-- `kNoErr`. -/
def kNoErr : Int := 0

/-- What `bk_pwm_cw_initialize` and `bk_pwm_cw_update_param` return. -/
def Timing.status (t : Timing) : Int :=
  if ¬CwValid t.count t.dutyCycle1 t.dutyCycle2 t.deadBand then -1 else kNoErr

/-- The duties and the dead bands at both ends of a period. -/
def Timing.total (t : Timing) : Nat :=
  t.dutyCycle1.toNat + t.dutyCycle2.toNat + 2 * t.deadBand.toNat

/-- `bk_pwm_cw_initialize` of a pair. -/
def Timing.init (t : Timing) (p : Pair) (s : Cw φ) : Cw φ :=
  bkPwmCwInitialize s p.a p.b t.count t.dutyCycle1 t.dutyCycle2 t.deadBand

/-- `bk_pwm_cw_update_param` of a pair, with what its parameter block holds. -/
def Timing.update (t : Timing) (p : Pair) (s : Cw φ) (stack0 stack1 : BitVec 32) : Cw φ :=
  bkPwmCwUpdateParam s p.a p.b t.count t.dutyCycle1 t.dutyCycle2 t.deadBand stack0 stack1

/-- The counts at which the first channel of the pair is on. -/
def Pair.window1 (p : Pair) (s : Dev φ) : Set Nat :=
  Set.Ico (s.timer p.a 1).toNat (s.timer p.a 2).toNat

/-- The counts at which the second channel of the pair is on. -/
def Pair.window2 (p : Pair) (s : Dev φ) : Set Nat := Set.Ico 0 (s.timer p.b 1).toNat

/-- The registers hold the timing that was asked for, and the windows keep the dead band. -/
structure NoShootThrough (p : Pair) (s : Dev φ) (t : Timing) : Prop where
  start1 : ((s.timer p.a 1).toNat : Int) = t.count.toNat - t.dutyCycle1.toNat - t.deadBand.toNat
  stop1 : ((s.timer p.a 2).toNat : Int) = t.count.toNat - t.deadBand.toNat
  ordered : s.timer p.a 1 ≤ s.timer p.a 2 ∧ s.timer p.a 2 ≤ t.count
  stop2 : s.timer p.b 1 = t.dutyCycle2
  disjoint : Disjoint (p.window1 s) (p.window2 s)
  before : (s.timer p.b 1).toNat + t.deadBand.toNat ≤ (s.timer p.a 1).toNat
  behind : (s.timer p.a 2).toNat + t.deadBand.toNat ≤ t.count.toNat

/-! ## What is programmed -/

/-- T1 and T2 of a channel. -/
def Programmed (s : Dev φ) (c : Nat) (t1 t2 : BitVec 32) : Prop :=
  s.timer c 1 = t1 ∧ s.timer c 2 = t2

/-- The timing registers are not written. -/
abbrev TimersKept (s s' : Dev φ) : Prop := Changes (fun _ _ => True) (fun _ => False) s s'

theorem Programmed.changes {bits : Nat → Nat → Prop} {timers : Nat → Prop} {c : Nat}
    {t1 t2 : BitVec 32} (h : Programmed s c t1 t2) (hch : Changes bits timers s s')
    (hc : ¬timers c) : Programmed s' c t1 t2 :=
  ⟨(hch.timers c 1 (by omega) hc).trans h.1, (hch.timers c 2 (by omega) hc).trans h.2⟩

theorem Programmed.setHandler {c : Nat} {t1 t2 : BitVec 32} (h : Programmed s c t1 t2) (i : Nat)
    (f : Option φ) : Programmed (s.setHandler i f) c t1 t2 := h

theorem writeTimers_programmed (s : Dev φ) (c : Nat) (t1 t2 t3 t4 : BitVec 32) :
    Programmed (s.writeTimers (c / 2) (c % 2) t1 t2 t3 t4) c t1 t2 := by
  have hne : ∀ i j, (1 ≤ i ∧ i ≤ 4) → (1 ≤ j ∧ j ≤ 4) → i ≠ j → timerAddr c i ≠ timerAddr c j :=
    fun i j hi hj hij heq => hij ((timerAddr_inj hi hj).mp heq).2
  rw [writeTimers_eq]
  constructor
  · simp [Dev.timer, Dev.regWrite, Dev.tick, Function.update_of_ne (hne 1 2 _ _ _),
      Function.update_of_ne (hne 1 3 _ _ _), Function.update_of_ne (hne 1 4 _ _ _)]
  · simp [Dev.timer, Dev.regWrite, Dev.tick, Function.update_of_ne (hne 2 3 _ _ _),
      Function.update_of_ne (hne 2 4 _ _ _)]

theorem modifyCtrl_kept (s : Dev φ) (g : Nat) (f : BitVec 32 → BitVec 32) :
    TimersKept s (s.modifyCtrl g f) :=
  (modifyCtrl_changes s g (b := fun _ => True) fun _ _ _ hno => absurd trivial hno).mono
    (fun _ _ _ => trivial) fun _ h => h

theorem modifySelected_kept (s : Dev φ) (c g : Nat) (f : BitVec 32 → BitVec 32) :
    TimersKept s ((s.select c).modifyCtrl g f) := by
  have hselect : TimersKept s (s.select c) := Changes.of_regs rfl
  exact hselect.trans (modifyCtrl_kept _ g f)

theorem writeCtrl_kept (s : Dev φ) (g : Nat) (v : BitVec 32) : TimersKept s (s.writeCtrl g v) :=
  (writeCtrl_changes (b := fun _ => True) fun _ _ hno => absurd trivial hno).mono
    (fun _ _ _ => trivial) fun _ h => h

theorem initPwmParam_programmed (s : Dev φ) {q : PwmParam φ} (hc : q.channel < 6) (hv : q.Valid) :
    Programmed (initPwmParam s (some q)).2 q.channel q.dutyCycle1 q.dutyCycle2 := by
  unfold initPwmParam
  simp only [hv, not_true, if_false, groupOf_eq hc, chanOf_eq hc]
  have htimers := writeTimers_programmed ((s.select q.channel).modifyCtrl (q.channel / 2)
    fun value => (value &&& ~~~((7 : BitVec 32) <<< modeSetBit (q.channel % 2))) |||
      (q.mode.setWidth 32 <<< modeSetBit (q.channel % 2))) q.channel
    q.dutyCycle1 q.dutyCycle2 q.dutyCycle3 q.endValue
  have hclear := htimers.changes
    (modifyCtrl_kept _ (q.channel / 2) (clearStat (q.channel % 2))) not_false
  exact (hclear.setHandler q.channel q.pIntHandler).changes
    (modifyCtrl_kept _ (q.channel / 2) (setIntEnable (q.channel % 2) q.intEn)) not_false

theorem pwmUpdateParam_programmed (s : Dev φ) {q : PwmParam φ} (hc : q.channel < 6) :
    Programmed (pwmUpdateParam s q) q.channel q.dutyCycle1 q.dutyCycle2 := by
  rw [pwmUpdateParam_eq s hc]
  exact writeTimers_programmed _ _ _ _ _ _

theorem pwmInitLevlSetLow_kept (s : Dev φ) (c : Nat) : TimersKept s (pwmInitLevlSetLow s c) := by
  unfold pwmInitLevlSetLow
  split_ifs
  · exact Changes.refl
  · exact modifySelected_kept s c _ _

theorem pwmInitLevlSetHigh_kept (s : Dev φ) (c : Nat) : TimersKept s (pwmInitLevlSetHigh s c) := by
  unfold pwmInitLevlSetHigh
  split_ifs
  · exact Changes.refl
  · exact modifySelected_kept s c _ _

theorem setLevel_kept (s : Dev φ) (c : Nat) (high : Prop) [Decidable high] :
    TimersKept s (setLevel s c high) := by
  unfold setLevel
  split_ifs
  · exact pwmInitLevlSetHigh_kept s c
  · exact pwmInitLevlSetLow_kept s c

theorem pwmInitLevlGet_kept (s : Dev φ) (c : Nat) : TimersKept s (pwmInitLevlGet s c).2 := by
  unfold pwmInitLevlGet
  split_ifs
  · exact Changes.refl
  · exact Changes.of_regs rfl

theorem pwmGroupUpdateParamEnable_kept (s : Dev φ) (c : Nat) (l0 l1 : BitVec 32) :
    TimersKept s (pwmGroupUpdateParamEnable s c l0 l1) := by
  unfold pwmGroupUpdateParamEnable
  by_cases hc : c ≥ PWM_COUNT
  · rw [if_pos hc]
    exact Changes.refl
  · rw [if_neg hc]
    exact modifySelected_kept s c _ _

theorem pwmNogroupUpdateParamEnable_kept (p : Pair) (s : Dev φ) (l0 l1 : BitVec 32) :
    TimersKept s (pwmNogroupUpdateParamEnable s p.a p.b l0 l1) := by
  rw [nogroupUpdate_eq]
  have hreads : TimersKept s (s.select p.b).tick.tick := Changes.of_regs rfl
  exact (hreads.trans (writeCtrl_kept _ _ _)).trans (writeCtrl_kept _ _ _)

/-! ## The two calls -/

theorem Timing.status_eq {t : Timing} :
    t.status = kNoErr ↔ CwValid t.count t.dutyCycle1 t.dutyCycle2 t.deadBand := by
  unfold Timing.status
  by_cases hv : CwValid t.count t.dutyCycle1 t.dutyCycle2 t.deadBand
  · simp [hv]
  · simp [hv, kNoErr]

theorem init_programmed (s : Cw φ) {t : Timing} (hs : t.status = kNoErr)
    (hne : t.dutyCycle1 ≠ 0) (h1 : t.count - t.dutyCycle1 - t.deadBand ≤ t.count)
    (h2 : t.dutyCycle2 ≤ t.count) :
    Programmed (t.init p s).pwm p.a (t.count - t.dutyCycle1 - t.deadBand) (t.count - t.deadBand) ∧
      Programmed (t.init p s).pwm p.b t.dutyCycle2 t.count := by
  rw [Timing.init, bkPwmCwInitialize_eq p s (Timing.status_eq.mp hs)]
  suffices h : Programmed (cwPrepare p s.pwm t.count t.dutyCycle1 t.dutyCycle2 t.deadBand) p.a
      (t.count - t.dutyCycle1 - t.deadBand) (t.count - t.deadBand) ∧
      Programmed (cwPrepare p s.pwm t.count t.dutyCycle1 t.dutyCycle2 t.deadBand) p.b
        t.dutyCycle2 t.count by
    exact ⟨(h.1.changes (setLevel_kept _ _ _) not_false).changes (setLevel_kept _ _ _) not_false,
      (h.2.changes (setLevel_kept _ _ _) not_false).changes (setLevel_kept _ _ _) not_false⟩
  simp only [cwPrepare, hne, if_false]
  refine ⟨?_, initPwmParam_programmed _ p.b_lt ⟨p.b_lt, h2⟩⟩
  have hfirst := initPwmParam_programmed s.pwm (q := ⟨p.a, PWM_PWM_MODE, 0, t.count,
    t.count - t.dutyCycle1 - t.deadBand, t.count - t.deadBand, 0, none⟩) p.a_lt ⟨p.a_lt, h1⟩
  have hlow := hfirst.changes (pwmInitLevlSetLow_kept _ p.a) not_false
  exact hlow.changes (initPwmParam_on _ p.b_lt).changes p.ne

theorem update_programmed (s : Cw φ) {t : Timing} (stack0 stack1 : BitVec 32)
    (hs : t.status = kNoErr) (hne : t.dutyCycle1 ≠ 0) :
    Programmed (t.update p s stack0 stack1).pwm p.a
        (t.count - t.dutyCycle1 - t.deadBand) (t.count - t.deadBand) ∧
      Programmed (t.update p s stack0 stack1).pwm p.b t.dutyCycle2 t.count := by
  have hkept : TimersKept (cwTimers p s.pwm t.count t.dutyCycle1 t.dutyCycle2 t.deadBand)
      (t.update p s stack0 stack1).pwm := by
    rw [Timing.update, bkPwmCwUpdateParam, if_neg (not_not.mpr (Timing.status_eq.mp hs))]
    dsimp only
    rw [show pwmUpdateParam (pwmUpdateParam s.pwm _) _ =
      cwTimers p s.pwm t.count t.dutyCycle1 t.dutyCycle2 t.deadBand from rfl]
    generalize cwTimers p s.pwm t.count t.dutyCycle1 t.dutyCycle2 t.deadBand = q
    have hlook : ∀ (q : Dev φ) (c : Nat) (asked : Prop) [Decidable asked],
        TimersKept q (if asked then (pwmInitLevlGet q c).2 else q) := by
      intro q c asked _
      split_ifs
      · exact pwmInitLevlGet_kept q c
      · exact Changes.refl
    refine ((hlook q p.b (t.dutyCycle2 = 0)).trans (hlook _ p.a (t.dutyCycle1 = t.count))).trans ?_
    by_cases hg : pwmCheckGroup p.a p.b ≠ 0
    · simp only [if_pos hg]
      exact pwmGroupUpdateParamEnable_kept _ _ _ _
    · simp only [if_neg hg]
      exact pwmNogroupUpdateParamEnable_kept p _ _ _
  have hb := pwmUpdateParam_programmed (pwmUpdateParam s.pwm ⟨p.a, 0, 0, t.count,
    t.count - t.dutyCycle1 - t.deadBand, t.count - t.deadBand, 0, none⟩)
    (q := ⟨p.b, 0, 0, t.count, t.dutyCycle2, t.count, 0, none⟩) p.b_lt
  have ha := (pwmUpdateParam_programmed s.pwm (q := ⟨p.a, 0, 0, t.count,
    t.count - t.dutyCycle1 - t.deadBand, t.count - t.deadBand, 0, none⟩) p.a_lt).changes
    (pwmUpdateParam_on _ (p := ⟨p.b, 0, 0, t.count, t.dutyCycle2, t.count, 0, none⟩)
      p.b_lt).changes p.ne
  unfold cwTimers at hkept
  simp only [hne, if_false] at hkept
  exact ⟨ha.changes hkept not_false, hb.changes hkept not_false⟩

/-! ## The sum -/

theorem toNat_two : (2 : BitVec 32).toNat = 2 := rfl

theorem Timing.accepted_iff {t : Timing} :
    t.status = kNoErr ↔ t.total % 2 ^ 32 ≤ t.count.toNat := by
  rw [Timing.status_eq, CwValid, BitVec.lt_def, Nat.not_lt]
  have hsum : (t.dutyCycle1 + t.dutyCycle2 + 2 * t.deadBand).toNat = t.total % 2 ^ 32 := by
    unfold Timing.total
    simp only [BitVec.toNat_add, BitVec.toNat_mul, toNat_two]
    omega
  rw [hsum]

/-- An accepted sum that did not wrap fits a period. -/
theorem Timing.total_lt_iff {t : Timing} (hs : t.status = kNoErr) :
    t.total < 2 ^ 32 ↔ t.total ≤ t.count.toNat := by
  have hacc := Timing.accepted_iff.mp hs
  have hcount := t.count.isLt
  constructor
  · intro h
    rwa [Nat.mod_eq_of_lt h] at hacc
  · exact fun h => Nat.lt_of_le_of_lt h hcount

/-- T1 and T2 of the first channel, when the sum fits a period. -/
theorem Timing.toNat_starts {t : Timing} (h : t.total ≤ t.count.toNat) :
    (t.count - t.dutyCycle1 - t.deadBand).toNat =
        t.count.toNat - t.dutyCycle1.toNat - t.deadBand.toNat ∧
      (t.count - t.deadBand).toNat = t.count.toNat - t.deadBand.toNat := by
  unfold Timing.total at h
  have h1 : t.dutyCycle1 ≤ t.count := by
    rw [BitVec.le_def]
    omega
  have h2 : t.deadBand ≤ t.count := by
    rw [BitVec.le_def]
    omega
  have h3 : t.deadBand ≤ t.count - t.dutyCycle1 := by
    rw [BitVec.le_def, BitVec.toNat_sub_of_le h1]
    omega
  rw [BitVec.toNat_sub_of_le h3, BitVec.toNat_sub_of_le h1, BitVec.toNat_sub_of_le h2]
  exact ⟨rfl, rfl⟩

/-- Registers that are programmed when the sum fits a period keep the windows apart just then. -/
theorem noShootThrough_iff {t : Timing} (hs : t.status = kNoErr)
    (hprog : t.total ≤ t.count.toNat →
      Programmed s p.a (t.count - t.dutyCycle1 - t.deadBand) (t.count - t.deadBand) ∧
        Programmed s p.b t.dutyCycle2 t.count) :
    NoShootThrough p s t ↔ t.total < 2 ^ 32 := by
  rw [Timing.total_lt_iff hs]
  constructor
  · intro h
    have hstart := h.start1
    have hbefore := h.before
    rw [h.stop2] at hbefore
    unfold Timing.total
    omega
  · intro hfit
    obtain ⟨⟨ha1, ha2⟩, hb1, -⟩ := hprog hfit
    obtain ⟨h1, h2⟩ := Timing.toNat_starts hfit
    unfold Timing.total at hfit
    have hbefore : (s.timer p.b 1).toNat + t.deadBand.toNat ≤ (s.timer p.a 1).toNat := by
      rw [ha1, hb1, h1]
      omega
    refine ⟨?_, ?_, ⟨?_, ?_⟩, hb1, ?_, hbefore, ?_⟩
    · rw [ha1, h1]
      omega
    · rw [ha2, h2]
      omega
    · rw [ha1, ha2, BitVec.le_def, h1, h2]
      omega
    · rw [ha2, BitVec.le_def, h2]
      omega
    · rw [Pair.window1, Pair.window2, Set.disjoint_left]
      intro x hx1 hx2
      have hle := hx1.1
      have hlt := hx2.2
      omega
    · rw [ha2, h2]
      omega

/-! ## The adapter -/

/-- The timing that is passed to the driver. -/
def drvTiming : TklPwm.DrvCall → Option Timing
  | .cwInitialize _ _ count d1 d2 db | .cwUpdateParam _ _ count d1 d2 db => some ⟨count, d1, d2, db⟩
  | _ => none

/-- Half of what two duties leave of a period, below and above: the sum never wraps. -/
theorem halves_accepted (count : BitVec 32) {cold warm : BitVec 32}
    (hcold : cold.toNat * 10000 < 2 ^ 32) (hwarm : warm.toNat * 10000 < 2 ^ 32)
    (h : count ≥ cold + warm) :
    (Timing.mk count cold warm ((count - cold - warm) / 2)).status = kNoErr ∧
      (Timing.mk count cold warm ((count - cold - warm) / 2)).total < 2 ^ 32 := by
  have hadd : (cold + warm).toNat = cold.toNat + warm.toNat := by
    rw [BitVec.toNat_add]
    exact Nat.mod_eq_of_lt (by omega)
  have hsum : cold.toNat + warm.toNat ≤ count.toNat := hadd ▸ BitVec.le_def.mp h
  have hcold' : cold ≤ count := BitVec.le_def.mpr (by omega)
  have hrest : (count - cold).toNat = count.toNat - cold.toNat := BitVec.toNat_sub_of_le hcold'
  have hwarm' : warm ≤ count - cold := BitVec.le_def.mpr (by omega)
  have hdead : ((count - cold - warm) / 2).toNat =
      (count.toNat - cold.toNat - warm.toNat) / 2 := by
    rw [BitVec.toNat_udiv, BitVec.toNat_sub_of_le hwarm', hrest, toNat_two]
  have htotal : (Timing.mk count cold warm ((count - cold - warm) / 2)).total ≤ count.toNat := by
    change cold.toNat + warm.toNat + 2 * ((count - cold - warm) / 2).toNat ≤ count.toNat
    omega
  have hlt := Nat.lt_of_le_of_lt htotal count.isLt
  refine ⟨Timing.accepted_iff.mpr ?_, hlt⟩
  rwa [Nat.mod_eq_of_lt hlt]

theorem pwmDuty_lt (duty count : BitVec 32) :
    (TklPwm.pwmDuty duty count).toNat * 10000 < 2 ^ 32 := by
  rw [TklPwm.toNat_pwmDuty]
  exact scaled_mul_lt (by decide)

theorem bringUp_drv {drv : TklPwm.Driver} {setUp start c : TklPwm.DrvCall}
    (hc : .drv c ∈ (TklPwm.bringUp drv setUp start).1) : c = setUp ∨ c = start := by
  unfold TklPwm.bringUp at hc
  split at hc
  · simpa using hc
  · exact .inl (by simpa using hc)

theorem multichannelStart_accepted {drv : TklPwm.Driver} {st : TklPwm.Statics} {ch0 ch1 num : Nat}
    {o : TklPwm.Outcome} (h : TklPwm.tklPwmMultichannelStart drv st ch0 ch1 num = some o)
    {c : TklPwm.DrvCall} (hc : .drv c ∈ o.events) {t : Timing} (ht : drvTiming c = some t) :
    t.status = kNoErr ∧ t.total < 2 ^ 32 := by
  rw [TklPwm.tklPwmMultichannelStart] at h
  split at h
  swap
  · cases h
    exact absurd hc List.not_mem_nil
  split at h
  · cases h
    exact absurd hc List.not_mem_nil
  split at h
  · cases h
    simp at hc
  split at h
  · cases h
  next count hcount =>
    have hok := halves_accepted count (pwmDuty_lt (st.pwmCfg ch0).duty count)
      (pwmDuty_lt (st.pwmCfg ch1).duty count)
    dsimp only at h
    split at h
    swap
    · cases h
      simp at hc
    next hfit =>
      split at h
      · cases h
        have hup := bringUp_drv (by simpa using hc)
        rcases hup with rfl | rfl
        · cases ht
          exact hok hfit
        · cases ht
      · cases h
        simp only [List.mem_cons, List.not_mem_nil, reduceCtorEq, TklPwm.Event.drv.injEq, false_or,
          or_false] at hc
        subst hc
        cases ht
        exact hok hfit

/-! ## No shoot-through -/

/-- The timings that both calls accept, with the first channel on for a part of the period, keep
the windows apart just when their sum is no more than a word holds. What the adapter passes is
accepted, and its sum is that small. -/
theorem windows_iff :
    (∀ (p : Pair) (s : Cw φ) (t : Timing), t.status = kNoErr → 0 < t.dutyCycle1 →
      t.dutyCycle1 < t.count →
      (NoShootThrough p (t.init p s).pwm t ↔ t.total < 2 ^ 32) ∧
        ∀ stack0 stack1,
          NoShootThrough p (t.update p s stack0 stack1).pwm t ↔ t.total < 2 ^ 32) ∧
      ∀ drv st ch0 ch1 num o, TklPwm.tklPwmMultichannelStart drv st ch0 ch1 num = some o →
        ∀ c t, .drv c ∈ o.events → drvTiming c = some t → t.status = kNoErr ∧ t.total < 2 ^ 32 := by
  refine ⟨fun p s t hs hpos hlt => ?_, fun drv st ch0 ch1 num o h c t hc ht =>
    multichannelStart_accepted h hc ht⟩
  have hne := pos_iff.mp hpos
  refine ⟨noShootThrough_iff hs fun hfit => ?_, fun stack0 stack1 => noShootThrough_iff hs
    fun _ => update_programmed s stack0 stack1 hs hne⟩
  have h1 := (Timing.toNat_starts hfit).1
  unfold Timing.total at hfit
  refine init_programmed s hs hne ?_ ?_
  · rw [BitVec.le_def, h1]
    omega
  · rw [BitVec.le_def]
    omega

/-- A dead band of half a word is doubled to nothing. -/
def wideBand : Timing := ⟨10, 5, 0, 0x80000000⟩

theorem windows_iff_pair :
    NoShootThrough (twoPairs true) ((Timing.mk 100 50 40 2).init (twoPairs true) (bootCw Unit)).pwm
      (Timing.mk 100 50 40 2) :=
  ((windows_iff.1 (twoPairs true) (bootCw Unit) (Timing.mk 100 50 40 2) (by decide) (by decide)
    (by decide)).1).mpr (by decide)

theorem not_forall_apart :
    ¬∀ (p : Pair) (s : Cw Unit) (t : Timing), t.status = kNoErr → 0 < t.dutyCycle1 →
      t.dutyCycle1 < t.count → NoShootThrough p (t.init p s).pwm t := by
  intro h
  have hwide := h (twoPairs true) (bootCw Unit) wideBand (by decide) (by decide) (by decide)
  have hbehind := hwide.behind
  have hdead : wideBand.deadBand.toNat = 0x80000000 := by decide
  have hcount : wideBand.count.toNat = 10 := by decide
  omega

end TuyaSdk.Pwm
