import TuyaSdk.Lib.Scaled
import TuyaSdk.TklPwm.Defs

/-!
# What the calls touch and hand on

Every check of a channel lets the one behind the arrays pass, a channel that has no frequency is
divided by, and the product of the duty and the count may wrap. Otherwise a call keeps to the
arrays and the driver gets the fraction of the period that was configured, over whole sequences
of calls (`calls_safe_iff`).
-/

namespace TuyaSdk.TklPwm
open TuyaSdk.Lib

variable {drv : Driver} {s : Statics} {chId ch0 ch1 num : Nat}

/-! ## Calls that are safe -/

/-- The counts for the configuration `c`, in unbounded arithmetic. -/
structure CountsOf (c : PwmBaseCfg) (count duty : BitVec 32) : Prop where
  period : count.toNat = pwmClock / c.frequency.toNat
  fraction : duty.toNat = c.duty.toNat * count.toNat / dutyCycle
  le : duty.toNat ≤ count.toNat

/-- The entry is one of its array, and the driver gets the counts of the configuration. -/
def Event.Right (s : Statics) : Event → Prop
  | .cfg i => i < pwmDevNum
  | .flag i => i < pwmDevNum
  | .drv (.bkInitialize pwm count duty) => CountsOf (s.pwmCfg pwm) count duty
  | .drv (.updateParam pwm count duty) => CountsOf (s.pwmCfg pwm) count duty
  | .drv (.cwInitialize pwm1 pwm2 count duty1 duty2 _) =>
    CountsOf (s.pwmCfg pwm1) count duty1 ∧ CountsOf (s.pwmCfg pwm2) count duty2
  | .drv (.cwUpdateParam pwm1 pwm2 count duty1 duty2 _) =>
    CountsOf (s.pwmCfg pwm1) count duty1 ∧ CountsOf (s.pwmCfg pwm2) count duty2
  | .drv _ => True

@[simp] theorem cfg_right {i : Nat} : (Event.cfg i).Right s ↔ i < pwmDevNum := Iff.rfl

@[simp] theorem flag_right {i : Nat} : (Event.flag i).Right s ↔ i < pwmDevNum := Iff.rfl

@[simp] theorem bkInitialize_right {count duty : BitVec 32} :
    (Event.drv (.bkInitialize chId count duty)).Right s ↔ CountsOf (s.pwmCfg chId) count duty :=
  Iff.rfl

@[simp] theorem updateParam_right {count duty : BitVec 32} :
    (Event.drv (.updateParam chId count duty)).Right s ↔ CountsOf (s.pwmCfg chId) count duty :=
  Iff.rfl

@[simp] theorem cwInitialize_right {count duty0 duty1 dead : BitVec 32} :
    (Event.drv (.cwInitialize ch0 ch1 count duty0 duty1 dead)).Right s ↔
      CountsOf (s.pwmCfg ch0) count duty0 ∧ CountsOf (s.pwmCfg ch1) count duty1 :=
  Iff.rfl

@[simp] theorem cwUpdateParam_right {count duty0 duty1 dead : BitVec 32} :
    (Event.drv (.cwUpdateParam ch0 ch1 count duty0 duty1 dead)).Right s ↔
      CountsOf (s.pwmCfg ch0) count duty0 ∧ CountsOf (s.pwmCfg ch1) count duty1 :=
  Iff.rfl

@[simp] theorem start_right : (Event.drv (.start chId)).Right s := trivial

@[simp] theorem cwStart_right : (Event.drv (.cwStart ch0 ch1)).Right s := trivial

@[simp] theorem stop_right : (Event.drv (.stop chId)).Right s := trivial

@[simp] theorem cwStop_right : (Event.drv (.cwStop ch0 ch1)).Right s := trivial

/-- The call does not divide by zero, and all that it does is right. -/
def Safe (s : Statics) : Option Outcome → Prop
  | none => False
  | some o => ∀ e ∈ o.events, e.Right s

/-- Every call of the sequence is safe, each with its own answers of the driver. -/
def SafeRun : Statics → List (Driver × Call) → Prop
  | _, [] => True
  | s, (drv, c) :: rest =>
    Safe s (call drv s c) ∧ ∀ o, call drv s c = some o → SafeRun o.statics rest

/-- A channel that may be started: it has a frequency, and the product does not wrap. -/
def Startable (c : PwmBaseCfg) : Prop :=
  c.frequency ≠ 0 ∧ c.duty.toNat * (pwmClock / c.frequency.toNat) < 2 ^ 32

/-- The call fits the statics: its channel is not the one behind the arrays, and what it starts
may be started. -/
def Fits (s : Statics) : Call → Prop
  | .init chId _ => chId ≠ pwmDevNum
  | .start chId => chId > pwmDevNum ∨ (chId < pwmDevNum ∧ Startable (s.pwmCfg chId))
  | .stop chId => chId ≠ pwmDevNum
  | .multichannelStart ch0 ch1 num => num ≠ 2 ∨ (ch0 > pwmDevNum ∨ ch1 > pwmDevNum) ∨
    (ch0 < pwmDevNum ∧ ch1 < pwmDevNum ∧ ((s.pwmCfg ch0).frequency ≠ (s.pwmCfg ch1).frequency ∨
      (Startable (s.pwmCfg ch0) ∧ Startable (s.pwmCfg ch1))))
  | .multichannelStop ch0 ch1 num => num ≠ 2 ∨ (ch0 > pwmDevNum ∨ ch1 > pwmDevNum) ∨
    (ch0 < pwmDevNum ∧ ch1 < pwmDevNum)
  | .dutySet chId _ => chId ≠ pwmDevNum
  | .frequencySet chId _ => chId ≠ pwmDevNum
  | .infoSet chId _ => chId ≠ pwmDevNum
  | .infoGet chId _ => chId ≠ pwmDevNum

/-- Every call of the sequence fits the statics that it finds. -/
def FitsRun : Statics → List (Driver × Call) → Prop
  | _, [] => True
  | s, (drv, c) :: rest => Fits s c ∧ ∀ o, call drv s c = some o → FitsRun o.statics rest

/-- The duty of the call, if any, is at most 100 percent. -/
def Call.DutyOk : Call → Prop
  | .init _ cfg => cfg.duty.toNat ≤ dutyCycle
  | .dutySet _ duty => duty.toNat ≤ dutyCycle
  | .infoSet _ info => info.duty.toNat ≤ dutyCycle
  | _ => True

/-- The duties that are configured are at most 100 percent. -/
def DutiesOk (s : Statics) : Prop := ∀ i < pwmDevNum, (s.pwmCfg i).duty.toNat ≤ dutyCycle

/-! ## The counts -/

theorem pwmCount_zero : pwmCount 0 = none := rfl

theorem pwmCount_of_ne {frequency : BitVec 32} (h : frequency ≠ 0) :
    ∃ count, pwmCount frequency = some count ∧
      count.toNat = pwmClock / frequency.toNat := by
  refine ⟨_, if_neg h, ?_⟩
  rw [BitVec.toNat_udiv]
  rfl

theorem toNat_pwmDuty (duty count : BitVec 32) :
    (pwmDuty duty count).toNat = scaled (2 ^ 32) dutyCycle duty.toNat count.toNat := by
  rw [pwmDuty, BitVec.toNat_udiv, BitVec.toNat_mul]
  rfl

/-- The counts are right just when the product fits a word. -/
theorem countsOf_iff {c : PwmBaseCfg} {count : BitVec 32} (hduty : c.duty.toNat ≤ dutyCycle)
    (hcount : count.toNat = pwmClock / c.frequency.toNat) :
    CountsOf c count (pwmDuty c.duty count) ↔ c.duty.toNat * count.toNat < 2 ^ 32 := by
  have hfit := scaled_eq_iff (m := 2 ^ 32) (k := dutyCycle) (d := c.duty.toNat)
    (c := count.toNat) (by decide) (by decide)
  constructor
  · intro h
    rw [← hfit, ← toNat_pwmDuty]
    exact h.fraction
  · intro h
    refine ⟨hcount, ?_, ?_⟩
    · rw [toNat_pwmDuty]
      exact hfit.mpr h
    · rw [toNat_pwmDuty]
      exact scaled_le hduty (by decide)

theorem startable_iff {c : PwmBaseCfg} {count : BitVec 32} (hne : c.frequency ≠ 0)
    (hcount : count.toNat = pwmClock / c.frequency.toNat) :
    Startable c ↔ c.duty.toNat * count.toNat < 2 ^ 32 := by
  rw [Startable, and_iff_right hne, hcount]

/-- Two duties whose sum is compared with the count: the sum of words does not wrap. -/
theorem toNat_pwmDuty_add (duty0 duty1 count : BitVec 32) :
    (pwmDuty duty0 count + pwmDuty duty1 count).toNat =
      scaled (2 ^ 32) dutyCycle duty0.toNat count.toNat +
        scaled (2 ^ 32) dutyCycle duty1.toNat count.toNat := by
  have h0 : scaled (2 ^ 32) dutyCycle duty0.toNat count.toNat * 10000 < 2 ^ 32 :=
    scaled_mul_lt (by decide)
  have h1 : scaled (2 ^ 32) dutyCycle duty1.toNat count.toNat * 10000 < 2 ^ 32 :=
    scaled_mul_lt (by decide)
  rw [BitVec.toNat_add, toNat_pwmDuty, toNat_pwmDuty]
  exact Nat.mod_eq_of_lt (by omega)

/-- A pair of which one duty wrapped is not refused. -/
theorem not_refused {c0 c1 : PwmBaseCfg} {count : BitVec 32} (h0 : c0.duty.toNat ≤ dutyCycle)
    (h1 : c1.duty.toNat ≤ dutyCycle)
    (hwrap : ¬ (c0.duty.toNat * count.toNat < 2 ^ 32 ∧ c1.duty.toNat * count.toNat < 2 ^ 32)) :
    count ≥ pwmDuty c0.duty count + pwmDuty c1.duty count := by
  change (pwmDuty c0.duty count + pwmDuty c1.duty count).toNat ≤ count.toNat
  rw [toNat_pwmDuty_add]
  by_cases hfirst : c0.duty.toNat * count.toNat < 2 ^ 32
  · have hsecond : 2 ^ 32 ≤ c1.duty.toNat * count.toNat :=
      Nat.le_of_not_lt fun h => hwrap ⟨hfirst, h⟩
    rw [Nat.add_comm]
    exact scaled_add_le_of_wrapped h1 (by decide) (by decide) hsecond _ _
  · exact scaled_add_le_of_wrapped h0 (by decide) (by decide) (Nat.le_of_not_lt hfirst) _ _

/-! ## One call -/

theorem updateCfg_safe_iff {f : PwmBaseCfg → PwmBaseCfg} :
    Safe s (some (updateCfg s chId f)) ↔ chId ≠ pwmDevNum := by
  rw [updateCfg]
  split
  next hmax => exact ⟨fun _ => Nat.ne_of_gt hmax, fun _ _ he => absurd he List.not_mem_nil⟩
  next hmax =>
    refine List.forall_mem_singleton.trans ⟨Nat.ne_of_lt, fun hne => ?_⟩
    exact Nat.lt_of_le_of_ne (Nat.le_of_not_lt hmax) hne

theorem infoGet_safe_iff {info : PwmBaseCfg} :
    Safe s (some (tklPwmInfoGet s chId info).1) ↔ chId ≠ pwmDevNum := by
  rw [tklPwmInfoGet]
  split
  next hmax => exact ⟨fun _ => Nat.ne_of_gt hmax, fun _ _ he => absurd he List.not_mem_nil⟩
  next hmax =>
    refine List.forall_mem_singleton.trans ⟨Nat.ne_of_lt, fun hne => ?_⟩
    exact Nat.lt_of_le_of_ne (Nat.le_of_not_lt hmax) hne

theorem stop_safe_iff : Safe s (some (tklPwmStop s chId)) ↔ chId ≠ pwmDevNum := by
  rw [tklPwmStop]
  split
  next hmax => exact ⟨fun _ => Nat.ne_of_gt hmax, fun _ _ he => absurd he List.not_mem_nil⟩
  next hmax =>
    simp only [Safe, List.forall_mem_cons, List.not_mem_nil, stop_right, flag_right, true_and,
      false_imp_iff, implies_true, and_true]
    exact ⟨Nat.ne_of_lt, fun hne => Nat.lt_of_le_of_ne (Nat.le_of_not_lt hmax) hne⟩

/-- What a call does when it brings a channel or a pair up: the start asks for nothing. -/
theorem bringUp_right {setUp start : DrvCall} (hstart : (Event.drv start).Right s) :
    (∀ e ∈ (bringUp drv setUp start).1, e.Right s) ↔ (Event.drv setUp).Right s := by
  rw [bringUp]
  split
  next =>
    refine List.forall_mem_cons.trans ⟨And.left, fun h => ⟨h, ?_⟩⟩
    exact List.forall_mem_singleton.mpr hstart
  next => exact List.forall_mem_singleton

theorem start_safe_iff (hduties : DutiesOk s) : Safe s (tklPwmStart drv s chId) ↔
    chId > pwmDevNum ∨ (chId < pwmDevNum ∧ Startable (s.pwmCfg chId)) := by
  rw [tklPwmStart]
  by_cases hmax : chId > pwmDevNum
  · rw [if_pos hmax]
    exact ⟨fun _ => .inl hmax, fun _ _ he => absurd he List.not_mem_nil⟩
  rw [if_neg hmax, or_iff_right hmax]
  by_cases hzero : (s.pwmCfg chId).frequency = 0
  · rw [hzero, pwmCount_zero]
    exact ⟨False.elim, fun h => h.2.1 hzero⟩
  obtain ⟨count, hsome, hcount⟩ := pwmCount_of_ne hzero
  simp only [hsome]
  rw [startable_iff hzero hcount]
  by_cases hch : chId < pwmDevNum
  · rw [and_iff_right hch, ← countsOf_iff (hduties chId hch) hcount]
    split
    next =>
      simp only [Safe, List.forall_mem_append, List.forall_mem_cons, List.not_mem_nil, cfg_right,
        flag_right, bringUp_right start_right, bkInitialize_right, hch, false_imp_iff, implies_true,
        and_true, true_and]
    next =>
      simp only [Safe, List.forall_mem_cons, List.not_mem_nil, cfg_right, flag_right,
        updateParam_right, hch, false_imp_iff, implies_true, and_true, true_and]
  · refine ⟨fun h => absurd ?_ hch, fun h => absurd h.1 hch⟩
    split at h
    next => exact h (.cfg chId) List.mem_cons_self
    next => exact h (.cfg chId) List.mem_cons_self

/-- A pair that is not refused for its channels looks at the configuration of both. -/
theorem multichannelStart_looks {o : Outcome} (hmax : ¬ (ch0 > pwmDevNum ∨ ch1 > pwmDevNum))
    (h : tklPwmMultichannelStart drv s ch0 ch1 2 = some o) :
    .cfg ch0 ∈ o.events ∧ .cfg ch1 ∈ o.events := by
  have hboth (rest : List Event) :
      .cfg ch0 ∈ .cfg ch0 :: .cfg ch1 :: rest ∧ .cfg ch1 ∈ .cfg ch0 :: .cfg ch1 :: rest :=
    ⟨List.mem_cons_self, List.mem_cons_of_mem _ List.mem_cons_self⟩
  rw [tklPwmMultichannelStart, if_pos rfl, if_neg hmax] at h
  split at h
  next =>
    cases h
    exact hboth _
  split at h
  next => cases h
  simp only at h
  split at h
  next =>
    split at h
    all_goals
      cases h
      exact hboth _
  next =>
    cases h
    exact hboth _

/-- A pair of channels with a frequency in common. -/
theorem pair_safe_iff (hduties : DutiesOk s) (h0 : ch0 < pwmDevNum) (h1 : ch1 < pwmDevNum)
    (hsame : (s.pwmCfg ch0).frequency = (s.pwmCfg ch1).frequency) :
    Safe s (tklPwmMultichannelStart drv s ch0 ch1 2) ↔
      Startable (s.pwmCfg ch0) ∧ Startable (s.pwmCfg ch1) := by
  have hmax : ¬ (ch0 > pwmDevNum ∨ ch1 > pwmDevNum) := by omega
  rw [tklPwmMultichannelStart, if_pos rfl, if_neg hmax, if_neg (fun hne => hne hsame)]
  by_cases hzero : (s.pwmCfg ch0).frequency = 0
  · rw [hzero, pwmCount_zero]
    exact ⟨False.elim, fun h => h.1.1 hzero⟩
  obtain ⟨count, hsome, hcount⟩ := pwmCount_of_ne hzero
  have hcount1 : count.toNat = pwmClock / (s.pwmCfg ch1).frequency.toNat := by rw [hcount, hsame]
  simp only [hsome]
  rw [startable_iff hzero hcount, startable_iff (hsame ▸ hzero) hcount1]
  by_cases hfit : count ≥
      pwmDuty (s.pwmCfg ch0).duty count + pwmDuty (s.pwmCfg ch1).duty count
  · rw [if_pos hfit, ← countsOf_iff (hduties ch0 h0) hcount, ← countsOf_iff (hduties ch1 h1) hcount1]
    split
    next =>
      simp only [Safe, List.forall_mem_append, List.forall_mem_cons, List.not_mem_nil, cfg_right,
        flag_right, bringUp_right cwStart_right, cwInitialize_right, h0, h1, false_imp_iff,
        implies_true, and_true, true_and]
    next =>
      simp only [Safe, List.forall_mem_cons, List.not_mem_nil, cfg_right, flag_right,
        cwUpdateParam_right, h0, h1, false_imp_iff, implies_true, and_true, true_and]
  · rw [if_neg hfit]
    have hproducts := not_not.mp fun hwrap =>
      hfit (not_refused (hduties ch0 h0) (hduties ch1 h1) hwrap)
    refine ⟨fun _ => hproducts, fun _ => ?_⟩
    simp only [Safe, List.forall_mem_cons, List.not_mem_nil, cfg_right, h0, h1, false_imp_iff,
      implies_true, and_true]

theorem multichannelStart_safe_iff (hduties : DutiesOk s) :
    Safe s (tklPwmMultichannelStart drv s ch0 ch1 num) ↔
      Fits s (.multichannelStart ch0 ch1 num) := by
  rw [Fits]
  by_cases hnum : num = 2
  swap
  · rw [tklPwmMultichannelStart, if_neg hnum]
    exact ⟨fun _ => .inl hnum, fun _ _ he => absurd he List.not_mem_nil⟩
  subst hnum
  rw [or_iff_right (not_not.mpr rfl)]
  by_cases hmax : ch0 > pwmDevNum ∨ ch1 > pwmDevNum
  · rw [tklPwmMultichannelStart, if_pos rfl, if_pos hmax]
    exact ⟨fun _ => .inl hmax, fun _ _ he => absurd he List.not_mem_nil⟩
  rw [or_iff_right hmax]
  by_cases hin : ch0 < pwmDevNum ∧ ch1 < pwmDevNum
  · obtain ⟨h0, h1⟩ := hin
    rw [and_iff_right h0, and_iff_right h1]
    by_cases hsame : (s.pwmCfg ch0).frequency = (s.pwmCfg ch1).frequency
    · rw [or_iff_right (not_not.mpr hsame)]
      exact pair_safe_iff hduties h0 h1 hsame
    · refine ⟨fun _ => .inl hsame, fun _ => ?_⟩
      rw [tklPwmMultichannelStart, if_pos rfl, if_neg hmax, if_pos hsame]
      simp only [Safe, List.forall_mem_cons, List.not_mem_nil, cfg_right, h0, h1, false_imp_iff,
        implies_true, and_true]
  · refine ⟨fun h => ?_, fun h => absurd ⟨h.1, h.2.1⟩ hin⟩
    cases hcall : tklPwmMultichannelStart drv s ch0 ch1 2 with
    | none =>
      rw [hcall] at h
      exact h.elim
    | some o =>
      rw [hcall] at h
      obtain ⟨hmem0, hmem1⟩ := multichannelStart_looks hmax hcall
      exact absurd ⟨h _ hmem0, h _ hmem1⟩ hin

theorem multichannelStop_safe_iff :
    Safe s (some (tklPwmMultichannelStop s ch0 ch1 num)) ↔
      Fits s (.multichannelStop ch0 ch1 num) := by
  rw [Fits, tklPwmMultichannelStop]
  by_cases hnum : num = 2
  swap
  · rw [if_neg hnum]
    exact ⟨fun _ => .inl hnum, fun _ _ he => absurd he List.not_mem_nil⟩
  rw [if_pos hnum, or_iff_right (not_not.mpr hnum)]
  by_cases hmax : ch0 > pwmDevNum ∨ ch1 > pwmDevNum
  · rw [if_pos hmax]
    exact ⟨fun _ => .inl hmax, fun _ _ he => absurd he List.not_mem_nil⟩
  rw [if_neg hmax, or_iff_right hmax]
  simp only [Safe, List.forall_mem_cons, List.not_mem_nil, cwStop_right, flag_right, false_imp_iff,
    implies_true, and_true, true_and]

/-- A call is safe just when it fits. -/
theorem call_safe_iff (hduties : DutiesOk s) (c : Call) : Safe s (call drv s c) ↔ Fits s c := by
  cases c with
  | init => exact updateCfg_safe_iff
  | start => exact start_safe_iff hduties
  | stop => exact stop_safe_iff
  | multichannelStart => exact multichannelStart_safe_iff hduties
  | multichannelStop => exact multichannelStop_safe_iff
  | dutySet => exact updateCfg_safe_iff
  | frequencySet => exact updateCfg_safe_iff
  | infoSet => exact updateCfg_safe_iff
  | infoGet => exact infoGet_safe_iff

/-! ## Sequences -/

theorem updateCfg_dutiesOk {f : PwmBaseCfg → PwmBaseCfg} (hduties : DutiesOk s)
    (hf : ∀ c, c.duty.toNat ≤ dutyCycle → (f c).duty.toNat ≤ dutyCycle) :
    DutiesOk (updateCfg s chId f).statics := by
  rw [updateCfg]
  split
  next => exact hduties
  next =>
    intro i hi
    change (Function.update s.pwmCfg chId (f (s.pwmCfg chId)) i).duty.toNat ≤ dutyCycle
    by_cases hch : i = chId
    · rw [hch, Function.update_self]
      exact hf _ (hduties chId (hch ▸ hi))
    · rw [Function.update_of_ne hch]
      exact hduties i hi

/-- Starting and stopping leave the configuration. -/
theorem start_pwmCfg {o : Outcome} (h : tklPwmStart drv s chId = some o) :
    o.statics.pwmCfg = s.pwmCfg := by
  rw [tklPwmStart] at h
  split at h
  next =>
    cases h
    rfl
  split at h
  next => cases h
  simp only at h
  split at h
  all_goals
    cases h
    rfl

theorem multichannelStart_pwmCfg {o : Outcome}
    (h : tklPwmMultichannelStart drv s ch0 ch1 num = some o) : o.statics.pwmCfg = s.pwmCfg := by
  rw [tklPwmMultichannelStart] at h
  split at h
  swap
  · cases h
    rfl
  split at h
  next =>
    cases h
    rfl
  split at h
  next =>
    cases h
    rfl
  split at h
  next => cases h
  simp only at h
  split at h
  next =>
    split at h
    all_goals
      cases h
      rfl
  next =>
    cases h
    rfl

/-- No call configures more than it was given. -/
theorem call_dutiesOk {c : Call} {o : Outcome} (hduties : DutiesOk s) (hc : c.DutyOk)
    (h : call drv s c = some o) : DutiesOk o.statics := by
  have hkeep (hcfg : o.statics.pwmCfg = s.pwmCfg) : DutiesOk o.statics := by
    rw [DutiesOk, hcfg]
    exact hduties
  cases c with
  | init =>
    cases h
    exact updateCfg_dutiesOk hduties fun _ _ => hc
  | start => exact hkeep (start_pwmCfg h)
  | stop =>
    cases h
    refine hkeep ?_
    rw [tklPwmStop]
    split <;> rfl
  | multichannelStart => exact hkeep (multichannelStart_pwmCfg h)
  | multichannelStop =>
    cases h
    refine hkeep ?_
    rw [tklPwmMultichannelStop]
    split
    next => split <;> rfl
    next => rfl
  | dutySet =>
    cases h
    exact updateCfg_dutiesOk hduties fun _ _ => hc
  | frequencySet =>
    cases h
    exact updateCfg_dutiesOk hduties fun _ hle => hle
  | infoSet =>
    cases h
    exact updateCfg_dutiesOk hduties fun _ _ => hc
  | infoGet =>
    cases h
    refine hkeep ?_
    rw [tklPwmInfoGet]
    split <;> rfl

theorem run_safe_iff {calls : List (Driver × Call)} (hduties : DutiesOk s)
    (hc : ∀ step ∈ calls, step.2.DutyOk) : SafeRun s calls ↔ FitsRun s calls := by
  induction calls generalizing s with
  | nil => exact Iff.rfl
  | cons step rest ih =>
    obtain ⟨drv, c⟩ := step
    have hfirst : c.DutyOk := hc _ List.mem_cons_self
    refine and_congr (call_safe_iff hduties c) (forall_congr' fun o => ?_)
    refine imp_congr_right fun ho => ?_
    exact ih (call_dutiesOk hduties hfirst ho) fun step hstep =>
      hc step (List.mem_cons_of_mem _ hstep)

/-- The statics are as they were loaded; behind the arrays is anything. -/
def AsLoaded (s : Statics) : Prop :=
  ∀ i < pwmDevNum, s.pwmCfg i = ⟨.negative, 0, 0⟩ ∧ s.pwmStartFlag i = false

/-- A sequence of calls with duties of at most 100 percent is safe just when every call fits the
statics that it finds, whatever the driver answers. -/
theorem calls_safe_iff {calls : List (Driver × Call)} (hs : AsLoaded s)
    (hc : ∀ step ∈ calls, step.2.DutyOk) : SafeRun s calls ↔ FitsRun s calls := by
  refine run_safe_iff (fun i hi => ?_) hc
  rw [(hs i hi).1]
  exact Nat.zero_le _

/-- The statics as they are loaded. -/
def loaded : Statics := ⟨fun _ => ⟨.negative, 0, 0⟩, fun _ => false⟩

theorem loaded_asLoaded : AsLoaded loaded := fun _ _ => ⟨rfl, rfl⟩

theorem calls_safe_half : SafeRun loaded
    [(fun _ => true, .init 0 ⟨.positive, 5000, 1000⟩), (fun _ => true, .start 0)] := by
  refine (calls_safe_iff loaded_asLoaded ?_).2 ?_
  · intro step hstep
    rcases List.mem_pair.mp hstep with rfl | rfl
    · exact (by decide : 5000 ≤ dutyCycle)
    · trivial
  · refine ⟨(by decide : 0 ≠ pwmDevNum), fun o ho => ?_⟩
    cases ho
    refine ⟨.inr ⟨by decide, ?_⟩, fun _ _ => trivial⟩
    unfold Startable
    decide

/-- The channel behind the last; a channel that was not configured; and 50 Hz at 100 percent. -/
theorem not_calls_safe :
    ¬ SafeRun loaded [(fun _ => true, .dutySet 6 0)] ∧
      ¬ SafeRun loaded [(fun _ => true, .start 0)] ∧
      ¬ SafeRun loaded
        [(fun _ => true, .init 0 ⟨.positive, 10000, 50⟩), (fun _ => true, .start 0)] := by
  have hduties : DutiesOk loaded := fun _ _ => Nat.zero_le _
  refine ⟨fun h => ?_, fun h => ?_, fun h => ?_⟩
  · exact (call_safe_iff hduties _).1 h.1 rfl
  · exact h.1
  · have hconfigured := h.2 _ rfl
    have hinit : DutiesOk (tklPwmInit loaded 0 ⟨.positive, 10000, 50⟩).statics :=
      updateCfg_dutiesOk hduties fun _ _ => (by decide : 10000 ≤ dutyCycle)
    have hfits := (call_safe_iff hinit (.start 0)).1 hconfigured.1
    revert hfits
    unfold Fits Startable
    decide

end TuyaSdk.TklPwm
