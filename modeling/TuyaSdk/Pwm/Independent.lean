import TuyaSdk.Pwm.Pairs

/-!
# Calls on complementary pairs

The calls of `BkDriverPwm.c` on a pair, and runs of calls on disjoint pairs, compared with what
the calls of one pair do alone.
-/

namespace TuyaSdk.Pwm
open TuyaSdk.Lib

variable {φ ι : Type*} {s s' t : Dev φ} {p : Pair}

/-- The calls on a pair. -/
inductive CwCall where
  | init (count dutyCycle1 dutyCycle2 deadBand : BitVec 32)
  | start
  | update (count dutyCycle1 dutyCycle2 deadBand stack0 stack1 : BitVec 32)
  | stop

/-- A call on a pair is made. -/
def cwCall (p : Pair) (s : Cw φ) : CwCall → Cw φ
  | .init count d1 d2 db => bkPwmCwInitialize s p.a p.b count d1 d2 db
  | .start => bkPwmCwStart s p.a p.b
  | .update count d1 d2 db st0 st1 => bkPwmCwUpdateParam s p.a p.b count d1 d2 db st0 st1
  | .stop => bkPwmCwStop s p.a p.b

/-- The initial level of a channel is high. -/
def Dev.level (s : Dev φ) (c : Nat) : Bool := s.ctrlBit (c / 2) (8 * (c % 2) + 6)

/-- An update sets the levels it writes, or finds them on the stack. -/
def LevelsKnown (p : Pair) (s : Cw φ) (count d1 d2 st0 st1 : BitVec 32) : Prop :=
  (d1 = count → s.pwm1SetHighFlag = 1 ∨ s.pwm.level p.a = false ∨ st0 = 1) ∧
    (d2 = 0 → s.pwm2SetLowFlag = 1 ∨ s.pwm.level p.b = true ∨ st1 = 0)

/-- Start and stop find the group flag that the calls on the pair left in `own`, an update knows
its levels in both, and no interrupt of another channel in the groups of the pair is pending or
comes up during the call. -/
def CallOk (who : ι → Pair) (s own : Cw φ) (i : ι) (x : CwCall) : Prop :=
  (match x with
    | .init .. => True
    | .start | .stop => s.groupFlag = own.groupFlag
    | .update count d1 d2 db st0 st1 => CwValid count d1 d2 db →
      LevelsKnown (who i) s count d1 d2 st0 st1 ∧ LevelsKnown (who i) own count d1 d2 st0 st1) ∧
  ∀ d, ¬(who i).Has d → (who i).Near d →
    ¬s.pwm.PendingBy d ((cwCall (who i) s x).pwm.moment - s.pwm.moment)

/-! ## Levels -/

theorem level_eq (s : Dev φ) (c : Nat) :
    s.level c = (s.ctrl (c / 2)).getLsbD (8 * (c % 2) + 6) :=
  (ctrl_getLsbD (by omega)).symm

theorem level_writeCtrl (s : Dev φ) (c : Nat) (v : BitVec 32) :
    (s.writeCtrl (c / 2) v).level c = v.getLsbD (8 * (c % 2) + 6) := by
  simp [Dev.level, Dev.ctrlBit, Dev.writeCtrl]

theorem level_modifyCtrl (s : Dev φ) (c : Nat) (f : BitVec 32 → BitVec 32) :
    (s.modifyCtrl (c / 2) f).level c =
      (f (s.tick.ctrl (c / 2))).getLsbD (8 * (c % 2) + 6) :=
  level_writeCtrl _ c _

theorem level_setLow (s : Dev φ) {c : Nat} (hc : c < 6) :
    (pwmInitLevlSetLow s c).level c = false := by
  unfold pwmInitLevlSetLow PWM_CHANNEL_NUMBER_MAX
  rw [if_neg (by omega), groupOf_eq hc, chanOf_eq hc, level_modifyCtrl]
  have hlt : 8 * (c % 2) + 6 < 32 := by omega
  simp [intLevlMask, intLevlBit, hlt]

theorem level_setHigh (s : Dev φ) {c : Nat} (hc : c < 6) :
    (pwmInitLevlSetHigh s c).level c = true := by
  unfold pwmInitLevlSetHigh PWM_CHANNEL_NUMBER_MAX
  rw [if_neg (by omega), groupOf_eq hc, chanOf_eq hc, level_modifyCtrl]
  have hlt : 8 * (c % 2) + 6 < 32 := by omega
  simp [intLevlMask, intLevlBit, hlt]

/-- What is done to another channel leaves the level alone. -/
theorem OnChannel.level_eq {c d len : Nat} {last : Option Nat} (h : OnChannel c last len s s')
    (hd : d ≠ c) : s'.level d = s.level d := by
  refine h.changes.bits _ _ (by omega) ?_
  rintro ⟨hg, hb⟩
  omega

theorem pwmInitLevlGet_eq (s : Dev φ) {c : Nat} (hc : c < 6) :
    pwmInitLevlGet s c = (if s.level c then 1 else 0, (s.select c).tick) := by
  unfold pwmInitLevlGet PWM_CHANNEL_NUMBER_MAX
  simp only [if_neg (show ¬c > 5 by omega), groupOf_eq hc, chanOf_eq hc]
  have hbit : ((s.select c).readCtrl (c / 2)).1.getLsbD (8 * (c % 2) + 6) = s.level c :=
    (level_eq (s.select c).tick c).symm
  have hlt : 8 * (c % 2) + 6 < 32 := by omega
  have hiff : ((s.select c).readCtrl (c / 2)).1 &&& intLevlMask (c % 2) ≠ 0 ↔
      s.level c = true := by
    rw [intLevlMask, intLevlBit, BitVec.and_twoPow, hbit]
    cases s.level c with
    | false => simp
    | true =>
      simp only [if_true, iff_true]
      intro hzero
      have := congrArg (fun v => v.getLsbD (8 * (c % 2) + 6)) hzero
      simp [hlt] at this
  simp only [hiff]
  rfl

/-- The level that an update gives a channel outside of a group. -/
theorem putLevel_level {x : Nat} (hx : x < 2) (l v : BitVec 32) :
    (putLevel x l v).getLsbD (8 * x + 6) = l.getLsbD 0 := by
  have hlt : 8 * x + 6 < 32 := by omega
  simp [putLevel, intLevlMask, intLevlBit, cfgUpdataMask, hlt]

/-- The level that is written for a bit. -/
def levelOf (b : Bool) : BitVec 32 := if b then 1 else 0

theorem levelOf_lt (b : Bool) : (levelOf b).toNat < 2 := by
  cases b <;> decide

theorem level_groupUpdate (p : Pair) (s : Dev φ) (hg : p.a / 2 = p.b / 2) (b0 b1 : Bool) :
    (pwmGroupUpdateParamEnable s p.a (levelOf b0) (levelOf b1)).level p.a = b0 ∧
      (pwmGroupUpdateParamEnable s p.a (levelOf b0) (levelOf b1)).level p.b = b1 := by
  have ha := p.a_lt
  have hne := p.ne
  have hb : (p.b % 2 = 1 ∧ p.a % 2 = 0) ∨ (p.b % 2 = 0 ∧ p.a % 2 = 1) := by omega
  unfold pwmGroupUpdateParamEnable PWM_COUNT
  rw [if_neg (by omega), groupOf_eq ha, chanOf_eq ha, level_modifyCtrl, hg, level_modifyCtrl]
  rcases hb with ⟨hb, ha'⟩ | ⟨hb, ha'⟩ <;> rw [ha', hb] <;> cases b0 <;> cases b1 <;>
    simp [levelOf, intLevlMask, intLevlBit, cfgUpdataMask]

theorem level_nogroupUpdate (p : Pair) (s : Dev φ) (hg : p.a / 2 ≠ p.b / 2) (b0 b1 : Bool) :
    (pwmNogroupUpdateParamEnable s p.a p.b (levelOf b0) (levelOf b1)).level p.a = b0 ∧
      (pwmNogroupUpdateParamEnable s p.a p.b (levelOf b0) (levelOf b1)).level p.b = b1 := by
  have hbit : ∀ b : Bool, (levelOf b).getLsbD 0 = b := by decide
  rw [nogroupUpdate_eq]
  constructor
  · have hne : ctrlAddr (p.a / 2) ≠ ctrlAddr (p.b / 2) := fun heq => hg (ctrlAddr_inj.mp heq)
    have hkeep : ∀ (s : Dev φ) (v : BitVec 32),
        (s.writeCtrl (p.b / 2) v).level p.a = s.level p.a := by
      intro s v
      simp [Dev.level, Dev.ctrlBit, Dev.writeCtrl, Function.update_of_ne hne, Dev.tick]
    rw [hkeep, level_writeCtrl, putLevel_level (by omega), hbit]
  · rw [level_writeCtrl, putLevel_level (by omega), hbit]

/-! ## The update -/

/-- The timing registers are written for an update. -/
def cwTimers (p : Pair) (s : Dev φ) (count d1 d2 db : BitVec 32) : Dev φ :=
  let db := if d1 = 0 then 0 else db
  pwmUpdateParam (pwmUpdateParam s ⟨p.a, 0, 0, count, count - d1 - db, count - db, 0, none⟩)
    ⟨p.b, 0, 0, count, d2, count, 0, none⟩

theorem pwmUpdateParam_eq (s : Dev φ) {q : PwmParam φ} (hq : q.channel < 6) :
    pwmUpdateParam s q = (s.select q.channel).writeTimers (q.channel / 2) (q.channel % 2)
      q.dutyCycle1 q.dutyCycle2 q.dutyCycle3 q.endValue := by
  unfold pwmUpdateParam
  simp only [getCurrentGroup_eq hq]
  have hchan : (s.select q.channel).currentChannel = q.channel % 2 := chanOf_eq hq
  have hsame : { s.select q.channel with currentGroup := q.channel / 2 } = s.select q.channel := by
    simp [Dev.select, groupOf_eq hq]
  rw [hsame, hchan]

theorem cwTimers_onPair (p : Pair) (s : Dev φ) (count d1 d2 db : BitVec 32) :
    OnPair p s (cwTimers p s count d1 d2 db) :=
  ((pwmUpdateParam_on s p.a_lt).onPair (.inl rfl)).trans
    ((pwmUpdateParam_on _ p.b_lt).onPair (.inr rfl))

/-- The timing registers are no control register. -/
theorem cwTimers_level (p : Pair) (s : Dev φ) (count d1 d2 db : BitVec 32) (c : Nat) :
    (cwTimers p s count d1 d2 db).level c = s.level c := by
  have hone : ∀ (s : Dev φ) (q : PwmParam φ), q.channel < 6 →
      (pwmUpdateParam s q).level c = s.level c := by
    intro s q hq
    rw [pwmUpdateParam_eq s hq]
    have hchanges : Changes (fun _ _ => False) _ (s.select q.channel) _ :=
      writeTimers_changes (s.select q.channel) q.channel q.dutyCycle1 q.dutyCycle2 q.dutyCycle3
        q.endValue
    exact hchanges.bits _ _ (by omega) id
  unfold cwTimers
  rw [hone _ _ p.b_lt, hone _ _ p.a_lt]

/-- An update that knows its levels writes the timing registers and then the levels. -/
theorem bkPwmCwUpdateParam_eq {s : Cw φ} {count d1 d2 db st0 st1 : BitVec 32}
    (hv : CwValid count d1 d2 db) (hk : LevelsKnown p s count d1 d2 st0 st1) :
    ∃ q : Dev φ, ∃ high low, OnPair p s.pwm q ∧
      q.regs = (cwTimers p s.pwm count d1 d2 db).regs ∧
      bkPwmCwUpdateParam s p.a p.b count d1 d2 db st0 st1 =
        { pwm :=
            if p.a / 2 = p.b / 2 then
              pwmGroupUpdateParamEnable q p.a (levelOf (d1 = count)) (levelOf (d2 ≠ 0))
            else pwmNogroupUpdateParamEnable q p.a p.b (levelOf (d1 = count)) (levelOf (d2 ≠ 0))
          groupFlag := if p.a / 2 = p.b / 2 then 1 else 0
          pwm1SetHighFlag := high
          pwm2SetLowFlag := low } := by
  have hlook : ∀ (s : Dev φ) (c : Nat), OnPair p s (s.select c).tick := by
    intro s c
    exact ((onChannel_select s p.a c).onPair (.inl rfl)).trans
      (OnChannel.onPair (onChannel_read _ p.a 0) (.inl rfl))
  have hon := cwTimers_onPair p s.pwm count d1 d2 db
  have htimers := fun c => cwTimers_level p s.pwm count d1 d2 db c
  obtain ⟨hk1, hk2⟩ := hk
  unfold bkPwmCwUpdateParam
  rw [if_neg (not_not.mpr hv)]
  simp only [pwmInitLevlGet_eq _ p.a_lt, pwmInitLevlGet_eq _ p.b_lt, pwmCheckGroup_eq p]
  rw [show pwmUpdateParam (pwmUpdateParam s.pwm _) _ = cwTimers p s.pwm count d1 d2 db from rfl]
  generalize cwTimers p s.pwm count d1 d2 db = q₀ at hon htimers ⊢
  have h1 : (if d1 = count then (if (if q₀.level p.a then 1 else 0 : Nat) = 0 then (1 : BitVec 32)
      else if s.pwm1SetHighFlag = 1 then (if d1 = count then 1 else 0) else st0) else 0) =
        levelOf (d1 = count) := by
    rw [htimers]
    by_cases h : d1 = count
    · rcases hk1 h with hf | hl | hs
      · simp [h, hf, levelOf]
      · simp [h, hl, levelOf]
      · simp [h, hs, levelOf]
    · simp [h, levelOf]
  have h2 : (if d2 = 0 then (if (if q₀.level p.b then 1 else 0 : Nat) = 1 then (0 : BitVec 32)
      else if s.pwm2SetLowFlag = 1 then (if d2 = 0 then 0 else 1) else st1) else 1) =
        levelOf (d2 ≠ 0) := by
    rw [htimers]
    by_cases h : d2 = 0
    · rcases hk2 h with hf | hl | hs
      · simp [h, hf, levelOf]
      · simp [h, hl, levelOf]
      · simp [h, hs, levelOf]
    · rw [if_neg h, levelOf, if_pos (by simpa using h)]
  have hlevel : (if d2 = 0 then (q₀.select p.b).tick else q₀).level p.a = q₀.level p.a := by
    split_ifs <;> rfl
  have hgroup : (if p.a / 2 = p.b / 2 then 1 else 0 : Nat) ≠ 0 ↔ p.a / 2 = p.b / 2 := by
    split_ifs with hg <;> simp [hg]
  rw [hlevel, h1, h2]
  simp only [hgroup]
  refine ⟨_, _, _, ?_, ?_, rfl⟩
  · have hfst : OnPair p s.pwm (if d2 = 0 then (q₀.select p.b).tick else q₀) := by
      split_ifs
      · exact hon.trans (hlook q₀ p.b)
      · exact hon
    by_cases h : d1 = count
    · rw [if_pos h]
      exact hfst.trans (hlook _ p.a)
    · rw [if_neg h]
      exact hfst
  · split_ifs <;> rfl

/-! ## A call -/

/-- The initial levels are set as the timing of a pair asks for. -/
def LevelsSet (p : Pair) (s : Dev φ) : CwCall → Prop
  | .init count d1 d2 db | .update count d1 d2 db _ _ => CwValid count d1 d2 db →
    (s.level p.a = true ↔ d1 = count) ∧ (s.level p.b = true ↔ 0 < d2)
  | .start | .stop => True

theorem pos_iff {v : BitVec 32} : 0 < v ↔ v ≠ 0 := by
  rw [BitVec.lt_def]
  constructor
  · rintro h rfl
    exact absurd h (by decide)
  · intro h
    have : v.toNat ≠ 0 := fun hz => h (BitVec.eq_of_toNat_eq (by simpa using hz))
    simpa using Nat.pos_of_ne_zero this

/-- A level is set one way or the other. -/
def setLevel (s : Dev φ) (c : Nat) (high : Prop) [Decidable high] : Dev φ :=
  if high then pwmInitLevlSetHigh s c else pwmInitLevlSetLow s c

theorem setLevel_on (s : Dev φ) {c : Nat} (hc : c < 6) (high : Prop) [Decidable high] :
    OnChannel c (some 1) 2 s (setLevel s c high) := by
  unfold setLevel
  split_ifs with h
  · exact pwmInitLevlSetHigh_on s hc
  · exact pwmInitLevlSetLow_on s hc

theorem setLevel_level (s : Dev φ) {c : Nat} (hc : c < 6) (high : Prop) [Decidable high] :
    (setLevel s c high).level c = true ↔ high := by
  unfold setLevel
  split_ifs with h
  · simp [level_setHigh s hc, h]
  · simp [level_setLow s hc, h]

/-- What an initialisation does before it sets the levels. -/
def cwPrepare (p : Pair) (s : Dev φ) (count d1 d2 db : BitVec 32) : Dev φ :=
  (initPwmParam (pwmInitLevlSetLow
    (initPwmParam s (some ⟨p.a, PWM_PWM_MODE, 0, count,
      if d1 = 0 then 0 else count - d1 - db, if d1 = 0 then 0 else count - db, 0, none⟩)).2 p.a)
    (some ⟨p.b, PWM_PWM_MODE, 0, count, d2, count, 0, none⟩)).2

theorem cwPrepare_onPair (p : Pair) (s : Dev φ) (count d1 d2 db : BitVec 32) :
    OnPair p s (cwPrepare p s count d1 d2 db) := by
  have ha : p.Has p.a := .inl rfl
  have hfst := (initPwmParam_on s (p := ⟨p.a, PWM_PWM_MODE, 0, count,
    if d1 = 0 then 0 else count - d1 - db, if d1 = 0 then 0 else count - db, 0, none⟩)
    p.a_lt).onPair ha
  exact (hfst.trans ((pwmInitLevlSetLow_on _ p.a_lt).onPair ha)).trans
    ((initPwmParam_on _ p.b_lt).onPair (.inr rfl))

/-- An initialisation sets both levels last. -/
theorem bkPwmCwInitialize_eq (p : Pair) (s : Cw φ) {count d1 d2 db : BitVec 32}
    (hv : CwValid count d1 d2 db) :
    (bkPwmCwInitialize s p.a p.b count d1 d2 db).pwm =
      setLevel (setLevel (cwPrepare p s.pwm count d1 d2 db) p.b (0 < d2)) p.a (d1 = count) := by
  have hswap : ∀ q : Dev φ, (if d2 = 0 then pwmInitLevlSetLow q p.b else pwmInitLevlSetHigh q p.b) =
      setLevel q p.b (0 < d2) := by
    intro q
    unfold setLevel
    by_cases h : d2 = 0
    · rw [if_pos h, if_neg fun hpos => pos_iff.mp hpos h]
    · rw [if_neg h, if_pos (pos_iff.mpr h)]
  rw [bkPwmCwInitialize, if_neg (not_not.mpr hv), ← hswap]
  rfl

theorem bkPwmCwInitialize_spec (p : Pair) (s : Cw φ) {count d1 d2 db : BitVec 32}
    (hv : CwValid count d1 d2 db) :
    OnPair p s.pwm (bkPwmCwInitialize s p.a p.b count d1 d2 db).pwm ∧
      LevelsSet p (bkPwmCwInitialize s p.a p.b count d1 d2 db).pwm (.init count d1 d2 db) := by
  rw [bkPwmCwInitialize_eq p s hv]
  generalize hq : cwPrepare p s.pwm count d1 d2 db = q
  have hon : OnPair p s.pwm q := hq ▸ cwPrepare_onPair p s.pwm count d1 d2 db
  have hb := setLevel_on q p.b_lt (0 < d2)
  have ha := setLevel_on (setLevel q p.b (0 < d2)) p.a_lt (d1 = count)
  refine ⟨(hon.trans (hb.onPair (.inr rfl))).trans (ha.onPair (.inl rfl)), fun _ => ⟨?_, ?_⟩⟩
  · exact setLevel_level _ p.a_lt _
  · rw [ha.level_eq p.ne.symm]
    exact setLevel_level q p.b_lt _

/-- An update that knows its levels sets both. -/
theorem bkPwmCwUpdateParam_spec {s : Cw φ} {count d1 d2 db st0 st1 : BitVec 32}
    (hv : CwValid count d1 d2 db) (hk : LevelsKnown p s count d1 d2 st0 st1) :
    OnPair p s.pwm (bkPwmCwUpdateParam s p.a p.b count d1 d2 db st0 st1).pwm ∧
      LevelsSet p (bkPwmCwUpdateParam s p.a p.b count d1 d2 db st0 st1).pwm
        (.update count d1 d2 db st0 st1) := by
  obtain ⟨q, high, low, hon, -, heq⟩ := bkPwmCwUpdateParam_eq hv hk
  have hlevels : ∀ s' : Dev φ, s'.level p.a = decide (d1 = count) →
      s'.level p.b = decide (d2 ≠ 0) →
      LevelsSet p s' (.update count d1 d2 db st0 st1) := by
    intro s' h1 h2 _
    rw [h1, h2, decide_eq_true_eq, decide_eq_true_eq, pos_iff]
    exact ⟨Iff.rfl, Iff.rfl⟩
  rw [heq]
  by_cases hg : p.a / 2 = p.b / 2
  · simp only [hg, if_true]
    obtain ⟨h1, h2⟩ := level_groupUpdate p q hg (d1 = count) (d2 ≠ 0)
    exact ⟨hon.trans (onPair_groupUpdate q hg (levelOf_lt _) (levelOf_lt _)), hlevels _ h1 h2⟩
  · simp only [hg, if_false]
    obtain ⟨h1, h2⟩ := level_nogroupUpdate p q hg (d1 = count) (d2 ≠ 0)
    exact ⟨hon.trans (onPair_nogroupUpdate q hg (levelOf_lt _) (levelOf_lt _)), hlevels _ h1 h2⟩

/-- A call stays in the fields of its pair. -/
theorem cwCall_onPair {who : ι → Pair} {i : ι} {s own : Cw φ} {x : CwCall}
    (hown : own.groupFlag = 1 → (who i).a / 2 = (who i).b / 2) (hok : CallOk who s own i x) :
    OnPair (who i) s.pwm (cwCall (who i) s x).pwm ∧
      LevelsSet (who i) (cwCall (who i) s x).pwm x := by
  have ha : (who i).Has (who i).a := .inl rfl
  have hb : (who i).Has (who i).b := .inr rfl
  cases x with
  | init count d1 d2 db =>
    by_cases hv : CwValid count d1 d2 db
    · exact bkPwmCwInitialize_spec (who i) s hv
    · have heq : cwCall (who i) s (.init count d1 d2 db) = s := if_pos hv
      rw [heq]
      exact ⟨OnPair.refl _ _, fun hyes => absurd hyes hv⟩
  | start =>
    refine ⟨?_, trivial⟩
    show OnPair (who i) s.pwm (bkPwmCwStart s (who i).a (who i).b).pwm
    unfold bkPwmCwStart
    split_ifs with hg
    · exact onPair_groupModeEnable s.pwm (hown (hok.1 ▸ hg))
    · exact ((pwmUnitEnable_on s.pwm (who i).a_lt).onPair ha).trans
        ((pwmUnitEnable_on _ (who i).b_lt).onPair hb)
  | update count d1 d2 db st0 st1 =>
    by_cases hv : CwValid count d1 d2 db
    · exact bkPwmCwUpdateParam_spec hv (hok.1 hv).1
    · have heq : cwCall (who i) s (.update count d1 d2 db st0 st1) = s := if_pos hv
      rw [heq]
      exact ⟨OnPair.refl _ _, fun hyes => absurd hyes hv⟩
  | stop =>
    refine ⟨?_, trivial⟩
    show OnPair (who i) s.pwm (bkPwmCwStop s (who i).a (who i).b).pwm
    unfold bkPwmCwStop
    split_ifs with hg
    · exact onPair_groupModeDisable s.pwm (hown (hok.1 ▸ hg))
    · exact ((pwmUnitDisable_on s.pwm (who i).a_lt).onPair ha).trans
        ((pwmUnitDisable_on _ (who i).b_lt).onPair hb)

/-- The group flag that the calls on a pair leave is that of a group. -/
theorem cwCall_groupFlag (p : Pair) {s : Cw φ} (x : CwCall)
    (h : s.groupFlag = 1 → p.a / 2 = p.b / 2) :
    (cwCall p s x).groupFlag = 1 → p.a / 2 = p.b / 2 := by
  have hcheck : pwmCheckGroup p.a p.b = 1 → p.a / 2 = p.b / 2 := by
    rw [pwmCheckGroup_eq]
    split_ifs with hg
    · exact fun _ => hg
    · exact fun h01 => absurd h01 (by decide)
  cases x with
  | init count d1 d2 db =>
    by_cases hv : CwValid count d1 d2 db
    · rw [cwCall, bkPwmCwInitialize, if_neg (not_not.mpr hv)]
      exact hcheck
    · rw [cwCall, bkPwmCwInitialize, if_pos hv]
      exact h
  | start =>
    rw [cwCall, bkPwmCwStart]
    split_ifs with hg
    · exact fun _ => h hg
    · exact fun hg' => absurd hg' hg
  | update count d1 d2 db st0 st1 =>
    by_cases hv : CwValid count d1 d2 db
    · rw [cwCall, bkPwmCwUpdateParam, if_neg (not_not.mpr hv)]
      exact hcheck
    · rw [cwCall, bkPwmCwUpdateParam, if_pos hv]
      exact h
  | stop =>
    rw [cwCall, bkPwmCwStop]
    split_ifs with hg
    · exact fun _ => h hg
    · exact fun hg' => absurd hg' hg

/-! ## Two states that look the same -/

variable {bits : Nat → Nat → Prop} {timers : Nat → Prop}

theorem bitwise_or (n : BitVec 32) : Bitwise (· ||| n) := by
  intro v w i h
  simp only [BitVec.getLsbD_or, h]

theorem bitwise_and (m : BitVec 32) : Bitwise (· &&& m) := by
  intro v w i h
  simp only [BitVec.getLsbD_and, h]

theorem bitwise_put (m n : BitVec 32) : Bitwise fun v => (v &&& m) ||| n := by
  intro v w i h
  simp only [BitVec.getLsbD_or, BitVec.getLsbD_and, h]

theorem Agree.select (h : Agree bits timers s t) (c : Nat) :
    Agree bits timers (s.select c) (t.select c) := h.of_regs rfl rfl

theorem Agree.setHandler (h : Agree bits timers s t) (i : Nat) (f : Option φ) :
    Agree bits timers (s.setHandler i f) (t.setHandler i f) := h.of_regs rfl rfl

theorem Agree.initPwmParam (h : Agree bits timers s t) {q : PwmParam φ} (hq : q.channel < 6) :
    Agree bits timers (initPwmParam s (some q)).2 (initPwmParam t (some q)).2 := by
  unfold Pwm.initPwmParam
  by_cases hv : q.Valid
  · simp only [hv, not_true, if_false, groupOf_eq hq, chanOf_eq hq]
    have hmode := (h.select q.channel).modifyCtrl (q.channel / 2) (bitwise_put
      (~~~((7 : BitVec 32) <<< modeSetBit (q.channel % 2)))
      (q.mode.setWidth 32 <<< modeSetBit (q.channel % 2)))
    have htimers := hmode.writeTimers q.channel q.dutyCycle1 q.dutyCycle2 q.dutyCycle3 q.endValue
    have hclear := htimers.modifyCtrl (q.channel / 2) (f := clearStat (q.channel % 2))
      (bitwise_put _ _)
    exact (hclear.setHandler q.channel q.pIntHandler).modifyCtrl (q.channel / 2)
      (f := setIntEnable (q.channel % 2) q.intEn) (bitwise_put _ _)
  · simp only [hv, not_false_iff, if_true]
    exact h

theorem Agree.setLow (h : Agree bits timers s t) {c : Nat} (hc : c < 6) :
    Agree bits timers (pwmInitLevlSetLow s c) (pwmInitLevlSetLow t c) := by
  unfold pwmInitLevlSetLow PWM_CHANNEL_NUMBER_MAX
  rw [if_neg (by omega), if_neg (by omega)]
  exact (h.select c).modifyCtrl _ (bitwise_and _)

theorem Agree.setHigh (h : Agree bits timers s t) {c : Nat} (hc : c < 6) :
    Agree bits timers (pwmInitLevlSetHigh s c) (pwmInitLevlSetHigh t c) := by
  unfold pwmInitLevlSetHigh PWM_CHANNEL_NUMBER_MAX
  rw [if_neg (by omega), if_neg (by omega)]
  exact (h.select c).modifyCtrl _ (bitwise_or _)

theorem Agree.setLevel (h : Agree bits timers s t) {c : Nat} (hc : c < 6) (high : Prop)
    [Decidable high] : Agree bits timers (setLevel s c high) (setLevel t c high) := by
  unfold Pwm.setLevel
  split_ifs
  · exact h.setHigh hc
  · exact h.setLow hc

theorem Agree.unitEnable (h : Agree bits timers s t) {c : Nat} (hc : c < 6) :
    Agree bits timers (pwmUnitEnable s c) (pwmUnitEnable t c) := by
  unfold pwmUnitEnable PWM_CHANNEL_NUMBER_MAX
  rw [if_neg (by omega), if_neg (by omega)]
  exact (h.select c).modifyCtrl _ (bitwise_or _)

theorem Agree.unitDisable (h : Agree bits timers s t) {c : Nat} (hc : c < 6) :
    Agree bits timers (pwmUnitDisable s c) (pwmUnitDisable t c) := by
  unfold pwmUnitDisable PWM_CHANNEL_NUMBER_MAX
  rw [if_neg (by omega), if_neg (by omega)]
  exact (h.select c).modifyCtrl _ (bitwise_and _)

theorem Agree.groupModeEnable (h : Agree bits timers s t) {c : Nat} (hc : c < 6) :
    Agree bits timers (pwmGroupModeEnable s c) (pwmGroupModeEnable t c) := by
  unfold pwmGroupModeEnable pwmGroupEnable PWM_CHANNEL_NUMBER_MAX
  simp only [if_neg (show ¬c > 5 by omega)]
  have hmode := Agree.modifyCtrl (s := { s with
    currentGroup := groupOf c, currentChannel := if c < 2 then c else s.currentChannel })
    (t := { t with
      currentGroup := groupOf c, currentChannel := if c < 2 then c else t.currentChannel })
    (h.of_regs rfl rfl) (groupOf c) (bitwise_or (groupModeMask ||| groupModeEnableMask))
  exact Agree.modifyCtrl (hmode.of_regs rfl rfl) _ (bitwise_or _)

theorem Agree.groupModeDisable (h : Agree bits timers s t) {c : Nat} (hc : c < 6) :
    Agree bits timers (pwmGroupModeDisable s c) (pwmGroupModeDisable t c) := by
  unfold pwmGroupModeDisable PWM_CHANNEL_NUMBER_MAX
  rw [if_neg (by omega), if_neg (by omega)]
  have hvars : Agree bits timers { s with currentGroup := groupOf c }
      { t with currentGroup := groupOf c } := h.of_regs rfl rfl
  exact hvars.modifyCtrl _ (bitwise_and _)

theorem Agree.cwTimers (h : Agree bits timers s t) (p : Pair) (count d1 d2 db : BitVec 32) :
    Agree bits timers (cwTimers p s count d1 d2 db) (cwTimers p t count d1 d2 db) := by
  have hone : ∀ {s t : Dev φ}, Agree bits timers s t → ∀ q : PwmParam φ, q.channel < 6 →
      Agree bits timers (pwmUpdateParam s q) (pwmUpdateParam t q) := by
    intro s t h q hq
    rw [pwmUpdateParam_eq s hq, pwmUpdateParam_eq t hq]
    exact (h.select q.channel).writeTimers q.channel _ _ _ _
  exact hone (hone h _ p.a_lt) _ p.b_lt

theorem Agree.groupUpdate (h : Agree bits timers s t) {c : Nat} (hc : c < 6) (l0 l1 : BitVec 32) :
    Agree bits timers (pwmGroupUpdateParamEnable s c l0 l1)
      (pwmGroupUpdateParamEnable t c l0 l1) := by
  unfold pwmGroupUpdateParamEnable PWM_COUNT
  rw [if_neg (by omega), if_neg (by omega)]
  refine (h.select c).modifyCtrl _ ?_
  by_cases hchan : chanOf c = 0
  · simp only [hchan, if_true]
    exact bitwise_put _ _
  · simp only [hchan, if_false]
    exact bitwise_put _ _

theorem Agree.nogroupUpdate (h : Agree bits timers s t) (p : Pair) (l0 l1 : BitVec 32) :
    Agree bits timers (pwmNogroupUpdateParamEnable s p.a p.b l0 l1)
      (pwmNogroupUpdateParamEnable t p.a p.b l0 l1) := by
  rw [nogroupUpdate_eq, nogroupUpdate_eq]
  have hput : ∀ (x g : Nat) (l : BitVec 32) (s' t' : Dev φ), s'.regs = s.regs → t'.regs = t.regs →
      ∀ i, i < 30 → bits g i →
        (putLevel x l (s'.ctrl g)).getLsbD i = (putLevel x l (t'.ctrl g)).getLsbD i := by
    intro x g l s' t' hs ht i hi hb
    refine bitwise_put _ _ _ _ i ?_
    rw [ctrl_getLsbD hi, ctrl_getLsbD hi]
    exact (h.of_regs hs ht).bits g i hi hb
  have hreads : Agree bits timers (s.select p.b).tick.tick (t.select p.b).tick.tick :=
    h.of_regs rfl rfl
  exact (hreads.writeCtrl (hput _ _ _ s.tick t.tick rfl rfl)).writeCtrl
    (hput _ _ _ s.tick.tick t.tick.tick rfl rfl)

/-- A call on a pair does the same in two states that look the same to it. -/
theorem cwCall_agree {who : ι → Pair} {i : ι} {s t : Cw φ} {x : CwCall}
    (h : Agree bits timers s.pwm t.pwm) (hok : CallOk who s t i x) :
    Agree bits timers (cwCall (who i) s x).pwm (cwCall (who i) t x).pwm := by
  obtain ⟨hok, -⟩ := hok
  have ha := (who i).a_lt
  have hb := (who i).b_lt
  cases x with
  | init count d1 d2 db =>
    by_cases hv : CwValid count d1 d2 db
    · rw [cwCall, cwCall, bkPwmCwInitialize_eq (who i) s hv, bkPwmCwInitialize_eq (who i) t hv]
      have hprep : Agree bits timers (cwPrepare (who i) s.pwm count d1 d2 db)
          (cwPrepare (who i) t.pwm count d1 d2 db) :=
        ((h.initPwmParam ha).setLow ha).initPwmParam hb
      exact (hprep.setLevel hb _).setLevel ha _
    · rw [cwCall, cwCall, bkPwmCwInitialize, bkPwmCwInitialize, if_pos hv, if_pos hv]
      exact h
  | start =>
    have hflag : s.groupFlag = t.groupFlag := hok
    rw [cwCall, cwCall, bkPwmCwStart, bkPwmCwStart, hflag]
    split_ifs
    · exact h.groupModeEnable ha
    · exact (h.unitEnable ha).unitEnable hb
  | update count d1 d2 db st0 st1 =>
    by_cases hv : CwValid count d1 d2 db
    · obtain ⟨hks, hkt⟩ := hok hv
      obtain ⟨q, high, low, -, hregs, heq⟩ := bkPwmCwUpdateParam_eq hv hks
      obtain ⟨r, high', low', -, hregs', heq'⟩ := bkPwmCwUpdateParam_eq hv hkt
      have hqr : Agree bits timers q r := (h.cwTimers (who i) count d1 d2 db).of_regs hregs hregs'
      rw [cwCall, cwCall, heq, heq']
      by_cases hg : (who i).a / 2 = (who i).b / 2
      · simp only [hg, if_true]
        exact hqr.groupUpdate ha _ _
      · simp only [hg, if_false]
        exact hqr.nogroupUpdate (who i) _ _
    · rw [cwCall, cwCall, bkPwmCwUpdateParam, bkPwmCwUpdateParam, if_pos hv, if_pos hv]
      exact h
  | stop =>
    have hflag : s.groupFlag = t.groupFlag := hok
    rw [cwCall, cwCall, bkPwmCwStop, bkPwmCwStop, hflag]
    split_ifs
    · exact h.groupModeDisable ha
    · exact (h.unitDisable ha).unitDisable hb

/-! ## Runs -/

variable [DecidableEq ι]

/-- A call on a pair of a family is made. -/
def cwStep (who : ι → Pair) (s : Cw φ) (i : ι) (x : CwCall) : Cw φ := cwCall (who i) s x

/-- The pair sees what its own calls alone lead to: the timing registers and the control fields of
its channels, and the mode of their groups. -/
def SeesOwn (who : ι → Pair) (s : Cw φ) (calls : List (ι × CwCall)) (i : ι) : Prop :=
  Agree (who i).View (who i).Has (Unwinding.run (cwStep who) s calls).pwm
    (Unwinding.run (cwStep who) s (Unwinding.only i calls)).pwm

/-- A call sets the levels its timing asks for, changes no control bit or timing register outside
of its pair, and clears no flag of another channel. -/
structure CallConfined (p : Pair) (x : CwCall) (s s' : Dev φ) : Prop where
  levels : LevelsSet p s' x
  changes : Changes p.Bits p.Has s s'
  flags : ∀ d, ¬p.Has d → s'.cleared.count d = s.cleared.count d

/-- In a run on disjoint pairs whose calls all find what their pair left, every pair sees what its
own calls alone lead to, and every call stays in its pair. -/
theorem pairs_independent (who : ι → Pair) (hdisj : ∀ i j, i ≠ j → (who i).Disjoint (who j))
    (s : Cw φ) (hflag : s.groupFlag = 0) (calls : List (ι × CwCall))
    (hok : Unwinding.Each (cwStep who) (CallOk who) s calls) :
    (∀ i, SeesOwn who s calls i) ∧
      ∀ pre i x post, calls = pre ++ (i, x) :: post →
        CallConfined (who i) x (Unwinding.run (cwStep who) s pre).pwm
          (cwStep who (Unwinding.run (cwStep who) s pre) i x).pwm := by
  have hkeep : ∀ i (s : Cw φ) x, (s.groupFlag = 1 → (who i).a / 2 = (who i).b / 2) →
      (cwStep who s i x).groupFlag = 1 → (who i).a / 2 = (who i).b / 2 :=
    fun i s x h => cwCall_groupFlag (who i) x h
  have hzero : ∀ i, s.groupFlag = 1 → (who i).a / 2 = (who i).b / 2 := by
    intro i h
    rw [hflag] at h
    exact absurd h (by decide)
  refine ⟨fun i => ?_, fun pre i x post heq => ?_⟩
  · refine Unwinding.run_agrees
      (R := fun i (s t : Cw φ) => Agree (who i).View (who i).Has s.pwm t.pwm)
      (I := fun i (s : Cw φ) => s.groupFlag = 1 → (who i).a / 2 = (who i).b / 2)
      hkeep ?_ ?_ ?_ hzero hok i
    · exact fun i s t x h _ hok => cwCall_agree h hok
    · intro i j s t own x hne h hI hok
      refine h.changes (cwCall_onPair hI hok).1.changes (fun g k _ hk => ?_) fun d hd => ?_
      · exact (hdisj i j hne.symm).bits hk
      · exact hdisj i j hne.symm d hd
    · exact fun i => ⟨fun _ _ _ _ => rfl, fun _ _ _ _ => rfl⟩
  · have hcall := hok pre i x post heq
    have hown : (Unwinding.run (cwStep who) s (Unwinding.only i pre)).groupFlag = 1 →
        (who i).a / 2 = (who i).b / 2 :=
      Unwinding.only_invariant (I := fun s : Cw φ => s.groupFlag = 1 → _) (fun s x => hkeep i s x)
        (hzero i) pre
    obtain ⟨hon, hlevels⟩ := cwCall_onPair hown hcall
    refine ⟨hlevels, hon.changes, fun d hd => ?_⟩
    by_cases hnear : (who i).Near d
    · exact ((hon.quiet d hd).quiet (hcall.2 d hd hnear)).1
    · exact hon.apart d hnear

/-- Channels 0 and 1 are a group, channels 2 and 4 are not. -/
def twoPairs : Bool → Pair
  | true => ⟨0, 1, by decide, by decide, by decide⟩
  | false => ⟨2, 4, by decide, by decide, by decide⟩

theorem twoPairs_disjoint : ∀ i j, i ≠ j → (twoPairs i).Disjoint (twoPairs j) := by
  intro i j hij d
  unfold Pair.Has
  cases i <;> cases j
  · exact absurd rfl hij
  · show d = 2 ∨ d = 4 → ¬(d = 0 ∨ d = 1)
    omega
  · show d = 0 ∨ d = 1 → ¬(d = 2 ∨ d = 4)
    omega
  · exact absurd rfl hij

/-- The driver before the first call. -/
def bootCw (φ : Type*) : Cw φ := ⟨fresh φ [], 0, 0, 0⟩

theorem pairs_independent_twoPairs :
    SeesOwn twoPairs (bootCw Unit) [(false, .start), (true, .init 100 50 40 2)] true := by
  have hempty : Unwinding.Each (cwStep twoPairs) (CallOk twoPairs) (bootCw Unit) [] :=
    Unwinding.each_nil _
  have hstart := hempty.push (i := false) (a := .start) ⟨rfl, fun d _ _ => by
    rintro (h | ⟨k, -, h⟩)
    · exact Bool.false_ne_true h
    · exact Bool.false_ne_true h⟩
  have hinit := hstart.push (i := true) (a := .init 100 50 40 2) ⟨trivial, fun d _ _ => by
    rintro (h | ⟨k, -, h⟩)
    · exact Bool.false_ne_true h
    · exact Bool.false_ne_true h⟩
  exact (pairs_independent twoPairs twoPairs_disjoint (bootCw Unit) rfl _ hinit).1 true

/-- The start of a group after the initialisation of a pair that is none. -/
theorem not_forall_seesOwn :
    ¬∀ calls : List (Bool × CwCall), SeesOwn twoPairs (bootCw Unit) calls true := by
  intro h
  have hmode := (h [(true, .init 100 50 40 2), (false, .init 100 50 40 2), (true, .start)]).bits 0 24
    (by decide) (.inr (.inr ⟨.inl rfl, .inl rfl⟩))
  exact absurd hmode (by decide)

end TuyaSdk.Pwm
