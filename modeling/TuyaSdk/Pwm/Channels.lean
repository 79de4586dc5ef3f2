import TuyaSdk.Pwm.Fields

/-!
# Calls on one channel

Every function of the driver that works on one channel is a sequence of writes of the timing
registers of the channel and of changes of the control register of its group. `OnChannel` bounds
what such a sequence changes and says which access reads the flag of the other channel of the
group to write it back last. Only the writes that clear a flag on purpose mask the other one.
-/

namespace TuyaSdk.Pwm

variable {φ : Type*} {s s' s'' : Dev φ}

/-! ## Values -/

/-- The bits of `m` are among those of `b`. -/
def Inside (b : Nat → Prop) (m : BitVec 32) : Prop := ∀ i, m.getLsbD i = true → b i

variable {b : Nat → Prop} {m n : BitVec 32}

theorem inside_bit {k : Nat} (h : b k) : Inside b (bit k) := by
  intro i hi
  rw [BitVec.getLsbD_twoPow] at hi
  simp at hi
  rwa [← hi.2]

theorem Inside.or (hm : Inside b m) (hn : Inside b n) : Inside b (m ||| n) := by
  intro i hi
  rw [BitVec.getLsbD_or, Bool.or_eq_true] at hi
  rcases hi with hi | hi
  · exact hm i hi
  · exact hn i hi

/-- A value of `k` bits moved to bit `n`. -/
theorem inside_shift {k n : Nat} {v : BitVec 32} (hv : v.toNat < 2 ^ k)
    (h : ∀ i, n ≤ i → i < n + k → b i) : Inside b (v <<< n) := by
  intro i hi
  rw [BitVec.getLsbD_shiftLeft] at hi
  simp only [Bool.and_eq_true, decide_eq_true_eq, Bool.not_eq_true', decide_eq_false_iff_not,
    not_lt] at hi
  refine h i hi.1.2 ?_
  by_contra hge
  have hlow : v.toNat < 2 ^ (i - n) := by
    refine Nat.lt_of_lt_of_le hv (Nat.pow_le_pow_right (by omega) ?_)
    omega
  have hzero : v.getLsbD (i - n) = false := by
    rw [BitVec.getLsbD]
    exact Nat.testBit_lt_two_pow hlow
  rw [hi.2] at hzero
  exact Bool.noConfusion hzero

/-- `f` changes no bit of the register but those of `b`, the flags among them. -/
def Leaves (b : Nat → Prop) (f : BitVec 32 → BitVec 32) : Prop :=
  ∀ v i, i < 32 → ¬b i → (f v).getLsbD i = v.getLsbD i

theorem Leaves.within {f : BitVec 32 → BitVec 32} (h : Leaves b f) : Within b f :=
  fun v i hi hb => h v i (by omega) hb

theorem leaves_or (hn : Inside b n) : Leaves b (· ||| n) := by
  intro v i _ hb
  have hno : n.getLsbD i = false := by
    by_contra hyes
    exact hb (hn i (by simpa using hyes))
  simp [hno]

theorem leaves_andNot (hm : Inside b m) : Leaves b (· &&& ~~~m) := by
  intro v i hi hb
  have hno : m.getLsbD i = false := by
    by_contra hyes
    exact hb (hm i (by simpa using hyes))
  rw [BitVec.getLsbD_and, BitVec.getLsbD_not, hno]
  simp [hi]

/-- A field is cleared and set. -/
theorem leaves_put (hm : Inside b m) (hn : Inside b n) : Leaves b (fun v => (v &&& ~~~m) ||| n) := by
  intro v i hi hb
  have hor := leaves_or hn (v &&& ~~~m) i hi hb
  have hand := leaves_andNot hm v i hi hb
  exact hor.trans hand

/-! ## One channel -/

/-- Between the states nothing changes but the fields and timing registers of channel `c`; the
flag of the other channel of its group is written back as read by access `last` at the latest. -/
structure OnChannel (c : Nat) (last : Option Nat) (len : Nat) (s s' : Dev φ) : Prop where
  changes : Changes (OfChannel c) (fun d => d = c) s s'
  traffic : ∀ d, d ≠ c → Traffic d (if d / 2 = c / 2 then last else none) len s s'

variable {c len len' : Nat} {last last' : Option Nat}

theorem OnChannel.trans (h : OnChannel c last len s s') (h' : OnChannel c last' len' s' s'') :
    OnChannel c ((last'.map (len + ·)).or last) (len + len') s s'' where
  changes := h.changes.trans h'.changes
  traffic d hd := by
    have htraffic := (h.traffic d hd).trans (h'.traffic d hd)
    split_ifs at htraffic ⊢
    · exact htraffic
    · exact htraffic

/-- Only variables of the driver change. -/
theorem OnChannel.still (hregs : s'.regs = s.regs) (hm : s'.moment = s.moment)
    (hr : s'.raises = s.raises) (hc : s'.cleared = s.cleared) (hp : s'.pending = s.pending) :
    OnChannel c none 0 s s' :=
  ⟨Changes.of_regs hregs, fun _ _ => by rw [ite_self]; exact Traffic.still hm hr hc hp⟩

theorem onChannel_select (s : Dev φ) (c d : Nat) : OnChannel c none 0 s (s.select d) :=
  OnChannel.still rfl rfl rfl rfl rfl

/-- A handler is entered. -/
def Dev.setHandler (s : Dev φ) (i : Nat) (f : Option φ) : Dev φ :=
  { s with pwmIntHandler := Function.update s.pwmIntHandler i f }

theorem onChannel_handler (s : Dev φ) (c i : Nat) (f : Option φ) :
    OnChannel c none 0 s (s.setHandler i f) :=
  OnChannel.still rfl rfl rfl rfl rfl

theorem onChannel_read (s : Dev φ) (c g : Nat) : OnChannel c none 1 s (s.readCtrl g).2 :=
  ⟨Changes.of_regs rfl, fun _ _ => by rw [ite_self]; exact readCtrl_traffic s g⟩

theorem onChannel_timer (s : Dev φ) (c : Nat) {i : Nat} (hi : 1 ≤ i ∧ i ≤ 4) (v : BitVec 32) :
    OnChannel c none 1 s (s.regWrite (timerAddr c i) v) :=
  ⟨regWrite_changes s hi v, fun _ _ => by rw [ite_self]; exact regWrite_traffic s _ v⟩

theorem onChannel_timers (s : Dev φ) (c : Nat) (t1 t2 t3 t4 : BitVec 32) :
    OnChannel c none 4 s (s.writeTimers (c / 2) (c % 2) t1 t2 t3 t4) :=
  ⟨writeTimers_changes s c t1 t2 t3 t4,
    fun _ _ => by rw [ite_self]; exact writeTimers_traffic s _ _ t1 t2 t3 t4⟩

/-- The control register is changed in the byte of the channel. -/
theorem onChannel_modify (s : Dev φ) (c : Nat) {f : BitVec 32 → BitVec 32}
    (h : Leaves (fun i => i / 8 = c % 2) f) :
    OnChannel c (some 1) 2 s (s.modifyCtrl (c / 2) f) := by
  refine ⟨modifyCtrl_ofChannel s h.within, fun d _ => ?_⟩
  split_ifs with hg
  · rw [← hg]
    exact modifyCtrl_unmasked s fun v => h v _ (by omega) (by omega)
  · exact modifyCtrl_masked s fun hg' => absurd hg' hg

/-- The flag of the channel is cleared, and the other one masked. -/
theorem onChannel_clearStat (s : Dev φ) (c : Nat) :
    OnChannel c none 2 s (s.modifyCtrl (c / 2) (clearStat (c % 2))) := by
  have hbit : ∀ v : BitVec 32, ∀ i, i < 32 → i ≠ c % 2 + 30 →
      (clearStat (c % 2) v).getLsbD i = (v.getLsbD i && decide (i < 30)) := by
    intro v i hi hne
    have h0 : (intStatClear (c % 2)).getLsbD i = false := by
      simp only [intStatClear, BitVec.getLsbD_twoPow]
      simp
      omega
    simp only [clearStat, BitVec.getLsbD_or, BitVec.getLsbD_and, BitVec.getLsbD_not, h0, hi]
    simp only [intStatClear, BitVec.getLsbD_twoPow, Bool.or_false, decide_true, Bool.true_and]
    by_cases hlow : i < 30
    · have hne0 : ¬30 = i := by omega
      have hne1 : ¬31 = i := by omega
      simp [hlow, hne0, hne1]
    · obtain rfl | rfl : i = 30 ∨ i = 31 := by omega
      · cases v.getLsbD 30 <;> rfl
      · cases v.getLsbD 31 <;> rfl
  constructor
  · refine modifyCtrl_ofChannel s fun v i hi _ => ?_
    rw [hbit v i (by omega) (by omega)]
    simp [hi]
  · intro d hd
    rw [ite_self]
    refine modifyCtrl_masked s fun hg v => ?_
    rw [hbit v _ (by omega) (by omega)]
    simp

/-! ## The functions of the driver -/

/-- The byte of a channel holds its masks. -/
theorem inside_byte {x k : Nat} (hk : k < 8) : Inside (fun i => i / 8 = x) (bit (8 * x + k)) :=
  inside_bit (by omega)

theorem setIntEnable_leaves (x : Nat) (enable : BitVec 1) :
    Leaves (fun i => i / 8 = x) (setIntEnable x enable) := by
  refine leaves_put (inside_shift (k := 1) (by decide) ?_) (inside_shift (k := 1) ?_ ?_)
  · intro i hi hlt
    unfold intEnableBit at hi hlt
    omega
  · have := enable.isLt
    rw [BitVec.toNat_setWidth]
    omega
  · intro i hi hlt
    unfold intEnableBit at hi hlt
    omega

theorem pwmUnitEnable_on (s : Dev φ) (hc : c < 6) :
    OnChannel c (some 1) 2 s (pwmUnitEnable s c) := by
  unfold pwmUnitEnable PWM_CHANNEL_NUMBER_MAX
  rw [if_neg (by omega), groupOf_eq hc, chanOf_eq hc]
  exact (onChannel_select s c c).trans
    (onChannel_modify _ c (leaves_or (inside_byte (by omega))))

theorem pwmUnitDisable_on (s : Dev φ) (hc : c < 6) :
    OnChannel c (some 1) 2 s (pwmUnitDisable s c) := by
  unfold pwmUnitDisable PWM_CHANNEL_NUMBER_MAX
  rw [if_neg (by omega), groupOf_eq hc, chanOf_eq hc]
  exact (onChannel_select s c c).trans
    (onChannel_modify _ c (leaves_andNot (inside_byte (by omega))))

theorem pwmInitLevlSetLow_on (s : Dev φ) (hc : c < 6) :
    OnChannel c (some 1) 2 s (pwmInitLevlSetLow s c) := by
  unfold pwmInitLevlSetLow PWM_CHANNEL_NUMBER_MAX
  rw [if_neg (by omega), groupOf_eq hc, chanOf_eq hc]
  exact (onChannel_select s c c).trans
    (onChannel_modify _ c (leaves_andNot (inside_byte (by omega))))

theorem pwmInitLevlSetHigh_on (s : Dev φ) (hc : c < 6) :
    OnChannel c (some 1) 2 s (pwmInitLevlSetHigh s c) := by
  unfold pwmInitLevlSetHigh PWM_CHANNEL_NUMBER_MAX
  rw [if_neg (by omega), groupOf_eq hc, chanOf_eq hc]
  exact (onChannel_select s c c).trans
    (onChannel_modify _ c (leaves_or (inside_byte (by omega))))

theorem pwmUpdateParamEnable_on (s : Dev φ) (hc : c < 6) :
    OnChannel c (some 1) 2 s (pwmUpdateParamEnable s c) := by
  unfold pwmUpdateParamEnable
  rw [getSetGroup_eq hc, getSetChannel_eq hc]
  exact onChannel_modify s c (leaves_or (inside_byte (by omega)))

/-- The value read to clear the flag is not written, so only the last read counts. -/
theorem pwmInterruptEnable_on (s : Dev φ) (hc : c < 6) (enable : Bool) :
    OnChannel c (some (cond enable 2 1)) (cond enable 3 2) s (pwmInterruptEnable s c enable) := by
  unfold pwmInterruptEnable PWM_CHANNEL_NUMBER_MAX
  rw [if_neg (by omega), groupOf_eq hc, chanOf_eq hc]
  have hsel := onChannel_select s c c
  have hset : ∀ s : Dev φ, OnChannel c (some 1) 2 s
      (s.modifyCtrl (c / 2) (setIntEnable (c % 2) (BitVec.ofBool enable))) :=
    fun s => onChannel_modify s c (setIntEnable_leaves (c % 2) (BitVec.ofBool enable))
  cases enable with
  | true => exact (hsel.trans (onChannel_read _ c (c / 2))).trans (hset _)
  | false => exact hsel.trans (hset _)

theorem pwmSetDutyCycle_on (s : Dev φ) (hc : c < 6) (v : BitVec 32) :
    OnChannel c (some 3) 4 s (pwmSetDutyCycle s c v) := by
  unfold pwmSetDutyCycle
  simp only [groupOf_eq hc, chanOf_eq hc, channelTAddr_eq]
  have hread := (onChannel_select s c c).trans (onChannel_read _ c (c / 2))
  have hwrite := hread.trans (onChannel_timer _ c (i := 1) (by omega) v)
  exact hwrite.trans (onChannel_modify _ c (leaves_or (inside_byte (k := 7) (by omega))))

theorem pwmSetEndValue_on (s : Dev φ) (hc : c < 6) (v : BitVec 32) :
    OnChannel c (some 3) 4 s (pwmSetEndValue s c v) := by
  unfold pwmSetEndValue
  simp only [groupOf_eq hc, chanOf_eq hc, channelTAddr_eq]
  have hread := (onChannel_select s c c).trans (onChannel_read _ c (c / 2))
  have hwrite := hread.trans (onChannel_timer _ c (i := 4) (by omega) v)
  exact hwrite.trans (onChannel_modify _ c (leaves_or (inside_byte (k := 7) (by omega))))

theorem pwmParamClear_on (s : Dev φ) (hc : c < 6) :
    OnChannel c none 4 s (pwmParamClear s c) := by
  unfold pwmParamClear
  rw [groupOf_eq hc, chanOf_eq hc]
  exact (onChannel_select s c c).trans (onChannel_timers _ c 0 0 0 0)

theorem pwmUpdateParam_on (s : Dev φ) {p : PwmParam φ} (hc : p.channel < 6) :
    OnChannel p.channel none 4 s (pwmUpdateParam s p) := by
  unfold pwmUpdateParam
  simp only [getCurrentGroup_eq hc]
  have hchan : (s.select p.channel).currentChannel = p.channel % 2 := chanOf_eq hc
  rw [hchan]
  have hsel : OnChannel p.channel none 0 s
      { s.select p.channel with
        currentGroup := p.channel / 2, currentChannel := p.channel % 2 } :=
    OnChannel.still rfl rfl rfl rfl rfl
  exact hsel.trans (onChannel_timers _ p.channel _ _ _ _)

theorem pwmSingleUpdateParam_on (s : Dev φ) {p : PwmParam φ} (hc : p.channel < 6) :
    OnChannel p.channel none 4 s (pwmSingleUpdateParam s p) := by
  unfold pwmSingleUpdateParam
  rw [getSetGroup_eq hc, getSetChannel_eq hc]
  exact onChannel_timers _ p.channel _ _ _ _

/-- The level is a bit. -/
theorem pwmSingleUpdateParamEnable_on (s : Dev φ) (hc : c < 6) {level : BitVec 32}
    (hl : level.toNat < 2) : OnChannel c (some 1) 2 s (pwmSingleUpdateParamEnable s c level) := by
  unfold pwmSingleUpdateParamEnable
  simp only [getSetGroup_eq hc, getSetChannel_eq hc]
  refine onChannel_modify s c (leaves_put (inside_byte (by omega)) ((inside_byte (by omega)).or ?_))
  refine inside_shift (k := 1) hl fun i hi hlt => ?_
  unfold intLevlBit at hi hlt
  omega

/-- The mode field is set. -/
theorem setMode_leaves (x : Nat) (mode : BitVec 3) :
    Leaves (fun i => i / 8 = x) (fun value =>
      (value &&& ~~~((7 : BitVec 32) <<< modeSetBit x)) ||| (mode.setWidth 32 <<< modeSetBit x)) := by
  have hfield : ∀ i, modeSetBit x ≤ i → i < modeSetBit x + 3 → i / 8 = x := by
    intro i hi hlt
    unfold modeSetBit at hi hlt
    omega
  refine leaves_put (inside_shift (by decide) hfield) (inside_shift ?_ hfield)
  have := mode.isLt
  rw [BitVec.toNat_setWidth]
  omega

/-- The number of the last access of `init_pwm_param` that reads the flags to write them back. -/
def PwmParam.readBack (p : PwmParam φ) : Option Nat := if p.Valid then some 9 else none

theorem initPwmParam_on (s : Dev φ) {p : PwmParam φ} (hc : p.channel < 6) :
    OnChannel p.channel p.readBack (if p.Valid then 10 else 0) s (initPwmParam s (some p)).2 := by
  unfold initPwmParam PwmParam.readBack
  by_cases hv : p.Valid
  · simp only [hv, not_true, if_false, if_true, groupOf_eq hc, chanOf_eq hc]
    have hmode := (onChannel_select s p.channel p.channel).trans
      (onChannel_modify _ p.channel (setMode_leaves (p.channel % 2) p.mode))
    have htimers := hmode.trans
      (onChannel_timers _ p.channel p.dutyCycle1 p.dutyCycle2 p.dutyCycle3 p.endValue)
    have hclear := htimers.trans (onChannel_clearStat _ p.channel)
    have hhandler := hclear.trans
      (onChannel_handler _ p.channel p.channel p.pIntHandler)
    exact hhandler.trans (onChannel_modify _ p.channel (setIntEnable_leaves _ p.intEn))
  · simp only [hv, not_false_iff, if_true, if_false]
    exact OnChannel.still rfl rfl rfl rfl rfl

/-! ## The calls -/

/-- The calls on one channel: the commands of `pwm_ctrl`, and the functions of `BkDriverPwm.c`
that are more than a command. -/
inductive Call (φ : Type*) where
  | ctrl (cmd : Cmd φ)
  | init (pwm : Nat) (count dutyCycle1 dutyCycle2 dutyCycle3 : BitVec 32)
  | update (pwm : Nat) (frequency dutyCycle1 dutyCycle2 dutyCycle3 : BitVec 32)

/-- A call is made; `none` is a call that does not return. -/
def Call.run (s : Dev φ) : Call φ → Option (Dev φ)
  | .ctrl cmd => pwmCtrl s cmd
  | .init pwm count d1 d2 d3 => some (bkPwmInitialize s pwm count d1 d2 d3)
  | .update pwm frequency d1 d2 d3 => some (bkPwmUpdateParam s pwm frequency d1 d2 d3)

/-- The channel a command is on; the group commands are on two. -/
def Cmd.channel : Cmd φ → Option Nat
  | .unitEnable c | .unitDisable c | .irClear c | .capGet c | .updataParamEnable c
  | .initLevlSetLow c | .initLevlSetHigh c => some c
  | .irEnable c | .irDisable c => c
  | .setIrCallback cfg => cfg.map (·.1)
  | .initParam p | .deinitParam p => p.map (·.channel)
  | .setDutyCycle p | .setEndValue p | .updataParam p | .singleUpdataParam p => some p.channel
  | .groupEnable _ | .groupDisable _ | .unknown => none

/-- The channel a call is on. -/
def Call.channel : Call φ → Option Nat
  | .ctrl cmd => cmd.channel
  | .init pwm .. | .update pwm .. => some pwm

/-- The last access of a command that reads the flags of a group to write them back. -/
def Cmd.readBack : Cmd φ → Option Nat
  | .unitEnable _ | .unitDisable _ | .irDisable _ | .updataParamEnable _ | .initLevlSetLow _
  | .initLevlSetHigh _ => some 1
  | .irEnable _ => some 2
  | .setDutyCycle _ | .setEndValue _ => some 3
  | .initParam p | .deinitParam p => p.bind (·.readBack)
  | _ => none

/-- The last access of a call that reads the flags of a group to write them back. -/
def Call.readBack : Call φ → Option Nat
  | .ctrl cmd => cmd.readBack
  | .init _ count d1 _ _ => some (if d1 ≤ count then 11 else 1)
  | .update .. => some 5

/-- The byte of a channel holds its mode, its enable, interrupt-enable and stop bits, its initial
level and its update bit: the bytes of the other channels are left alone with their timing
registers, and none of their flags is cleared. -/
structure LeavesOthers (c : Nat) (s s' : Dev φ) : Prop where
  timers : ∀ d i, d ≠ c → 1 ≤ i ∧ i ≤ 4 → s'.timer d i = s.timer d i
  fields : ∀ d k, d ≠ c → k < 8 →
    s'.ctrlBit (d / 2) (8 * (d % 2) + k) = s.ctrlBit (d / 2) (8 * (d % 2) + k)
  flags : ∀ d, d ≠ c → s'.cleared.count d = s.cleared.count d

/-- The other channel of a group. -/
def partner (c : Nat) : Nat := 2 * (c / 2) + (1 - c % 2)

/-- A flag is cleared if and only if it is up when it is read last to be written back. -/
theorem Traffic.count_eq {d : Nat} (h : Traffic d last len s s') :
    s'.cleared.count d = s.cleared.count d ↔ ∀ n ∈ last, ¬s.PendingBy d n := by
  obtain ⟨new, hcleared, hmem, -⟩ := h.clears
  rw [hcleared, List.count_append, Nat.add_eq_left, List.count_eq_zero, hmem]
  push Not
  rfl

theorem OnChannel.sparesOthers_iff (h : OnChannel c last len s s') :
    LeavesOthers c s s' ↔ ∀ n ∈ last, ¬s.PendingBy (partner c) n := by
  have hg : partner c / 2 = c / 2 := by
    unfold partner
    omega
  have hne : partner c ≠ c := by
    unfold partner
    omega
  constructor
  · intro hl
    have htraffic := h.traffic (partner c) hne
    rw [if_pos hg] at htraffic
    exact htraffic.count_eq.mp (hl.flags (partner c) hne)
  · intro hq
    refine ⟨fun d i hd hi => h.changes.timers d i hi hd, fun d k hd hk => ?_, fun d hd => ?_⟩
    · refine h.changes.bits _ _ (by omega) ?_
      rintro ⟨hgroup, hbyte⟩
      omega
    · refine (h.traffic d hd).count_eq.mpr ?_
      split_ifs with hdg
      · obtain rfl : d = partner c := by
          unfold partner
          omega
        exact hq
      · simp

/-- A capture writes a register of its own. -/
theorem pwmCaptureValueGet_on {v : BitVec 32} (hc : c < 6)
    (h : pwmCaptureValueGet s c = some (v, s')) : OnChannel c none 4 s s' := by
  unfold pwmCaptureValueGet at h
  simp only [groupOf_eq hc, chanOf_eq hc, Option.ite_none_right_eq_some, Option.some.injEq,
    Prod.mk.injEq] at h
  obtain ⟨-, -, rfl⟩ := h
  refine ⟨⟨fun g i _ _ => ?_, fun d i hi _ => ?_⟩, fun d _ => ?_⟩
  · have hne : ctrlAddr g ≠ cpuAddr (c / 2) := by
      unfold ctrlAddr cpuAddr groupAddr
      omega
    simp [Dev.ctrlBit, Dev.regWrite, Dev.tick, Dev.select, Function.update_of_ne hne]
  · have hne : timerAddr d i ≠ cpuAddr (c / 2) := by
      unfold timerAddr cpuAddr groupAddr
      omega
    simp [Dev.timer, Dev.regWrite, Dev.tick, Dev.select, Function.update_of_ne hne]
  · have htick : ∀ s : Dev φ, Traffic d none 1 s s.tick := fun s => Traffic.tick rfl rfl rfl rfl
    have hsel : Traffic d none 0 s (s.select c) := Traffic.still rfl rfl rfl rfl
    rw [ite_self]
    exact (((hsel.trans (htick _)).trans (regWrite_traffic _ _ _)).trans (htick _)).trans (htick _)

theorem bkPwmInitialize_on (s : Dev φ) (hc : c < 6) (count d1 d2 d3 : BitVec 32) :
    ∃ len, OnChannel c (some (if d1 ≤ count then 11 else 1)) len s
      (bkPwmInitialize s c count d1 d2 d3) := by
  unfold bkPwmInitialize
  have hlevel : OnChannel c (some 1) 2 s
      (if d1 = 0 then pwmInitLevlSetLow s c else pwmInitLevlSetHigh s c) := by
    split_ifs
    · exact pwmInitLevlSetLow_on s hc
    · exact pwmInitLevlSetHigh_on s hc
  have hinit := hlevel.trans
    (initPwmParam_on _ (p := ⟨c, PWM_PWM_MODE, 0, count, d1, d2, d3, none⟩) hc)
  have hvalid : (⟨c, PWM_PWM_MODE, 0, count, d1, d2, d3, none⟩ : PwmParam φ).Valid ↔
      d1 ≤ count := and_iff_right hc
  by_cases hle : d1 ≤ count
  · rw [PwmParam.readBack, if_pos (hvalid.mpr hle)] at hinit
    rw [if_pos hle]
    exact ⟨_, hinit⟩
  · rw [PwmParam.readBack, if_neg (mt hvalid.mp hle)] at hinit
    rw [if_neg hle]
    exact ⟨_, hinit⟩

theorem bkPwmUpdateParam_on (s : Dev φ) (hc : c < 6) (frequency d1 d2 d3 : BitVec 32) :
    OnChannel c (some 5) 6 s (bkPwmUpdateParam s c frequency d1 d2 d3) := by
  unfold bkPwmUpdateParam
  refine (pwmSingleUpdateParam_on s (p := ⟨c, 0, 0, frequency, d1, d2, d3, none⟩) hc).trans
    (pwmSingleUpdateParamEnable_on _ hc ?_)
  split_ifs <;> decide

/-- What a command on a channel does. -/
theorem pwmCtrl_on {cmd : Cmd φ} (hch : cmd.channel = some c) (hc : c < 6)
    (h : pwmCtrl s cmd = some s') : ∃ len, OnChannel c cmd.readBack len s s' := by
  have hle : ¬c > 5 := by omega
  have hlt : ¬c ≥ PWM_COUNT := by
    unfold PWM_COUNT
    omega
  have hstill : OnChannel c none 0 s s := OnChannel.still rfl rfl rfl rfl rfl
  cases cmd with
  | unitEnable d =>
    cases hch
    simp only [pwmCtrl, hle, if_false, Option.some.injEq] at h
    exact ⟨2, h ▸ pwmUnitEnable_on s hc⟩
  | unitDisable d =>
    cases hch
    simp only [pwmCtrl, hle, if_false, Option.some.injEq] at h
    exact ⟨6, h ▸ (pwmUnitDisable_on s hc).trans (pwmParamClear_on _ hc)⟩
  | irEnable cfg =>
    cases hch
    simp only [pwmCtrl, Nat.mod_eq_of_lt (show c < 256 by omega), Option.some.injEq] at h
    exact ⟨3, h ▸ pwmInterruptEnable_on s hc true⟩
  | irDisable cfg =>
    cases hch
    simp only [pwmCtrl, Nat.mod_eq_of_lt (show c < 256 by omega), Option.some.injEq] at h
    exact ⟨2, h ▸ pwmInterruptEnable_on s hc false⟩
  | setIrCallback cfg =>
    cases cfg with
    | none => nomatch hch
    | some r =>
      simp only [pwmCtrl, Option.some.injEq] at h
      refine ⟨0, h ▸ ?_⟩
      split_ifs
      · exact onChannel_handler s c r.1 r.2
      · exact hstill
  | irClear d =>
    cases hch
    simp only [pwmCtrl, hle, if_false, Option.some.injEq] at h
    exact ⟨0, h ▸ onChannel_handler s c c none⟩
  | initParam p =>
    cases p with
    | none => nomatch hch
    | some p =>
      cases hch
      simp only [pwmCtrl, Option.some.injEq] at h
      exact ⟨_, h ▸ initPwmParam_on s hc⟩
  | deinitParam p =>
    cases p with
    | none => nomatch hch
    | some p =>
      cases hch
      simp only [pwmCtrl, Option.some.injEq] at h
      exact ⟨_, h ▸ initPwmParam_on s hc⟩
  | setDutyCycle p =>
    cases hch
    simp only [pwmCtrl, hlt, if_false, Option.some.injEq] at h
    exact ⟨4, h ▸ pwmSetDutyCycle_on s hc _⟩
  | setEndValue p =>
    cases hch
    simp only [pwmCtrl, hlt, if_false, Option.some.injEq] at h
    exact ⟨4, h ▸ pwmSetEndValue_on s hc _⟩
  | capGet d =>
    cases hch
    simp only [pwmCtrl, hlt, if_false, Option.map_eq_some_iff, Prod.exists] at h
    obtain ⟨v, s₁, h, rfl⟩ := h
    exact ⟨4, pwmCaptureValueGet_on hc h⟩
  | groupEnable d => nomatch hch
  | groupDisable d => nomatch hch
  | updataParam p =>
    cases hch
    simp only [pwmCtrl, Option.some.injEq] at h
    exact ⟨4, h ▸ pwmUpdateParam_on s hc⟩
  | singleUpdataParam p =>
    cases hch
    simp only [pwmCtrl, Option.some.injEq] at h
    exact ⟨4, h ▸ pwmSingleUpdateParam_on s hc⟩
  | updataParamEnable d =>
    cases hch
    simp only [pwmCtrl, hle, if_false, Option.some.injEq] at h
    exact ⟨2, h ▸ pwmUpdateParamEnable_on s hc⟩
  | initLevlSetLow d =>
    cases hch
    simp only [pwmCtrl, hle, if_false, Option.some.injEq] at h
    exact ⟨2, h ▸ pwmInitLevlSetLow_on s hc⟩
  | initLevlSetHigh d =>
    cases hch
    simp only [pwmCtrl, hle, if_false, Option.some.injEq] at h
    exact ⟨2, h ▸ pwmInitLevlSetHigh_on s hc⟩
  | unknown => nomatch hch

theorem Call.run_on {x : Call φ} (hch : x.channel = some c) (hc : c < 6)
    (h : x.run s = some s') : ∃ len, OnChannel c x.readBack len s s' := by
  cases x with
  | ctrl cmd => exact pwmCtrl_on hch hc h
  | init pwm count d1 d2 d3 =>
    cases hch
    cases h
    exact bkPwmInitialize_on s hc count d1 d2 d3
  | update pwm frequency d1 d2 d3 =>
    cases hch
    cases h
    exact ⟨6, bkPwmUpdateParam_on s hc frequency d1 d2 d3⟩

/-! ## The interrupt handler -/

/-- A pass clears the flag of its channel and calls its handler if the flag was up, and clears and
calls nothing otherwise. -/
def IsrPass.Serves (p : IsrPass φ) : Prop :=
  p.cleared = (if p.flag then [p.channel] else []) ∧
    p.called = if p.flag then p.handler else none

/-- The passes of the loop go over the channels in order, and each serves its own. -/
def IsrServes (call : φ → Nat → Dev φ → Dev φ) (s : Dev φ) : Prop :=
  (pwmIsr call s).2.map (·.channel) = List.range PWM_COUNT ∧ ∀ p ∈ (pwmIsr call s).2, p.Serves

/-- The write of a pass clears the flag of its channel, which is up still, and no other. -/
theorem clearedBy_clearStat {i : Nat} (v : BitVec 32) (hp : s.pending i = true) :
    s.clearedBy (i / 2) (clearStat (i % 2) v) = [i] := by
  have h30 : (clearStat (i % 2) v).getLsbD 30 = decide (i % 2 = 0) := by
    rcases Nat.mod_two_eq_zero_or_one i with hi | hi <;> rw [hi] <;>
      simp [clearStat, intStatClear]
  have h31 : (clearStat (i % 2) v).getLsbD 31 = decide (i % 2 = 1) := by
    rcases Nat.mod_two_eq_zero_or_one i with hi | hi <;> rw [hi] <;>
      simp [clearStat, intStatClear]
  have heven : 2 * (i / 2) % 2 = 0 := by omega
  have hodd : (2 * (i / 2) + 1) % 2 = 1 := by omega
  unfold Dev.clearedBy
  rw [List.filter_cons, List.filter_cons, List.filter_nil, heven, hodd, h30, h31]
  rcases Nat.mod_two_eq_zero_or_one i with hi | hi
  · have heq : 2 * (i / 2) = i := by omega
    simp [hi, heq, hp]
  · have heq : 2 * (i / 2) + 1 = i := by omega
    simp [hi, heq, hp]

theorem isrPass_serves (call : φ → Nat → Dev φ → Dev φ) (s : Dev φ) {i : Nat} (hi : i < 6) :
    (isrPass call s i).2.channel = i ∧ (isrPass call s i).2.Serves := by
  unfold isrPass IsrPass.Serves
  simp only [groupOf_eq hi, chanOf_eq hi]
  have hcond : (s.readCtrl (i / 2)).1 &&& intStatClear (i % 2) ≠ 0 ↔ s.tick.pending i = true :=
    ctrl_and_flag s.tick i
  by_cases hflag : s.tick.pending i = true
  · have hup : ((s.readCtrl (i / 2)).2.readCtrl (i / 2)).2.tick.pending i = true :=
      pending_tick (pending_tick hflag)
    rw [if_pos (hcond.mpr hflag)]
    split
    · rename_i f hf
      have hf' : s.pwmIntHandler i = some f := hf
      simp [hflag, hf', clearedBy_clearStat _ hup]
    · rename_i hf
      have hf' : s.pwmIntHandler i = none := hf
      simp [hflag, hf', clearedBy_clearStat _ hup]
  · rw [if_neg (mt hcond.mp hflag)]
    simp [hflag]

theorem isrLoop_serves (call : φ → Nat → Dev φ → Dev φ) (is : List Nat) (s : Dev φ)
    (his : ∀ i ∈ is, i < 6) :
    (isrLoop call s is).2.map (·.channel) = is ∧ ∀ p ∈ (isrLoop call s is).2, p.Serves := by
  induction is generalizing s with
  | nil => simp [isrLoop]
  | cons i is ih =>
    obtain ⟨hchan, hserves⟩ := isrPass_serves call s (his i (by simp))
    obtain ⟨hchans, hall⟩ := ih (isrPass call s i).1 fun j hj => his j (by simp [hj])
    simp only [isrLoop, List.map_cons, hchan, hchans, List.mem_cons, true_and]
    rintro p (rfl | hp)
    · exact hserves
    · exact hall p hp

theorem isrServes (call : φ → Nat → Dev φ → Dev φ) (s : Dev φ) : IsrServes call s := by
  refine isrLoop_serves call _ s fun i hi => ?_
  simpa [PWM_COUNT] using hi

/-! ## The result -/

/-- A call on a channel leaves the other channels alone if and only if no interrupt of the other
channel of the group is pending by the last access that reads the flags to write them back; the
interrupt handler serves every flag it finds and clears no other. -/
theorem leavesOthers_iff :
    (∀ (s s' : Dev φ) (x : Call φ) (c : Nat), x.channel = some c → c < PWM_COUNT →
      x.run s = some s' →
        (LeavesOthers c s s' ↔ ∀ n ∈ x.readBack, ¬s.PendingBy (partner c) n)) ∧
      ∀ (call : φ → Nat → Dev φ → Dev φ) (s : Dev φ), IsrServes call s := by
  refine ⟨fun s s' x c hch hc h => ?_, isrServes⟩
  obtain ⟨len, hon⟩ := x.run_on hch hc h
  exact hon.sparesOthers_iff

/-- The driver after `pwm_init`, with the interrupts of the channels of `up` pending. -/
def fresh (φ : Type*) (up : List Nat) : Dev φ where
  regs _ := 0
  pending d := up.contains d
  raises _ _ := false
  capture _ := 0
  moment := 0
  cleared := []
  currentGroup := 0
  currentChannel := 0
  pwmIntHandler _ := none

theorem leavesOthers_unitEnable :
    LeavesOthers 2 (fresh Unit [0]) (pwmUnitEnable (fresh Unit [0]) 2) := by
  refine (leavesOthers_iff.1 (fresh Unit [0]) _ (.ctrl (.unitEnable 2)) 2 rfl (by decide) rfl).mpr ?_
  rintro n hn (h | ⟨k, -, h⟩)
  · exact absurd h (by decide)
  · exact Bool.false_ne_true h

/-- With its interrupt pending, channel 1 loses it when channel 0 is enabled. -/
theorem not_forall_leavesOthers :
    ¬∀ (s s' : Dev Unit) (x : Call Unit) (c : Nat), x.channel = some c → c < PWM_COUNT →
      x.run s = some s' → LeavesOthers c s s' := by
  intro h
  have hlost := (h (fresh Unit [1]) _ (.ctrl (.unitEnable 0)) 0 rfl (by decide) rfl).flags 1
    (by decide)
  exact absurd hlost (by decide)

end TuyaSdk.Pwm
