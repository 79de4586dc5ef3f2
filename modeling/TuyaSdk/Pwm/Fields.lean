import TuyaSdk.Pwm.Defs

/-!
# What an access of the PWM driver changes

`Changes` bounds the control bits and the timing registers that a piece of the driver writes,
`Agree` compares two states on some of them. `Traffic` says which pending interrupt of one
channel the accesses between two states clear: a flag is lost when it is up at a read whose
value is written back with the flag in it.
-/

namespace TuyaSdk.Pwm

variable {φ : Type*} {s s' s'' t : Dev φ}

/-! ## Addresses and channels -/

/-- Timing register `i` of channel `d`. -/
def timerAddr (d i : Nat) : Nat := groupAddr (d / 2) + (4 * (d % 2) + i) * 4

/-- Timing register `i` of channel `d` holds this. -/
def Dev.timer (s : Dev φ) (d i : Nat) : BitVec 32 := s.regs (timerAddr d i)

/-- Bit `i` of the control register of group `g`. -/
def Dev.ctrlBit (s : Dev φ) (g i : Nat) : Bool := (s.regs (ctrlAddr g)).getLsbD i

theorem ctrlAddr_inj {g g' : Nat} : ctrlAddr g = ctrlAddr g' ↔ g = g' := by
  unfold ctrlAddr groupAddr
  omega

theorem timerAddr_inj {d d' i i' : Nat} (hi : 1 ≤ i ∧ i ≤ 4) (hi' : 1 ≤ i' ∧ i' ≤ 4) :
    timerAddr d i = timerAddr d' i' ↔ d = d' ∧ i = i' := by
  unfold timerAddr groupAddr
  omega

theorem timerAddr_ne_ctrlAddr {d i g : Nat} (hi : 1 ≤ i ∧ i ≤ 4) :
    timerAddr d i ≠ ctrlAddr g := by
  unfold timerAddr ctrlAddr groupAddr
  omega

theorem groupOf_eq {c : Nat} (hc : c < 6) : groupOf c = c / 2 := by
  unfold groupOf
  split_ifs <;> omega

theorem chanOf_eq {c : Nat} (hc : c < 6) : chanOf c = c % 2 := by
  unfold chanOf
  split_ifs <;> omega

theorem getSetGroup_eq {c : Nat} (hc : c < 6) : getSetGroup c = c / 2 := by
  unfold getSetGroup PWM_COUNT
  rw [if_neg (by omega), groupOf_eq hc]

theorem getSetChannel_eq {c : Nat} (hc : c < 6) : getSetChannel c = c % 2 := by
  unfold getSetChannel
  rw [getSetGroup_eq hc]
  omega

theorem getCurrentGroup_eq {c : Nat} (hc : c < 6) :
    getCurrentGroup s c = (c / 2, s.select c) := by
  unfold getCurrentGroup PWM_COUNT
  rw [if_neg (by omega)]
  simp only [Dev.select, groupOf_eq hc]

theorem pwm0TAddr_eq (g i : Nat) : pwm0TAddr g i = timerAddr (2 * g) i := by
  unfold pwm0TAddr timerAddr groupAddr
  omega

theorem pwm1TAddr_eq (g i : Nat) : pwm1TAddr g i = timerAddr (2 * g + 1) i := by
  unfold pwm1TAddr timerAddr groupAddr
  omega

/-- A timing register's address by the number of its channel in the group. -/
theorem channelTAddr_eq (c i : Nat) :
    (if c % 2 = 0 then pwm0TAddr (c / 2) i else pwm1TAddr (c / 2) i) = timerAddr c i := by
  split_ifs with h
  · rw [pwm0TAddr_eq]
    congr 1
    omega
  · rw [pwm1TAddr_eq]
    congr 1
    omega

theorem writeTimers_eq (s : Dev φ) (c : Nat) (t1 t2 t3 t4 : BitVec 32) :
    s.writeTimers (c / 2) (c % 2) t1 t2 t3 t4 =
      (((s.regWrite (timerAddr c 1) t1).regWrite (timerAddr c 2) t2).regWrite
        (timerAddr c 3) t3).regWrite (timerAddr c 4) t4 := by
  simp only [← channelTAddr_eq]
  unfold Dev.writeTimers
  split_ifs <;> rfl

/-! ## The control register as it is read -/

theorem ctrl_getLsbD {g i : Nat} (hi : i < 30) : (s.ctrl g).getLsbD i = s.ctrlBit g i := by
  have h0 : (intStatClear 0).getLsbD i = false := by
    simp only [intStatClear, BitVec.getLsbD_twoPow]
    simp
    omega
  have h1 : (intStatClear 1).getLsbD i = false := by
    simp only [intStatClear, BitVec.getLsbD_twoPow]
    simp
    omega
  unfold Dev.ctrl Dev.ctrlBit
  split_ifs <;> simp [h0, h1] <;> intro <;> omega

theorem ctrl_flag (s : Dev φ) (d : Nat) :
    (s.ctrl (d / 2)).getLsbD (d % 2 + 30) = s.pending d := by
  rcases Nat.mod_two_eq_zero_or_one d with h | h
  · have hd : 2 * (d / 2) = d := by omega
    rw [h]
    unfold Dev.ctrl intStatClear
    rw [hd]
    split_ifs with h0 h1 h1 <;> simp [h0]
  · have hd : 2 * (d / 2) + 1 = d := by omega
    rw [h]
    unfold Dev.ctrl intStatClear
    rw [hd]
    split_ifs with h0 h1 h1 <;> simp_all

/-- The value tested by the interrupt handler. -/
theorem ctrl_and_flag (s : Dev φ) (d : Nat) :
    s.ctrl (d / 2) &&& intStatClear (d % 2) ≠ 0 ↔ s.pending d = true := by
  rw [← ctrl_flag s d, intStatClear, BitVec.and_twoPow]
  have hlt : d % 2 + 30 < 32 := by omega
  cases h : (s.ctrl (d / 2)).getLsbD (d % 2 + 30) with
  | false => simp
  | true =>
    simp only [if_true, iff_true]
    intro hzero
    have := congrArg (fun v => v.getLsbD (d % 2 + 30)) hzero
    simp [hlt] at this

/-! ## What changes -/

/-- Between the two states no control bit below the flags changes but those of `bits`, and no
timing register but those of the channels of `timers`. -/
structure Changes (bits : Nat → Nat → Prop) (timers : Nat → Prop) (s s' : Dev φ) : Prop where
  bits : ∀ g i, i < 30 → ¬bits g i → s'.ctrlBit g i = s.ctrlBit g i
  timers : ∀ d i, 1 ≤ i ∧ i ≤ 4 → ¬timers d → s'.timer d i = s.timer d i

variable {bits bits' : Nat → Nat → Prop} {timers timers' : Nat → Prop}

theorem Changes.refl : Changes bits timers s s := ⟨fun _ _ _ _ => rfl, fun _ _ _ _ => rfl⟩

theorem Changes.of_regs (h : s'.regs = s.regs) : Changes bits timers s s' := by
  constructor
  · intro g i _ _
    rw [Dev.ctrlBit, h, ← Dev.ctrlBit]
  · intro d i _ _
    rw [Dev.timer, h, ← Dev.timer]

theorem Changes.trans (h : Changes bits timers s s') (h' : Changes bits timers s' s'') :
    Changes bits timers s s'' := by
  constructor
  · intro g i hi hb
    rw [h'.bits g i hi hb, h.bits g i hi hb]
  · intro d i hi ht
    rw [h'.timers d i hi ht, h.timers d i hi ht]

theorem Changes.mono (h : Changes bits timers s s') (hb : ∀ g i, bits g i → bits' g i)
    (ht : ∀ d, timers d → timers' d) : Changes bits' timers' s s' where
  bits g i hi hno := h.bits g i hi fun hyes => hno (hb g i hyes)
  timers d i hi hno := h.timers d i hi fun hyes => hno (ht d hyes)

/-- The control bits of channel `c`: the byte with its mode, its enable, interrupt-enable and
stop bits, its initial level and its update bit. -/
def OfChannel (c g i : Nat) : Prop := g = c / 2 ∧ i / 8 = c % 2

/-- `f` changes no bit below the flags but those of `bits`. -/
def Within (bits : Nat → Prop) (f : BitVec 32 → BitVec 32) : Prop :=
  ∀ v i, i < 30 → ¬bits i → (f v).getLsbD i = v.getLsbD i

theorem regWrite_changes (s : Dev φ) {c i : Nat} (hi : 1 ≤ i ∧ i ≤ 4) (value : BitVec 32) :
    Changes bits (fun d => d = c) s (s.regWrite (timerAddr c i) value) := by
  constructor
  · intro g j _ _
    have hne : ctrlAddr g ≠ timerAddr c i := (timerAddr_ne_ctrlAddr hi).symm
    simp [Dev.ctrlBit, Dev.regWrite, Dev.tick, Function.update_of_ne hne]
  · intro d j hj hd
    have hne : timerAddr d j ≠ timerAddr c i := fun heq => hd ((timerAddr_inj hj hi).mp heq).1
    simp [Dev.timer, Dev.regWrite, Dev.tick, Function.update_of_ne hne]

theorem writeCtrl_changes {g : Nat} {value : BitVec 32} {b : Nat → Prop}
    (h : ∀ i, i < 30 → ¬b i → value.getLsbD i = s.ctrlBit g i) :
    Changes (fun g' i => g' = g ∧ b i) timers s (s.writeCtrl g value) := by
  constructor
  · intro g' i hi hb
    rcases eq_or_ne g' g with rfl | hg
    · have hb' : ¬b i := fun hyes => hb ⟨rfl, hyes⟩
      simpa [Dev.ctrlBit, Dev.writeCtrl] using h i hi hb'
    · have hne : ctrlAddr g' ≠ ctrlAddr g := fun heq => hg (ctrlAddr_inj.mp heq)
      simp [Dev.ctrlBit, Dev.writeCtrl, Function.update_of_ne hne, Dev.tick]
  · intro d i hi _
    simp [Dev.timer, Dev.writeCtrl, Function.update_of_ne (timerAddr_ne_ctrlAddr hi), Dev.tick]

theorem modifyCtrl_changes (s : Dev φ) (g : Nat) {f : BitVec 32 → BitVec 32} {b : Nat → Prop}
    (h : Within b f) : Changes (fun g' i => g' = g ∧ b i) timers s (s.modifyCtrl g f) := by
  have hread : Changes (fun g' i => g' = g ∧ b i) timers s (s.readCtrl g).2 :=
    Changes.of_regs rfl
  refine hread.trans (writeCtrl_changes fun i hi hb => ?_)
  rw [h _ i hi hb]
  exact ctrl_getLsbD hi

theorem modifyCtrl_ofChannel (s : Dev φ) {c : Nat} {f : BitVec 32 → BitVec 32}
    (h : Within (fun i => i / 8 = c % 2) f) :
    Changes (OfChannel c) timers s (s.modifyCtrl (c / 2) f) :=
  modifyCtrl_changes s (c / 2) h

theorem writeTimers_changes (s : Dev φ) (c : Nat) (t1 t2 t3 t4 : BitVec 32) :
    Changes bits (fun d => d = c) s (s.writeTimers (c / 2) (c % 2) t1 t2 t3 t4) := by
  rw [writeTimers_eq]
  exact (((regWrite_changes s (by omega) t1).trans (regWrite_changes _ (by omega) t2)).trans
    (regWrite_changes _ (by omega) t3)).trans (regWrite_changes _ (by omega) t4)

/-! ## Two states compared -/

/-- The states agree on the control bits of `bits` and the timing registers of `timers`. -/
structure Agree (bits : Nat → Nat → Prop) (timers : Nat → Prop) (s t : Dev φ) : Prop where
  bits : ∀ g i, i < 30 → bits g i → s.ctrlBit g i = t.ctrlBit g i
  timers : ∀ d i, 1 ≤ i ∧ i ≤ 4 → timers d → s.timer d i = t.timer d i

theorem Agree.of_regs (h : Agree bits timers s t) {s' t' : Dev φ} (hs : s'.regs = s.regs)
    (ht : t'.regs = t.regs) : Agree bits timers s' t' := by
  constructor
  · intro g i hi hb
    rw [Dev.ctrlBit, Dev.ctrlBit, hs, ht]
    exact h.bits g i hi hb
  · intro d i hi hd
    rw [Dev.timer, Dev.timer, hs, ht]
    exact h.timers d i hi hd

/-- What one state changes outside of what is compared does not matter. -/
theorem Agree.changes (h : Agree bits timers s t) (hs : Changes bits' timers' s s')
    (hb : ∀ g i, i < 30 → bits g i → ¬bits' g i) (ht : ∀ d, timers d → ¬timers' d) :
    Agree bits timers s' t where
  bits g i hi hyes := by rw [hs.bits g i hi (hb g i hi hyes), h.bits g i hi hyes]
  timers d i hi hyes := by rw [hs.timers d i hi (ht d hyes), h.timers d i hi hyes]

/-- Each bit of the value depends on the same bit of the argument. -/
def Bitwise (f : BitVec 32 → BitVec 32) : Prop :=
  ∀ v w i, v.getLsbD i = w.getLsbD i → (f v).getLsbD i = (f w).getLsbD i

theorem Agree.regWrite (h : Agree bits timers s t) {addr : Nat} (value : BitVec 32) :
    Agree bits timers (s.regWrite addr value) (t.regWrite addr value) := by
  constructor
  · intro g i hi hb
    have := h.bits g i hi hb
    simp only [Dev.ctrlBit, Dev.regWrite, Dev.tick, Function.update_apply] at this ⊢
    split_ifs
    · rfl
    · exact this
  · intro d i hi hd
    have := h.timers d i hi hd
    simp only [Dev.timer, Dev.regWrite, Dev.tick, Function.update_apply] at this ⊢
    split_ifs
    · rfl
    · exact this

theorem Agree.writeCtrl (h : Agree bits timers s t) {g : Nat} {v w : BitVec 32}
    (hv : ∀ i, i < 30 → bits g i → v.getLsbD i = w.getLsbD i) :
    Agree bits timers (s.writeCtrl g v) (t.writeCtrl g w) := by
  constructor
  · intro g' i hi hb
    have := h.bits g' i hi hb
    rcases eq_or_ne g' g with rfl | hg
    · simpa [Dev.ctrlBit, Dev.writeCtrl] using hv i hi hb
    · have hne : ctrlAddr g' ≠ ctrlAddr g := fun heq => hg (ctrlAddr_inj.mp heq)
      simpa [Dev.ctrlBit, Dev.writeCtrl, Dev.tick, Function.update_of_ne hne] using this
  · intro d i hi hd
    have := h.timers d i hi hd
    simpa [Dev.timer, Dev.writeCtrl, Dev.tick, Function.update_of_ne (timerAddr_ne_ctrlAddr hi)]
      using this

theorem Agree.modifyCtrl (h : Agree bits timers s t) (g : Nat) {f : BitVec 32 → BitVec 32}
    (hf : Bitwise f) : Agree bits timers (s.modifyCtrl g f) (t.modifyCtrl g f) := by
  have hread : Agree bits timers (s.readCtrl g).2 (t.readCtrl g).2 := h.of_regs rfl rfl
  refine hread.writeCtrl fun i hi hb => hf _ _ i ?_
  have hs : (s.readCtrl g).1.getLsbD i = s.ctrlBit g i := ctrl_getLsbD hi
  have ht : (t.readCtrl g).1.getLsbD i = t.ctrlBit g i := ctrl_getLsbD hi
  rw [hs, ht, h.bits g i hi hb]

theorem Agree.writeTimers (h : Agree bits timers s t) (c : Nat) (t1 t2 t3 t4 : BitVec 32) :
    Agree bits timers (s.writeTimers (c / 2) (c % 2) t1 t2 t3 t4)
      (t.writeTimers (c / 2) (c % 2) t1 t2 t3 t4) := by
  rw [writeTimers_eq, writeTimers_eq]
  exact (((h.regWrite t1).regWrite t2).regWrite t3).regWrite t4

/-! ## Pending interrupts -/

/-- The flag of channel `d` is up by the end of the next `n` accesses, if none clears it. -/
def Dev.PendingBy (s : Dev φ) (d n : Nat) : Prop :=
  s.pending d = true ∨ ∃ k < n, s.raises (s.moment + k) d = true

theorem Dev.PendingBy.mono {d m n : Nat} (h : s.PendingBy d m) (hle : m ≤ n) :
    s.PendingBy d n := by
  rcases h with h | ⟨k, hk, h⟩
  · exact .inl h
  · exact .inr ⟨k, by omega, h⟩

variable {d : Nat}

theorem tick_pending (s : Dev φ) (d : Nat) : s.tick.pending d = true ↔ s.PendingBy d 1 := by
  simp [Dev.tick, Dev.PendingBy]

theorem pending_tick (h : s.pending d = true) : s.tick.pending d = true := by
  simp [Dev.tick, h]

theorem tick_tick_pending (s : Dev φ) (d : Nat) :
    s.tick.tick.pending d = true ↔ s.PendingBy d 2 := by
  simp only [Dev.tick, Dev.PendingBy, Bool.or_eq_true, or_assoc]
  refine or_congr Iff.rfl ⟨?_, ?_⟩
  · rintro (h | h)
    · exact ⟨0, by omega, h⟩
    · exact ⟨1, by omega, h⟩
  · rintro ⟨k, hk, h⟩
    obtain rfl | rfl : k = 0 ∨ k = 1 := by omega
    · exact .inl h
    · exact .inr h

/-- Between the two states there are `len` accesses. They clear the flag of channel `d` if and
only if it is up by access number `last`, the last one that reads the control register of its
group to write the flag back. -/
structure Traffic (d : Nat) (last : Option Nat) (len : Nat) (s s' : Dev φ) : Prop where
  moment : s'.moment = s.moment + len
  raises : s'.raises = s.raises
  inside : ∀ n ∈ last, n ≤ len
  clears : ∃ new, s'.cleared = s.cleared ++ new ∧
    (d ∈ new ↔ ∃ n ∈ last, s.PendingBy d n) ∧ (d ∉ new → (s'.pending d = true ↔ s.PendingBy d len))

variable {len len' : Nat} {last last' : Option Nat}

/-- The flag at a later state, if it was not cleared before. -/
theorem pendingBy_add (hm : s'.moment = s.moment + len) (hr : s'.raises = s.raises)
    (hp : s'.pending d = true ↔ s.PendingBy d len) (n : Nat) :
    s'.PendingBy d n ↔ s.PendingBy d (len + n) := by
  constructor
  · rintro (h | ⟨k, hk, h⟩)
    · exact (hp.mp h).mono (by omega)
    · refine .inr ⟨len + k, by omega, ?_⟩
      rwa [hr, hm, Nat.add_assoc] at h
  · rintro (h | ⟨k, hk, h⟩)
    · exact .inl (hp.mpr (.inl h))
    · by_cases hlt : k < len
      · exact .inl (hp.mpr (.inr ⟨k, hlt, h⟩))
      · refine .inr ⟨k - len, by omega, ?_⟩
        rw [hr, hm, Nat.add_assoc, Nat.add_sub_cancel' (by omega)]
        exact h

theorem Traffic.trans (h : Traffic d last len s s') (h' : Traffic d last' len' s' s'') :
    Traffic d ((last'.map (len + ·)).or last) (len + len') s s'' := by
  obtain ⟨new, hc, hd, hp⟩ := h.clears
  obtain ⟨new', hc', hd', hp'⟩ := h'.clears
  refine ⟨by rw [h'.moment, h.moment, Nat.add_assoc], by rw [h'.raises, h.raises], ?_, ?_⟩
  · intro n hn
    cases last' with
    | none =>
      have := h.inside n hn
      omega
    | some m =>
      have := h'.inside m rfl
      obtain rfl : len + m = n := by simpa using hn
      omega
  refine ⟨new ++ new', by rw [hc', hc, List.append_assoc], ?_, ?_⟩
  · rw [List.mem_append, hd']
    cases last' with
    | none => simp [hd]
    | some m =>
      simp only [Option.mem_def, Option.some.injEq, exists_eq_left', Option.map_some, Option.or]
      by_cases hnew : d ∈ new
      · obtain ⟨n, hn, hpn⟩ := hd.mp hnew
        have hle := h.inside n hn
        exact iff_of_true (.inl hnew) (hpn.mono (by omega))
      · rw [pendingBy_add h.moment h.raises (hp hnew) m]
        simp [hnew]
  · intro hno
    rw [List.mem_append, not_or] at hno
    rw [hp' hno.2, pendingBy_add h.moment h.raises (hp hno.1) len']

/-- Nothing but the variables of the driver changes. -/
theorem Traffic.still (hm : s'.moment = s.moment) (hr : s'.raises = s.raises)
    (hc : s'.cleared = s.cleared) (hp : s'.pending = s.pending) : Traffic d none 0 s s' := by
  refine ⟨by omega, hr, by simp, [], by simp [hc], by simp, fun _ => ?_⟩
  simp [hp, Dev.PendingBy]

theorem Traffic.tick (hm : s'.moment = s.tick.moment) (hr : s'.raises = s.raises)
    (hc : s'.cleared = s.cleared) (hp : s'.pending = s.tick.pending) : Traffic d none 1 s s' := by
  refine ⟨hm, hr, by simp, [], by simp [hc], by simp, fun _ => ?_⟩
  rw [hp, tick_pending]

theorem regWrite_traffic (s : Dev φ) (addr : Nat) (value : BitVec 32) :
    Traffic d none 1 s (s.regWrite addr value) := Traffic.tick rfl rfl rfl rfl

theorem readCtrl_traffic (s : Dev φ) (g : Nat) : Traffic d none 1 s (s.readCtrl g).2 :=
  Traffic.tick rfl rfl rfl rfl

theorem writeTimers_traffic (s : Dev φ) (g c : Nat) (t1 t2 t3 t4 : BitVec 32) :
    Traffic d none 4 s (s.writeTimers g c t1 t2 t3 t4) := by
  unfold Dev.writeTimers
  split_ifs <;>
  exact (((regWrite_traffic s _ t1).trans (regWrite_traffic _ _ t2)).trans
    (regWrite_traffic _ _ t3)).trans (regWrite_traffic _ _ t4)

theorem mem_clearedBy {g : Nat} {value : BitVec 32} :
    d ∈ s.clearedBy g value ↔ d / 2 = g ∧ s.pending d = true ∧ value.getLsbD (d % 2 + 30) := by
  simp only [Dev.clearedBy, List.mem_filter, List.mem_cons, List.not_mem_nil, or_false,
    Bool.and_eq_true]
  refine and_congr_left fun _ => ?_
  omega

/-- A write that has the flag of channel `d` at zero clears nothing of it. -/
theorem writeCtrl_traffic (s : Dev φ) {g : Nat} {value : BitVec 32}
    (h : d / 2 = g → value.getLsbD (d % 2 + 30) = false) :
    Traffic d none 1 s (s.writeCtrl g value) := by
  refine ⟨rfl, rfl, by simp, s.tick.clearedBy g value, rfl, ?_, fun _ => ?_⟩
  · simp only [mem_clearedBy]
    refine iff_of_false ?_ (by simp)
    rintro ⟨hg, -, hv⟩
    rw [h hg] at hv
    exact Bool.false_ne_true hv
  · rw [← tick_pending]
    by_cases hg : d / 2 = g
    · simp [Dev.writeCtrl, h hg]
    · simp [Dev.writeCtrl, hg]

/-- A change that masks the flags, or one of another group, clears nothing of channel `d`. -/
theorem modifyCtrl_masked (s : Dev φ) {g : Nat} {f : BitVec 32 → BitVec 32}
    (h : d / 2 = g → ∀ v, (f v).getLsbD (d % 2 + 30) = false) :
    Traffic d none 2 s (s.modifyCtrl g f) :=
  (readCtrl_traffic s g).trans (writeCtrl_traffic _ fun hg => h hg _)

/-- A change that writes the flags back clears the flag of channel `d` if it was read as one. -/
theorem modifyCtrl_unmasked (s : Dev φ) {f : BitVec 32 → BitVec 32}
    (h : ∀ v, (f v).getLsbD (d % 2 + 30) = v.getLsbD (d % 2 + 30)) :
    Traffic d (some 1) 2 s (s.modifyCtrl (d / 2) f) := by
  refine ⟨rfl, rfl, by simp, _, rfl, ?_, fun hno => ?_⟩
  · have hval : (f (s.tick.ctrl (d / 2))).getLsbD (d % 2 + 30) = s.tick.pending d := by
      rw [h, ctrl_flag]
    simp only [mem_clearedBy, Option.mem_def, Option.some.injEq, exists_eq_left', ← tick_pending]
    show _ ∧ s.tick.tick.pending d = true ∧ (f (s.tick.ctrl (d / 2))).getLsbD (d % 2 + 30) = true ↔
      s.tick.pending d = true
    rw [hval]
    constructor
    · intro hp
      exact hp.2.2
    · intro hp
      exact ⟨trivial, pending_tick hp, hp⟩
  · have hval : (f (s.tick.ctrl (d / 2))).getLsbD (d % 2 + 30) = s.tick.pending d := by
      rw [h, ctrl_flag]
    rw [mem_clearedBy] at hno
    change ¬(_ ∧ s.tick.tick.pending d = true ∧
      (f (s.tick.ctrl (d / 2))).getLsbD (d % 2 + 30) = true) at hno
    rw [← tick_tick_pending]
    show (s.tick.tick.pending d && !(d / 2 == d / 2 && (f (s.tick.ctrl (d / 2))).getLsbD
      (d % 2 + 30))) = true ↔ _
    have hcases : s.tick.tick.pending d = true →
        (f (s.tick.ctrl (d / 2))).getLsbD (d % 2 + 30) = false := by
      intro hp
      by_contra hbit
      exact hno ⟨rfl, hp, by simpa using hbit⟩
    constructor
    · intro hp
      exact (Bool.and_eq_true_iff.mp hp).1
    · intro hp
      simp [hp, hcases hp]

end TuyaSdk.Pwm
