import TuyaSdk.Gpio.Defs

/-!
# Pins are independent

What belongs to a pin is its configuration word and, below pin 32, its level field and its enable
bit. A call on a pin stays inside as long as it keeps to what the registers have: pins without an
interrupt are not asked for one, a level has two bits, an output has a pin, and the status
register is not written back with the flag of another pin in it.
-/

namespace TuyaSdk.Gpio

variable {φ : Type*} {wild : BitVec 32 → Nat → BitVec 32} {call : φ → Nat → Dev φ → Dev φ}
  {s s' s'' : Dev φ} {p q addr mode : BitVec 32} {i : Nat}

/-- The bit of the register belongs to the pin. -/
def Owns (p addr : BitVec 32) (i : Nat) : Prop :=
  addr = gpioCfgAddr (pinWord p) ∨
    p < 32 ∧ (addr = levelReg p ∧ i / 2 = p.toNat % 16 ∨ addr = regGpioInten ∧ i = p.toNat)

/-- Between the states nothing changes but what belongs to the pin, no flag of another pin is
cleared, and every shift is one of the word. -/
structure Confined (p : BitVec 32) (s s' : Dev φ) : Prop where
  regs : ∀ addr i, i < 32 → ¬Owns p addr i →
    (s'.regs addr).getLsbD i = (s.regs addr).getLsbD i
  flags : ∃ new, s'.cleared = s.cleared ++ new ∧ ∀ c ∈ new, ∀ i, c.getLsbD i = true → i = p.toNat
  shifts : ∃ new, s'.shifts = s.shifts ++ new ∧ ∀ n ∈ new, n < 32
  handlers : ∀ i, i ≠ p.toNat → s'.handler i = s.handler i

/-- Nothing changes. -/
structure Untouched (s s' : Dev φ) : Prop where
  regs : s'.regs = s.regs
  flags : s'.cleared = s.cleared
  shifts : s'.shifts = s.shifts
  handlers : s'.handler = s.handler

/-! ## What belongs to a pin -/

theorem toNat_pinWord (hp : p.toNat < 40) :
    (pinWord p).toNat = if p.toNat < 32 then p.toNat else p.toNat + 16 := by
  unfold pinWord
  split_ifs <;> bv_omega

theorem toNat_gpioCfgAddr (hp : p.toNat < 40) : (gpioCfgAddr (pinWord p)).toNat =
    0x0802800 + 4 * if p.toNat < 32 then p.toNat else p.toNat + 16 := by
  have hw := toNat_pinWord hp
  have hlt : (pinWord p).toNat < 56 := by
    rw [hw]
    split_ifs <;> omega
  rw [← hw, gpioCfgAddr, gpioBaseAddr]
  bv_omega

/-- The words of the pins are their own, and none of the other registers. -/
theorem gpioCfgAddr_inj (hp : p.toNat < 40) (hq : q.toNat < 40)
    (h : gpioCfgAddr (pinWord p) = gpioCfgAddr (pinWord q)) : p = q := by
  have heq := congrArg BitVec.toNat h
  rw [toNat_gpioCfgAddr hp, toNat_gpioCfgAddr hq] at heq
  refine BitVec.eq_of_toNat_eq ?_
  split_ifs at heq <;> omega

theorem gpioCfgAddr_ne (hp : p.toNat < 40) : gpioCfgAddr (pinWord p) ≠ regGpioIntsta ∧
    gpioCfgAddr (pinWord p) ≠ regGpioInten ∧ gpioCfgAddr (pinWord p) ≠ regGpioIntlv0 ∧
    gpioCfgAddr (pinWord p) ≠ regGpioIntlv1 := by
  have h := toNat_gpioCfgAddr hp
  have hne : ∀ a : BitVec 32, a.toNat = 0x0802800 + 4 * 33 ∨ a.toNat = 0x0802800 + 4 * 34 ∨
      a.toNat = 0x0802800 + 4 * 35 ∨ a.toNat = 0x0802800 + 4 * 36 →
      gpioCfgAddr (pinWord p) ≠ a := by
    rintro a ha rfl
    rw [h] at ha
    split_ifs at ha <;> omega
  exact ⟨hne _ (by decide), hne _ (by decide), hne _ (by decide), hne _ (by decide)⟩

theorem levelReg_cases (p : BitVec 32) :
    p < 16 ∧ levelReg p = regGpioIntlv0 ∨ ¬p < 16 ∧ levelReg p = regGpioIntlv1 := by
  unfold levelReg
  split_ifs with h
  · exact .inl ⟨h, rfl⟩
  · exact .inr ⟨h, rfl⟩

theorem levelReg_ne (p : BitVec 32) : levelReg p ≠ regGpioInten ∧ levelReg p ≠ regGpioIntsta := by
  rcases levelReg_cases p with ⟨-, h⟩ | ⟨-, h⟩ <;> rw [h] <;> decide

theorem levelReg_inj (hp : p < 32) (hq : q < 32) (h : levelReg p = levelReg q)
    (hmod : p.toNat % 16 = q.toNat % 16) : p = q := by
  have hne : regGpioIntlv0 ≠ regGpioIntlv1 := by decide
  have hp' : p.toNat < 32 := hp
  have hq' : q.toNat < 32 := hq
  refine BitVec.eq_of_toNat_eq ?_
  rcases levelReg_cases p with ⟨hpl, hpr⟩ | ⟨hpl, hpr⟩ <;>
    rcases levelReg_cases q with ⟨hql, hqr⟩ | ⟨hql, hqr⟩
  · have hpl' : p.toNat < 16 := hpl
    have hql' : q.toNat < 16 := hql
    omega
  · exact absurd (hpr.symm.trans (h.trans hqr)) hne
  · exact absurd (hqr.symm.trans (h.symm.trans hpr)) hne
  · have hpl' : ¬p.toNat < 16 := hpl
    have hql' : ¬q.toNat < 16 := hql
    omega

/-- No bit belongs to two pins. -/
theorem owns_disjoint (hp : p.toNat < 40) (hq : q.toNat < 40) (hne : p ≠ q) (h : Owns p addr i) :
    ¬Owns q addr i := by
  have hcfg : ∀ p q : BitVec 32, p.toNat < 40 → addr = gpioCfgAddr (pinWord p) →
      ¬(addr = levelReg q ∧ i / 2 = q.toNat % 16 ∨ addr = regGpioInten ∧ i = q.toNat) := by
    rintro p q hp rfl (⟨hl, -⟩ | ⟨hen, -⟩)
    · obtain ⟨-, -, h0, h1⟩ := gpioCfgAddr_ne hp
      rcases levelReg_cases q with ⟨-, hr⟩ | ⟨-, hr⟩
      · exact h0 (hl.trans hr)
      · exact h1 (hl.trans hr)
    · exact (gpioCfgAddr_ne hp).2.1 hen
  rintro (hq' | ⟨hqlt, hq'⟩)
  · rcases h with hp' | ⟨-, hp'⟩
    · exact hne (gpioCfgAddr_inj hp hq (hp'.symm.trans hq'))
    · exact hcfg q p hq hq' hp'
  · rcases h with hp' | ⟨hplt, hp'⟩
    · exact hcfg p q hp hp' hq'
    · rcases hp' with ⟨hpl, hpi⟩ | ⟨hpe, hpi⟩ <;> rcases hq' with ⟨hql, hqi⟩ | ⟨hqe, hqi⟩
      · exact hne (levelReg_inj hplt hqlt (hpl.symm.trans hql) (hpi.symm.trans hqi))
      · exact (levelReg_ne p).1 (hpl.symm.trans hqe)
      · exact (levelReg_ne q).1 (hql.symm.trans hpe)
      · exact hne (BitVec.eq_of_toNat_eq (hpi.symm.trans hqi))

/-! ## Steps inside a pin -/

theorem Confined.refl (p : BitVec 32) (s : Dev φ) : Confined p s s where
  regs _ _ _ _ := rfl
  flags := ⟨[], (List.append_nil _).symm, fun _ h => absurd h List.not_mem_nil⟩
  shifts := ⟨[], (List.append_nil _).symm, fun _ h => absurd h List.not_mem_nil⟩
  handlers _ _ := rfl

theorem Confined.trans (h : Confined p s s') (h' : Confined p s' s'') : Confined p s s'' where
  regs addr i hi hno := (h'.regs addr i hi hno).trans (h.regs addr i hi hno)
  flags := by
    obtain ⟨new, hc, hnew⟩ := h.flags
    obtain ⟨new', hc', hnew'⟩ := h'.flags
    refine ⟨new ++ new', by rw [hc', hc, List.append_assoc], ?_⟩
    exact List.forall_mem_append.mpr ⟨hnew, hnew'⟩
  shifts := by
    obtain ⟨new, hc, hnew⟩ := h.shifts
    obtain ⟨new', hc', hnew'⟩ := h'.shifts
    refine ⟨new ++ new', by rw [hc', hc, List.append_assoc], ?_⟩
    exact List.forall_mem_append.mpr ⟨hnew, hnew'⟩
  handlers i hi := (h'.handlers i hi).trans (h.handlers i hi)

/-- What belongs to another pin is left alone. -/
theorem Confined.others (h : Confined p s s') (hp : p.toNat < 40) (hq : q.toNat < 40)
    (hne : q ≠ p) (hi : i < 32) (hown : Owns q addr i) :
    (s'.regs addr).getLsbD i = (s.regs addr).getLsbD i :=
  h.regs addr i hi (owns_disjoint hq hp hne hown)

/-! ## The calls -/

/-- Where a pass finds the flag of the pin up, no other flag is up at the read that follows. -/
def Alone (p : BitVec 32) (s : Dev φ) : Prop :=
  s.tick.pending.getLsbD p.toNat = true →
    ∀ i, i < 32 → i ≠ p.toNat → s.tick.tick.pending.getLsbD i = false

/-- So it is in all passes that are left. -/
def AloneLoop (wild : BitVec 32 → Nat → BitVec 32) (p : BitVec 32) : Nat → Dev φ → Prop
  | 0, _ => True
  | n + 1, s => Alone p s ∧ AloneLoop wild p n (clearPass wild s p)

/-- The handlers called are those of the pins whose flags were read as up, each pin is looked at
once, and no flag is cleared that was not read. -/
structure Serves (s : Dev φ) (r : IsrRun φ) : Prop where
  read : r.ulIntStatus = s.tick.pending
  once : r.passes.map (·.pin) = List.range 40
  calls : ∀ pass ∈ r.passes,
    pass.called = if r.ulIntStatus.getLsbD pass.pin then pass.entry else none
  cleared : ∀ i, r.cleared.getLsbD i = true → r.ulIntStatus.getLsbD i = true

/-- The processor shifts a one out of the word. -/
def ShiftsOut (wild : BitVec 32 → Nat → BitVec 32) : Prop :=
  ∀ i, 32 ≤ i → i < 40 → wild 0x01 i = 0

/-- A call on a pin stays inside of it, one on no pin changes nothing. -/
def OnPin (p : BitVec 32) (s s' : Dev φ) : Prop :=
  if p < gpioNum then Confined p s s' else Untouched s s'

/-- What is asked of a call. -/
def Op.Ok (wild : BitVec 32 → Nat → BitVec 32) (call : φ → Nat → Dev φ → Dev φ) (s : Dev φ)
    (op : Op φ) : Prop :=
  match op with
  | config p _ | input p | output p _ | outputReverse p | intEnable p _ _ | intConfig p _ _
  | intDisable p => OnPin p s (op.run wild call s)
  | isr => Serves s (gpioIsr wild call s)

/-- What keeps a call inside. -/
def Op.Fits (wild : BitVec 32 → Nat → BitVec 32) (s : Dev φ) : Op φ → Prop
  | config _ _ | input _ => True
  | output id _ | outputReverse id => id < gpioNum
  | intEnable index mode _ => index < gpioNum →
    index < 32 ∧ AloneLoop wild index 250 (intArm wild s index (mode &&& 0x03))
  | intConfig index mode _ => index < gpioNum → index < 32 ∧ mode < 4
  | intDisable index => index < 32
  | isr => ShiftsOut wild

/-- Every call of the run fits the state it finds. -/
def FitsRun (wild : BitVec 32 → Nat → BitVec 32) (call : φ → Nat → Dev φ → Dev φ) :
    Dev φ → List (Op φ) → Prop
  | _, [] => True
  | s, op :: ops => op.Fits wild s ∧ FitsRun wild call (op.run wild call s) ops

/-- The pins before the first call. -/
def reset : Dev Unit := ⟨fun _ => 0, 0, fun _ => 0, 0, [], [], fun _ => none⟩

end TuyaSdk.Gpio
