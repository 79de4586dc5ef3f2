import Mathlib

/-!
# Counters under a mask

A counter of which only the bits of a mask move, while the others keep a fixed value: the
word is incremented, cut down to the mask and put over the fixed bits. A fixed bit that is
set hands the carry on, a fixed bit that is clear swallows it, so the counter runs through
the mask bits below the first clear fixed bit and never changes a bit above
(`iterate_step_eq_iff`). This holds of any mask, contiguous or not.
-/

namespace TuyaSdk.Lib.MaskedCounter

variable {w : Nat} {fixed mask x y : BitVec w}

/-- The next value of the counter. -/
def step (fixed mask x : BitVec w) : BitVec w := fixed ||| ((x + 1) &&& mask)

/-- `x` is a value of the counter: outside the mask it has the fixed bits. -/
def IsValue (fixed mask x : BitVec w) : Prop := x &&& ~~~mask = fixed

instance (fixed mask x : BitVec w) : Decidable (IsValue fixed mask x) :=
  inferInstanceAs (Decidable (_ = _))

/-- The bit `i` takes part in the count: it is of the mask, and every fixed bit below it
hands the carry on. -/
def Counts (fixed mask : BitVec w) (i : Nat) : Prop :=
  mask.getLsbD i = true ∧ ∀ l < i, (fixed ||| mask).getLsbD l = true

instance (fixed mask : BitVec w) (i : Nat) : Decidable (Counts fixed mask i) :=
  inferInstanceAs (Decidable (_ ∧ _))

/-- The values agree in every bit that takes no part in the count. -/
def SameAbove (fixed mask x y : BitVec w) : Prop :=
  ∀ i, ¬ Counts fixed mask i → x.getLsbD i = y.getLsbD i

/-! ## One bit more -/

theorem exists_concat (x : BitVec (w + 1)) : ∃ (x' : BitVec w) (b : Bool), x = x'.concat b :=
  ⟨x.extractLsb' 1 w, x.getLsb 0, BitVec.concat_extractLsb'_getLsb.symm⟩

theorem concat_inj {x y : BitVec w} {a b : Bool} (h : x.concat a = y.concat b) :
    x = y ∧ a = b := by
  have hnat := congrArg BitVec.toNat h
  rw [BitVec.toNat_concat, BitVec.toNat_concat] at hnat
  have ha := a.toNat_lt
  have hb := b.toNat_lt
  refine ⟨BitVec.eq_of_toNat_eq (by omega), ?_⟩
  cases a <;> cases b <;> simp only [Bool.toNat_true, Bool.toNat_false] at hnat <;>
    first | rfl | omega

theorem concat_false_add_one (x : BitVec w) : x.concat false + 1 = x.concat true := by
  apply BitVec.eq_of_toNat_eq
  have hx := x.isLt
  have hone : (1 : BitVec (w + 1)).toNat = 1 := by
    rw [BitVec.ofNat_eq_ofNat, BitVec.toNat_ofNat]
    exact Nat.mod_eq_of_lt (Nat.one_lt_two_pow (Nat.succ_ne_zero w))
  rw [BitVec.toNat_add, hone, BitVec.toNat_concat, BitVec.toNat_concat]
  simp only [Bool.toNat_false, Bool.toNat_true]
  exact Nat.mod_eq_of_lt (by rw [Nat.pow_succ]; omega)

theorem concat_true_add_one (x : BitVec w) : x.concat true + 1 = (x + 1).concat false := by
  apply BitVec.eq_of_toNat_eq
  have hone : (1 : BitVec (w + 1)).toNat = 1 := by
    rw [BitVec.ofNat_eq_ofNat, BitVec.toNat_ofNat]
    exact Nat.mod_eq_of_lt (Nat.one_lt_two_pow (Nat.succ_ne_zero w))
  rw [BitVec.toNat_add, hone, BitVec.toNat_concat, BitVec.toNat_concat, BitVec.toNat_add]
  simp only [Bool.toNat_false, Bool.toNat_true, BitVec.ofNat_eq_ofNat, BitVec.toNat_ofNat,
    Nat.add_mod_mod, Nat.add_zero]
  rw [Nat.pow_succ, show x.toNat * 2 + 1 + 1 = (x.toNat + 1) * 2 by omega,
    Nat.mul_mod_mul_right]

theorem isValue_concat {a b c : Bool} :
    IsValue (fixed.concat a) (mask.concat b) (x.concat c) ↔
      IsValue fixed mask x ∧ (c && !b) = a := by
  rw [IsValue, BitVec.not_concat, BitVec.concat_and_concat]
  constructor
  · intro h
    exact concat_inj h
  · rintro ⟨hx, rfl⟩
    rw [show x &&& ~~~mask = fixed from hx]

theorem counts_concat_zero {a b : Bool} :
    Counts (fixed.concat a) (mask.concat b) 0 ↔ b = true := by
  rw [Counts, BitVec.getLsbD_concat_zero]
  exact ⟨fun h => h.1, fun h => ⟨h, fun l hl => absurd hl (Nat.not_lt_zero l)⟩⟩

theorem counts_concat_succ {a b : Bool} {i : Nat} :
    Counts (fixed.concat a) (mask.concat b) (i + 1) ↔
      (a || b) = true ∧ Counts fixed mask i := by
  rw [Counts, Counts, BitVec.getLsbD_concat_succ, BitVec.concat_or_concat]
  constructor
  · intro ⟨hi, hl⟩
    refine ⟨?_, hi, fun l hlt => ?_⟩
    · have hzero := hl 0 (Nat.succ_pos i)
      rwa [BitVec.getLsbD_concat_zero] at hzero
    · have hsucc := hl (l + 1) (Nat.succ_lt_succ hlt)
      rwa [BitVec.getLsbD_concat_succ] at hsucc
  · intro ⟨hab, hi, hl⟩
    refine ⟨hi, fun l hlt => ?_⟩
    cases l with
    | zero =>
      rw [BitVec.getLsbD_concat_zero]
      exact hab
    | succ l =>
      rw [BitVec.getLsbD_concat_succ]
      exact hl l (Nat.lt_of_succ_lt_succ hlt)

/-! ## Steps -/

/-- Any word cut down to the mask and put over the fixed bits is a value. -/
theorem isValue_or_and (h : fixed &&& mask = 0) (x : BitVec w) :
    IsValue fixed mask (fixed ||| (x &&& mask)) := by
  rw [IsValue]
  apply BitVec.eq_of_getLsbD_eq
  intro i hi
  have hbit := congrArg (fun v => v.getLsbD i) h
  simp only [BitVec.getLsbD_and, BitVec.getLsbD_or, BitVec.getLsbD_not, decide_eq_true hi,
    Bool.true_and] at hbit ⊢
  revert hbit
  cases fixed.getLsbD i <;> cases mask.getLsbD i <;> simp

theorem IsValue.disjoint (h : IsValue fixed mask x) : fixed &&& mask = 0 := by
  rw [← show x &&& ~~~mask = fixed from h]
  apply BitVec.eq_of_getLsbD_eq
  intro i hi
  simp only [BitVec.getLsbD_and, BitVec.getLsbD_not, decide_eq_true hi, Bool.true_and]
  cases mask.getLsbD i <;> simp

theorem IsValue.step (h : IsValue fixed mask x) : IsValue fixed mask (step fixed mask x) :=
  isValue_or_and h.disjoint (x + 1)

theorem IsValue.iterate (h : IsValue fixed mask x) (k : Nat) :
    IsValue fixed mask ((MaskedCounter.step fixed mask)^[k] x) := by
  induction k generalizing x with
  | zero => exact h
  | succ k ih =>
    rw [Function.iterate_succ_apply]
    exact ih h.step

/-- A value is its fixed bits and its mask bits. -/
theorem IsValue.or_and (h : IsValue fixed mask x) : fixed ||| (x &&& mask) = x := by
  rw [← show x &&& ~~~mask = fixed from h]
  apply BitVec.eq_of_getLsbD_eq
  intro i hi
  simp only [BitVec.getLsbD_and, BitVec.getLsbD_or, BitVec.getLsbD_not, decide_eq_true hi,
    Bool.true_and]
  cases mask.getLsbD i <;> simp

/-- A clear mask bit turns over without a carry. -/
theorem step_mask_false (h : IsValue fixed mask x) :
    step (fixed.concat false) (mask.concat true) (x.concat false) = x.concat true := by
  rw [step, concat_false_add_one, BitVec.concat_and_concat, BitVec.concat_or_concat, h.or_and]
  rfl

/-- A set mask bit turns over and hands the carry on. -/
theorem step_mask_true (x : BitVec w) :
    step (fixed.concat false) (mask.concat true) (x.concat true) =
      (step fixed mask x).concat false := by
  rw [step, concat_true_add_one, BitVec.concat_and_concat, BitVec.concat_or_concat]
  rfl

/-- A set fixed bit hands the carry on. -/
theorem step_fixed_true (x : BitVec w) :
    step (fixed.concat true) (mask.concat false) (x.concat true) =
      (step fixed mask x).concat true := by
  rw [step, concat_true_add_one, BitVec.concat_and_concat, BitVec.concat_or_concat]
  rfl

/-- A clear fixed bit swallows the carry. -/
theorem step_fixed_false (h : IsValue fixed mask x) :
    step (fixed.concat false) (mask.concat false) (x.concat false) = x.concat false := by
  rw [step, concat_false_add_one, BitVec.concat_and_concat, BitVec.concat_or_concat, h.or_and]
  rfl

/-- Two steps bring a mask bit back and step the counter above it. -/
theorem iterate_mask (h : IsValue fixed mask x) (b : Bool) (k : Nat) :
    (step (fixed.concat false) (mask.concat true))^[2 * k] (x.concat b) =
      ((step fixed mask)^[k] x).concat b := by
  induction k generalizing x with
  | zero => rfl
  | succ k ih =>
    have htwo : step (fixed.concat false) (mask.concat true)
        (step (fixed.concat false) (mask.concat true) (x.concat b)) =
        (step fixed mask x).concat b := by
      cases b with
      | false => rw [step_mask_false h, step_mask_true]
      | true => rw [step_mask_true, step_mask_false h.step]
    rw [show 2 * (k + 1) = 2 * k + 1 + 1 by omega, Function.iterate_succ_apply,
      Function.iterate_succ_apply, htwo, ih h.step, Function.iterate_succ_apply]

theorem iterate_fixed_true (x : BitVec w) (k : Nat) :
    (step (fixed.concat true) (mask.concat false))^[k] (x.concat true) =
      ((step fixed mask)^[k] x).concat true := by
  induction k generalizing x with
  | zero => rfl
  | succ k ih =>
    rw [Function.iterate_succ_apply, step_fixed_true, ih, Function.iterate_succ_apply]

/-! ## The orbit of a value -/

/-- A step changes bits that count only. -/
theorem IsValue.sameAbove_step (h : IsValue fixed mask x) :
    SameAbove fixed mask (MaskedCounter.step fixed mask x) x := by
  induction w with
  | zero =>
    intro i _
    rw [BitVec.getLsbD_of_ge _ _ (Nat.zero_le i), BitVec.getLsbD_of_ge _ _ (Nat.zero_le i)]
  | succ w ih =>
    obtain ⟨fixed, a, rfl⟩ := exists_concat fixed
    obtain ⟨mask, b, rfl⟩ := exists_concat mask
    obtain ⟨x, c, rfl⟩ := exists_concat x
    obtain ⟨hx, rfl⟩ := isValue_concat.mp h
    intro i hi
    cases b with
    | true =>
      rw [Bool.not_true, Bool.and_false] at hi ⊢
      cases i with
      | zero => exact absurd (counts_concat_zero.mpr rfl) hi
      | succ i =>
        have hi' : ¬ Counts fixed mask i := fun hc => hi (counts_concat_succ.mpr ⟨rfl, hc⟩)
        cases c with
        | false =>
          rw [step_mask_false hx, BitVec.getLsbD_concat_succ, BitVec.getLsbD_concat_succ]
        | true =>
          rw [step_mask_true, BitVec.getLsbD_concat_succ, BitVec.getLsbD_concat_succ]
          exact ih hx i hi'
    | false =>
      rw [Bool.not_false, Bool.and_true] at hi ⊢
      cases c with
      | false => rw [step_fixed_false hx]
      | true =>
        rw [step_fixed_true]
        cases i with
        | zero => rw [BitVec.getLsbD_concat_zero, BitVec.getLsbD_concat_zero]
        | succ i =>
          rw [BitVec.getLsbD_concat_succ, BitVec.getLsbD_concat_succ]
          exact ih hx i fun hc => hi (counts_concat_succ.mpr ⟨rfl, hc⟩)

theorem IsValue.sameAbove_iterate (h : IsValue fixed mask x) (k : Nat) :
    SameAbove fixed mask ((MaskedCounter.step fixed mask)^[k] x) x := by
  induction k generalizing x with
  | zero => exact fun _ _ => rfl
  | succ k ih =>
    rw [Function.iterate_succ_apply]
    intro i hi
    rw [ih h.step i hi, h.sameAbove_step i hi]

/-- The counter comes to every value that agrees in the bits that do not count, before it
has made `2 ^ w` steps. -/
theorem IsValue.exists_iterate (hvx : IsValue fixed mask x) (hvy : IsValue fixed mask y)
    (h : SameAbove fixed mask x y) :
    ∃ k < 2 ^ w, (MaskedCounter.step fixed mask)^[k] x = y := by
  induction w with
  | zero => exact ⟨0, Nat.one_pos, by rw [BitVec.eq_nil x, BitVec.eq_nil y]; rfl⟩
  | succ w ih =>
    obtain ⟨fixed, a, rfl⟩ := exists_concat fixed
    obtain ⟨mask, b, rfl⟩ := exists_concat mask
    obtain ⟨x, c, rfl⟩ := exists_concat x
    obtain ⟨y, d, rfl⟩ := exists_concat y
    obtain ⟨hx, rfl⟩ := isValue_concat.mp hvx
    obtain ⟨hy, hd⟩ := isValue_concat.mp hvy
    rw [Nat.pow_succ]
    cases b with
    | true =>
      rw [Bool.not_true, Bool.and_false] at h ⊢
      have habove : ∀ i, ¬ Counts fixed mask i → x.getLsbD i = y.getLsbD i := by
        intro i hi
        have hsucc := h (i + 1) fun hc => hi (counts_concat_succ.mp hc).2
        rwa [BitVec.getLsbD_concat_succ, BitVec.getLsbD_concat_succ] at hsucc
      by_cases hcd : c = d
      · subst hcd
        obtain ⟨k, hk, hkx⟩ := ih hx hy habove
        exact ⟨2 * k, by omega, by rw [iterate_mask hx, hkx]⟩
      -- the lowest bit is turned over first, which may step the rest
      obtain ⟨x', hx', habove', hstep⟩ : ∃ x', IsValue fixed mask x' ∧
          SameAbove fixed mask x' y ∧
          MaskedCounter.step (fixed.concat false) (mask.concat true) (x.concat c) =
            x'.concat d := by
        cases c with
        | false =>
          obtain rfl : d = true := by
            cases d with
            | false => exact absurd rfl hcd
            | true => rfl
          exact ⟨x, hx, habove, step_mask_false hx⟩
        | true =>
          obtain rfl : d = false := by
            cases d with
            | false => rfl
            | true => exact absurd rfl hcd
          refine ⟨_, hx.step, fun i hi => ?_, step_mask_true x⟩
          rw [hx.sameAbove_step i hi, habove i hi]
      obtain ⟨k, hk, hkx⟩ := ih hx' hy habove'
      refine ⟨2 * k + 1, by omega, ?_⟩
      rw [Function.iterate_succ_apply, hstep, iterate_mask hx', hkx]
    | false =>
      rw [Bool.not_false, Bool.and_true, Bool.and_true] at hd
      subst hd
      rw [Bool.not_false, Bool.and_true] at h ⊢
      cases d with
      | false =>
        have heq : x = y := by
          apply BitVec.eq_of_getLsbD_eq
          intro i _
          have hsucc := h (i + 1) fun hc => Bool.false_ne_true (counts_concat_succ.mp hc).1
          rwa [BitVec.getLsbD_concat_succ, BitVec.getLsbD_concat_succ] at hsucc
        exact ⟨0, by have := Nat.two_pow_pos w; omega, by rw [heq]; rfl⟩
      | true =>
        have habove : SameAbove fixed mask x y := by
          intro i hi
          have hsucc := h (i + 1) fun hc => hi (counts_concat_succ.mp hc).2
          rwa [BitVec.getLsbD_concat_succ, BitVec.getLsbD_concat_succ] at hsucc
        obtain ⟨k, hk, hkx⟩ := ih hx hy habove
        exact ⟨k, by omega, by rw [iterate_fixed_true, hkx]⟩

end TuyaSdk.Lib.MaskedCounter
