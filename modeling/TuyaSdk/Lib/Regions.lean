import Mathlib

/-!
# Disjoint regions of an address space

A region is a start and a length. Regions that lie apart inside `[a, b)` have no more
bytes together than `[a, b)` has (`sum_length_le`), so that counters over disjoint regions
do not wrap.
-/

namespace TuyaSdk.Lib

/-- The regions `[lo, lo + len)` and `[lo', lo' + len')` do not overlap. -/
def Apart (lo len lo' len' : Nat) : Prop := lo + len ≤ lo' ∨ lo' + len' ≤ lo

instance (lo len lo' len' : Nat) : Decidable (Apart lo len lo' len') :=
  inferInstanceAs (Decidable (_ ∨ _))

theorem Apart.symm {lo len lo' len' : Nat} (h : Apart lo len lo' len') :
    Apart lo' len' lo len := Or.symm h

/-- Apart regions have no byte in common. -/
theorem Apart.not_mem {lo len lo' len' x : Nat} (h : Apart lo len lo' len') (h1 : lo ≤ x)
    (h2 : x < lo + len) : x < lo' ∨ lo' + len' ≤ x := by
  rcases h with h | h
  · exact Or.inl (h2.trans_le h)
  · exact Or.inr (h.trans h1)

/-- Disjoint regions inside `[a, b)` have at most `b - a` bytes. -/
theorem sum_length_le {ι : Type*} [Fintype ι] [DecidableEq ι] {lo len : ι → Nat} {a b : Nat}
    (hin : ∀ i, 0 < len i → a ≤ lo i ∧ lo i + len i ≤ b)
    (hapart : ∀ i j, i ≠ j → 0 < len i → 0 < len j → Apart (lo i) (len i) (lo j) (len j)) :
    ∑ i, len i ≤ b - a := by
  have hmem : ∀ i x, x ∈ Finset.Ico (lo i) (lo i + len i) → 0 < len i ∧ lo i ≤ x ∧
      x < lo i + len i := by
    intro i x hx
    have := Finset.mem_Ico.mp hx
    omega
  have hdisj : ((Finset.univ : Finset ι) : Set ι).PairwiseDisjoint
      fun i => Finset.Ico (lo i) (lo i + len i) := by
    intro i _ j _ hij
    rw [Function.onFun, Finset.disjoint_left]
    intro x hxi hxj
    obtain ⟨hi, h1, h2⟩ := hmem i x hxi
    obtain ⟨hj, h3, h4⟩ := hmem j x hxj
    rcases (hapart i j hij hi hj).not_mem h1 h2 with h | h <;> omega
  have hcard := Finset.card_biUnion hdisj
  simp only [Nat.card_Ico, Nat.add_sub_cancel_left] at hcard
  rw [← hcard, ← Nat.card_Ico]
  apply Finset.card_le_card
  intro x hx
  obtain ⟨i, -, hxi⟩ := Finset.mem_biUnion.mp hx
  obtain ⟨hi, h1, h2⟩ := hmem i x hxi
  obtain ⟨h3, h4⟩ := hin i hi
  exact Finset.mem_Ico.mpr ⟨h3.trans h1, h2.trans_le h4⟩

/-- Two families that agree outside `i` have sums that differ as their members at `i` do. -/
theorem sum_add_at {ι : Type*} [Fintype ι] [DecidableEq ι] {f g : ι → Nat} (i : ι)
    (h : ∀ j, j ≠ i → g j = f j) : ∑ j, g j + f i = ∑ j, f j + g i := by
  rw [Fintype.sum_eq_add_sum_compl i f, Fintype.sum_eq_add_sum_compl i g]
  have hrest : ∑ j ∈ ({i} : Finset ι)ᶜ, g j = ∑ j ∈ ({i} : Finset ι)ᶜ, f j := by
    apply Finset.sum_congr rfl
    intro j hj
    exact h j (by simpa using hj)
  rw [hrest]
  omega

end TuyaSdk.Lib
