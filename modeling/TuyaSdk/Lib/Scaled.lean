import Mathlib

/-!
# Products scaled down behind a word

A fraction `d / k` of a count `c`, computed as a product modulo `m` and then a division: it is
right just when the product fits (`scaled_eq_iff`). A fraction that wrapped leaves at least as
much of the count as any product that fits comes to (`scaled_add_le_of_wrapped`), so that no check
of a sum finds it out.
-/

namespace TuyaSdk.Lib

variable {m k d c : Nat}

/-- `d * c / k`, with the product modulo `m`. -/
def scaled (m k d c : Nat) : Nat := d * c % m / k

theorem scaled_of_lt (h : d * c < m) : scaled m k d c = d * c / k := by
  rw [scaled, Nat.mod_eq_of_lt h]

theorem scaled_le (hd : d ≤ k) (hk : 0 < k) : scaled m k d c ≤ c := by
  have hmul : d * c ≤ k * c := Nat.mul_le_mul_right c hd
  calc d * c % m / k
      ≤ d * c / k := Nat.div_le_div_right (Nat.mod_le _ _)
    _ ≤ k * c / k := Nat.div_le_div_right hmul
    _ = c := Nat.mul_div_cancel_left c hk

theorem scaled_mul_lt (hm : 0 < m) : scaled m k d c * k < m :=
  Nat.lt_of_le_of_lt (Nat.div_mul_le_self _ _) (Nat.mod_lt _ hm)

/-- What a product that wrapped still comes to. -/
theorem scaled_mul_add_le (h : m ≤ d * c) : scaled m k d c * k + m ≤ d * c := by
  have hrest : d * c % m + m ≤ d * c := by
    rcases Nat.eq_zero_or_pos m with rfl | hm
    · rw [Nat.mod_zero, Nat.add_zero]
    · rw [Nat.mod_eq_sub_mod h]
      have hle := Nat.mod_le (d * c - m) m
      omega
  have hdown : scaled m k d c * k ≤ d * c % m := Nat.div_mul_le_self _ _
  omega

/-- The product has to fit, as one that wrapped has lost more than `k`. -/
theorem scaled_eq_iff (hk : 0 < k) (hkm : k ≤ m) : scaled m k d c = d * c / k ↔ d * c < m := by
  refine ⟨fun heq => ?_, scaled_of_lt⟩
  by_contra hwrap
  have hle := scaled_mul_add_le (k := k) (Nat.le_of_not_lt hwrap)
  have hdiv := Nat.div_add_mod (d * c) k
  have hmod := Nat.mod_lt (d * c) hk
  rw [heq, Nat.mul_comm] at hle
  omega

/-- A fraction that wrapped and any other stay below the count together. -/
theorem scaled_add_le_of_wrapped (hd : d ≤ k) (hm : 0 < m) (hk : 0 < k) (hwrap : m ≤ d * c)
    (d' c' : Nat) : scaled m k d c + scaled m k d' c' ≤ c := by
  have hfirst := scaled_mul_add_le (k := k) hwrap
  have hsecond := scaled_mul_lt (k := k) (d := d') (c := c') hm
  have hmul : d * c ≤ c * k := by
    rw [Nat.mul_comm c]
    exact Nat.mul_le_mul_right c hd
  refine Nat.le_of_mul_le_mul_right ?_ hk
  rw [Nat.add_mul]
  omega

end TuyaSdk.Lib
