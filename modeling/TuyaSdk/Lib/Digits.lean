import Mathlib

/-!
# Digits, most significant first

The number that a list of digits stands for in base `b`, and the digits of a number. An
accumulator that multiplies and adds modulo `m` comes to the number modulo `m`
(`foldl_mod_fromDigits`), so that it is right just when the number is below `m`.
-/

namespace TuyaSdk.Lib

variable {b m : Nat}

/-- The number with the digits `l`. -/
def fromDigits (b : Nat) (l : List Nat) : Nat := l.foldl (fun v d => v * b + d) 0

/-- The digits of `n`: zero has one. -/
def toDigits (b n : Nat) : List Nat := if n = 0 then [0] else (b.digits n).reverse

@[simp] theorem fromDigits_nil : fromDigits b [] = 0 := rfl

@[simp] theorem fromDigits_concat (l : List Nat) (d : Nat) :
    fromDigits b (l ++ [d]) = fromDigits b l * b + d := by
  rw [fromDigits, List.foldl_append]
  rfl

theorem fromDigits_reverse (l : List Nat) : fromDigits b l.reverse = Nat.ofDigits b l := by
  induction l with
  | nil => rfl
  | cons d l ih => rw [List.reverse_cons, fromDigits_concat, ih, Nat.ofDigits_cons,
      Nat.add_comm, Nat.mul_comm]

theorem fromDigits_toDigits (n : Nat) : fromDigits b (toDigits b n) = n := by
  rw [toDigits]
  split
  next h =>
    rw [h]
    exact Nat.zero_mul b
  next => rw [fromDigits_reverse, Nat.ofDigits_digits]

theorem toDigits_ne_zero {n : Nat} (hn : n ≠ 0) : toDigits b n = (b.digits n).reverse := if_neg hn

theorem lt_base_of_mem_toDigits (hb : 1 < b) {n d : Nat} (hd : d ∈ toDigits b n) : d < b := by
  by_cases hn : n = 0
  · rw [toDigits, if_pos hn, List.mem_singleton] at hd
    omega
  · rw [toDigits_ne_zero hn, List.mem_reverse] at hd
    exact Nat.digits_lt_base hb hd

theorem length_toDigits_pos (n : Nat) : 0 < (toDigits b n).length := by
  rw [toDigits]
  split
  next => exact Nat.one_pos
  next hn =>
    rw [List.length_reverse]
    exact List.length_pos_of_ne_nil (Nat.digits_ne_nil_iff_ne_zero.mpr hn)

/-- The digits of a number that is divided by the base. -/
theorem length_toDigits_div (hb : 1 < b) {n : Nat} (hn : n / b ≠ 0) :
    (toDigits b n).length = (toDigits b (n / b)).length + 1 := by
  have hpos : n ≠ 0 := by
    rintro rfl
    exact hn (Nat.zero_div b)
  rw [toDigits_ne_zero hpos, toDigits_ne_zero hn, List.length_reverse, List.length_reverse,
    Nat.digits_def' hb (Nat.pos_of_ne_zero hpos), List.length_cons]

theorem length_toDigits_of_lt (hb : 1 < b) {n : Nat} (hn : n / b = 0) :
    (toDigits b n).length = 1 := by
  rw [toDigits]
  split
  next => rfl
  next hne =>
    rw [Nat.digits_def' hb (Nat.pos_of_ne_zero hne), hn, Nat.digits_zero]
    rfl

/-- An accumulator with the sum reduced in each step. -/
theorem foldl_mod_fromDigits (l : List Nat) :
    l.foldl (fun v d => (v * b + d) % m) 0 = fromDigits b l % m := by
  induction l using List.reverseRecOn with
  | nil => exact (Nat.zero_mod m).symm
  | append_singleton l d ih =>
    rw [List.foldl_append, ih, fromDigits_concat]
    change (fromDigits b l % m * b + d) % m = _
    rw [Nat.add_mod, Nat.mod_mul_mod, ← Nat.add_mod]

end TuyaSdk.Lib
