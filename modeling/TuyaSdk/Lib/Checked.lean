import Mathlib

/-!
# Checked accesses to arrays of a fixed length

The memory accesses of a C function over arrays whose length is part of their type: `none` is
an access outside the array, or a shift by the width of its operand or more. A program in
which every access goes through `read`, `write` and `shl` returns `some` exactly when all of
its accesses are legal, and `isSome_bind` takes that question apart one access at a time.
-/

namespace TuyaSdk.Lib.Checked

universe u

variable {α β : Type u} {n m : Nat}

/-- `xs[i]`. -/
def read (xs : Vector α n) (i : Nat) : Option α := xs[i]?

/-- `xs[i] = a`. -/
def write (xs : Vector α n) (i : Nat) (a : α) : Option (Vector α n) :=
  if h : i < n then some (xs.set i a h) else none

/-- `xs[i] = f(xs[i])`. -/
def modify (xs : Vector α n) (i : Nat) (f : α → α) : Option (Vector α n) := do
  let a ← read xs i
  write xs i (f a)

/-- `a << k` for an operand of `w` bits. -/
def shl (w a k : Nat) : Option Nat := if k < w then some (a <<< k) else none

/-- `memcpy(xs + i, ys + j, k)`. -/
def copy (xs : Vector α n) (i : Nat) (ys : Vector α m) (j : Nat) : Nat → Option (Vector α n)
  | 0 => some xs
  | k + 1 => do
    let xs ← copy xs i ys j k
    let a ← read ys (j + k)
    write xs (i + k) a

/-- The reads `xs[i], …, xs[i + k - 1]` of a loop. -/
def readAll (xs : Vector α n) (i : Nat) : Nat → Option (List α)
  | 0 => some []
  | k + 1 => do
    let a ← read xs i
    let as ← readAll xs (i + 1) k
    return a :: as

theorem isSome_bind {x : Option α} {f : α → Option β} :
    (x >>= f).isSome ↔ ∃ a, x = some a ∧ (f a).isSome := by
  cases x with
  | none => simp
  | some a => simp

theorem read_eq {xs : Vector α n} {i : Nat} (h : i < n) : read xs i = some xs[i] :=
  Vector.getElem?_eq_getElem h

theorem read_isSome {xs : Vector α n} {i : Nat} : (read xs i).isSome ↔ i < n := by
  simp [read]

theorem write_eq {xs : Vector α n} {i : Nat} {a : α} (h : i < n) :
    write xs i a = some (xs.set i a h) := by
  simp [write, h]

theorem write_isSome {xs : Vector α n} {i : Nat} {a : α} : (write xs i a).isSome ↔ i < n := by
  unfold write
  split <;> simp_all

theorem read_write {xs ys : Vector α n} {i : Nat} {a : α} (h : write xs i a = some ys) (j : Nat) :
    read ys j = if j = i then some a else read xs j := by
  have hi : i < n := write_isSome.mp (by rw [h]; rfl)
  rw [write_eq hi] at h
  cases h
  split
  · next hji =>
    subst hji
    exact Vector.getElem?_set_self hi
  · next hji => exact Vector.getElem?_set_ne hi (Ne.symm hji)

theorem modify_eq {xs : Vector α n} {i : Nat} {f : α → α} (h : i < n) :
    modify xs i f = some (xs.set i (f xs[i]) h) := by
  rw [modify, read_eq h]
  exact write_eq h

theorem modify_isSome {xs : Vector α n} {i : Nat} {f : α → α} :
    (modify xs i f).isSome ↔ i < n := by
  refine ⟨fun h => ?_, fun h => by rw [modify_eq h]; rfl⟩
  obtain ⟨a, ha, -⟩ := isSome_bind.mp h
  exact read_isSome.mp (by rw [ha]; rfl)

theorem modify_some (xs : Vector α n) {i : Nat} (f : α → α) (h : i < n) :
    ∃ ys, modify xs i f = some ys :=
  Option.isSome_iff_exists.mp (modify_isSome.mpr h)

theorem read_modify {xs ys : Vector α n} {i : Nat} {f : α → α} (h : modify xs i f = some ys)
    (j : Nat) : read ys j = if j = i then (read xs j).map f else read xs j := by
  obtain ⟨a, ha, hw⟩ := Option.bind_eq_some_iff.mp h
  rw [read_write hw]
  split
  · next hji => rw [hji, ha, Option.map_some]
  · rfl

theorem shl_isSome {w a k : Nat} : (shl w a k).isSome ↔ k < w := by
  unfold shl
  split <;> simp_all

theorem shl_eq {w a k : Nat} (h : k < w) : shl w a k = some (a <<< k) := by
  simp [shl, h]

theorem copy_read {xs : Vector α n} {i : Nat} {ys : Vector α m} {j k : Nat} (hi : i + k ≤ n)
    (hj : j + k ≤ m) :
    ∃ zs, copy xs i ys j k = some zs ∧
      ∀ p, read zs p = if i ≤ p ∧ p < i + k then read ys (j + (p - i)) else read xs p := by
  induction k with
  | zero => exact ⟨xs, rfl, fun p => by rw [if_neg (by omega)]⟩
  | succ k ih =>
    obtain ⟨zs, hz, hread⟩ := ih (by omega) (by omega)
    have hjk : j + k < m := by omega
    have hy : read ys (j + k) = some ys[j + k] := read_eq hjk
    obtain ⟨ws, hw⟩ : ∃ ws, write zs (i + k) ys[j + k] = some ws :=
      ⟨_, write_eq (show i + k < n by omega)⟩
    refine ⟨ws, ?_, fun p => ?_⟩
    · simp only [copy, hz, hy, hw, Option.bind_eq_bind, Option.bind_some]
    · rw [read_write hw, hread]
      by_cases hp : p = i + k
      · rw [if_pos hp, if_pos (by omega), hp, Nat.add_sub_cancel_left, hy]
      · rw [if_neg hp]
        by_cases hin : i ≤ p ∧ p < i + k
        · rw [if_pos hin, if_pos (by omega)]
        · rw [if_neg hin, if_neg (by omega)]

theorem copy_isSome {xs : Vector α n} {i : Nat} {ys : Vector α m} {j k : Nat} (hi : i + k ≤ n)
    (hj : j + k ≤ m) : (copy xs i ys j k).isSome := by
  obtain ⟨zs, hz, -⟩ := copy_read hi hj
  rw [hz]
  rfl

theorem readAll_eq {xs : Vector α n} {i k : Nat} (h : i + k ≤ n) :
    readAll xs i k = some ((xs.toList.drop i).take k) := by
  induction k generalizing i with
  | zero => rfl
  | succ k ih =>
    rw [readAll, read_eq (by omega), ih (by omega)]
    have hi : i < xs.toList.length := by
      rw [Vector.length_toList]
      omega
    rw [List.drop_eq_getElem_cons hi, List.take_succ_cons]
    simp

end TuyaSdk.Lib.Checked
