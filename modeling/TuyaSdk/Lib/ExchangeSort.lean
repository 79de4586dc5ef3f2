import Mathlib

/-!
# Exchange sort

The two nested loops of an exchange sort in descending order. The inner loop compares the
element of one place with every later one and swaps the two when the later one is larger: on
the elements from that place on, it carries the largest to the front.
-/

namespace TuyaSdk.Lib

variable {α β : Type*} [LinearOrder β]

/-- The inner loop for the element `x` at its place and the later elements. -/
def exchange (key : α → β) (x : α) : List α → α × List α
  | [] => (x, [])
  | y :: ys =>
    if key x < key y then
      let r := exchange key y ys
      (r.1, x :: r.2)
    else
      let r := exchange key x ys
      (r.1, y :: r.2)

/-- The outer loop with the number of rounds left. -/
def exchangeRounds (key : α → β) : Nat → List α → List α
  | 0, xs => xs
  | _ + 1, [] => []
  | n + 1, x :: xs => (exchange key x xs).1 :: exchangeRounds key n (exchange key x xs).2

/-- The sort of the whole list: one round less than there are elements. -/
def exchangeSort (key : α → β) (xs : List α) : List α := exchangeRounds key (xs.length - 1) xs

variable {key : α → β}

theorem exchange_perm (x : α) (xs : List α) :
    ((exchange key x xs).1 :: (exchange key x xs).2).Perm (x :: xs) := by
  induction xs generalizing x with
  | nil => exact List.Perm.refl _
  | cons y ys ih =>
    rw [exchange]
    split
    · exact (List.Perm.swap x _ _).trans ((ih y).cons x)
    · calc (exchange key x ys).1 :: y :: (exchange key x ys).2
        _ |>.Perm (y :: (exchange key x ys).1 :: (exchange key x ys).2) := List.Perm.swap y _ _
        _ |>.Perm (y :: x :: ys) := (ih x).cons y
        _ |>.Perm (x :: y :: ys) := List.Perm.swap x y ys

theorem exchange_max (x : α) (xs : List α) :
    key x ≤ key (exchange key x xs).1 ∧
      ∀ y ∈ (exchange key x xs).2, key y ≤ key (exchange key x xs).1 := by
  induction xs generalizing x with
  | nil => exact ⟨le_rfl, fun y hy => absurd hy (by simp [exchange])⟩
  | cons y ys ih =>
    rw [exchange]
    split
    · next hlt =>
      obtain ⟨hy, hys⟩ := ih y
      refine ⟨hlt.le.trans hy, fun z hz => ?_⟩
      rcases List.mem_cons.mp hz with rfl | hz
      · exact hlt.le.trans hy
      · exact hys z hz
    · next hle =>
      obtain ⟨hx, hys⟩ := ih x
      refine ⟨hx, fun z hz => ?_⟩
      rcases List.mem_cons.mp hz with rfl | hz
      · exact (not_lt.mp hle).trans hx
      · exact hys z hz

theorem exchange_length (x : α) (xs : List α) : (exchange key x xs).2.length = xs.length := by
  have hperm : ((exchange key x xs).1 :: (exchange key x xs).2).Perm (x :: xs) := exchange_perm x xs
  simpa using hperm.length_eq

theorem exchangeRounds_perm (n : Nat) (xs : List α) : (exchangeRounds key n xs).Perm xs := by
  induction n generalizing xs with
  | zero => exact List.Perm.refl xs
  | succ n ih =>
    cases xs with
    | nil => exact List.Perm.refl []
    | cons x xs => exact ((ih _).cons _).trans (exchange_perm x xs)

theorem exchangeRounds_sorted {n : Nat} {xs : List α} (h : xs.length ≤ n + 1) :
    (exchangeRounds key n xs).Pairwise fun a b => key b ≤ key a := by
  induction n generalizing xs with
  | zero =>
    match xs, h with
    | [], _ => exact List.Pairwise.nil
    | [x], _ => exact List.pairwise_singleton _ x
  | succ n ih =>
    cases xs with
    | nil => exact List.Pairwise.nil
    | cons x xs =>
      have hlen : (exchange key x xs).2.length ≤ n + 1 := by
        rw [exchange_length]
        simpa using h
      refine List.pairwise_cons.mpr ⟨fun y hy => ?_, ih hlen⟩
      exact (exchange_max x xs).2 y ((exchangeRounds_perm n _).mem_iff.mp hy)

section Map

variable {γ : Type*} (f : γ → α)

theorem exchange_map (x : γ) (xs : List γ) :
    exchange key (f x) (xs.map f) =
      (f (exchange (fun c => key (f c)) x xs).1, (exchange (fun c => key (f c)) x xs).2.map f) := by
  induction xs generalizing x with
  | nil => rfl
  | cons y ys ih =>
    rw [List.map_cons, exchange, exchange]
    split
    · rw [ih y]
      rfl
    · rw [ih x]
      rfl

theorem exchangeRounds_map (n : Nat) (xs : List γ) :
    exchangeRounds key n (xs.map f) = (exchangeRounds (fun c => key (f c)) n xs).map f := by
  induction n generalizing xs with
  | zero => rfl
  | succ n ih =>
    cases xs with
    | nil => rfl
    | cons x xs =>
      rw [List.map_cons, exchangeRounds, exchangeRounds, exchange_map, ih]
      rfl

/-- Sorting what stands for the elements sorts the elements. -/
theorem exchangeSort_map (xs : List γ) :
    exchangeSort key (xs.map f) = (exchangeSort (fun c => key (f c)) xs).map f := by
  rw [exchangeSort, List.length_map, exchangeRounds_map]
  rfl

end Map

theorem exchangeSort_perm (xs : List α) : (exchangeSort key xs).Perm xs :=
  exchangeRounds_perm _ xs

theorem exchangeSort_sorted (xs : List α) :
    (exchangeSort key xs).Pairwise fun a b => key b ≤ key a :=
  exchangeRounds_sorted (by omega)

end TuyaSdk.Lib
