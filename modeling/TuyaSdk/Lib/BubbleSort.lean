import Mathlib

/-!
# Bubble sort

An array is a function of the index. A pass compares the elements of neighbouring places and carries
the largest of the first `m + 1` to place `m`; a pass for every `m` from the last place down to the
second sorts the array. Elements are compared by a key, so that the order of the keys may be either
direction.
-/

namespace TuyaSdk.Lib

variable {α β : Type*} [LinearOrder β] (key : α → β)

/-- The elements of the places `i` and `i + 1` are exchanged if they are out of order. -/
def bubbleStep (f : Nat → α) (i : Nat) : Nat → α :=
  if key (f (i + 1)) < key (f i) then fun x => f (Equiv.swap i (i + 1) x) else f

/-- The inner loop. -/
def bubblePass (f : Nat → α) (m : Nat) : Nat → α := (List.range m).foldl (bubbleStep key) f

/-- The outer loop, over the first `n` places. -/
def bubbleSort (f : Nat → α) (n : Nat) : Nat → α :=
  (List.range' 1 (n - 1)).foldl (fun f j => bubblePass key f (n - j)) f

/-! ## Rearrangements -/

/-- The first `n` elements are rearranged, and no other one is changed. -/
def Rearranged (n : Nat) (f f' : Nat → α) : Prop :=
  ∃ σ : Equiv.Perm Nat, (∀ x, n ≤ x → σ x = x) ∧ ∀ x, f' x = f (σ x)

namespace Rearranged

variable {n m : Nat} {f f' f'' : Nat → α}

theorem refl (n : Nat) (f : Nat → α) : Rearranged n f f := ⟨1, fun _ _ => rfl, fun _ => rfl⟩

theorem trans (h : Rearranged n f f') (h' : Rearranged n f' f'') : Rearranged n f f'' := by
  obtain ⟨σ, hfix, hσ⟩ := h
  obtain ⟨τ, hfix', hτ⟩ := h'
  refine ⟨σ * τ, fun x hx => ?_, fun x => ?_⟩
  · rw [Equiv.Perm.mul_apply, hfix' x hx, hfix x hx]
  · rw [hτ, hσ, Equiv.Perm.mul_apply]

theorem mono (h : Rearranged n f f') (hle : n ≤ m) : Rearranged m f f' := by
  obtain ⟨σ, hfix, hσ⟩ := h
  exact ⟨σ, fun x hx => hfix x (hle.trans hx), hσ⟩

theorem outside (h : Rearranged n f f') {x : Nat} (hx : n ≤ x) : f' x = f x := by
  obtain ⟨σ, hfix, hσ⟩ := h
  rw [hσ, hfix x hx]

/-- An element of the first places comes from one of them. -/
theorem origin (h : Rearranged n f f') {x : Nat} (hx : x < n) : ∃ y < n, f' x = f y := by
  obtain ⟨σ, hfix, hσ⟩ := h
  refine ⟨σ x, ?_, hσ x⟩
  by_contra hge
  have hfixed : σ (σ x) = σ x := hfix _ (Nat.le_of_not_lt hge)
  exact hge (by rwa [σ.injective hfixed])

/-- The elements as lists. -/
theorem perm (h : Rearranged n f f') : ((List.range n).map f').Perm ((List.range n).map f) := by
  obtain ⟨σ, hfix, hσ⟩ := h
  have hmap : (List.range n).map f' = ((List.range n).map σ).map f := by
    rw [List.map_map]
    exact List.map_congr_left fun x _ => hσ x
  rw [hmap]
  refine List.Perm.map f ?_
  refine (List.perm_ext_iff_of_nodup (List.nodup_range.map σ.injective) List.nodup_range).mpr ?_
  intro x
  rw [List.mem_map]
  constructor
  · rintro ⟨y, hy, rfl⟩
    by_contra hge
    have hle : n ≤ σ y := Nat.le_of_not_lt fun hlt => hge (List.mem_range.mpr hlt)
    have hfixed : σ (σ y) = σ y := hfix _ hle
    exact hge (by rwa [σ.injective hfixed])
  · intro hx
    refine ⟨σ.symm x, ?_, σ.apply_symm_apply x⟩
    by_contra hge
    have hle : n ≤ σ.symm x := Nat.le_of_not_lt fun hlt => hge (List.mem_range.mpr hlt)
    have hfixed : σ (σ.symm x) = σ.symm x := hfix _ hle
    rw [σ.apply_symm_apply] at hfixed
    rw [← hfixed] at hge
    exact hge hx

end Rearranged

/-! ## Passes -/

variable {key} {f : Nat → α} {i m n x : Nat}

theorem bubbleStep_rearranged (hi : i + 1 < n) : Rearranged n f (bubbleStep key f i) := by
  unfold bubbleStep
  split
  · refine ⟨Equiv.swap i (i + 1), fun x hx => ?_, fun x => rfl⟩
    exact Equiv.swap_apply_of_ne_of_ne (by omega) (by omega)
  · exact Rearranged.refl n f

theorem bubblePass_succ (f : Nat → α) (m : Nat) :
    bubblePass key f (m + 1) = bubbleStep key (bubblePass key f m) m := by
  unfold bubblePass
  rw [List.range_succ, List.foldl_append]
  rfl

theorem bubblePass_rearranged (f : Nat → α) (m : Nat) :
    Rearranged (m + 1) f (bubblePass key f m) := by
  induction m with
  | zero => exact Rearranged.refl 1 f
  | succ m ih =>
    rw [bubblePass_succ]
    exact (ih.mono (Nat.le_succ _)).trans (bubbleStep_rearranged (by omega))

/-- A pass leaves the largest element of its places at the last of them. -/
theorem bubblePass_max (f : Nat → α) (m : Nat) :
    ∀ x ≤ m, key (bubblePass key f m x) ≤ key (bubblePass key f m m) := by
  induction m with
  | zero =>
    intro x hx
    rw [Nat.le_zero.mp hx]
  | succ m ih =>
    intro x hx
    rw [bubblePass_succ]
    obtain ⟨g, hg⟩ : ∃ g, g = bubblePass key f m := ⟨_, rfl⟩
    rw [← hg] at ih ⊢
    unfold bubbleStep
    split
    · next hlt =>
      show key (g (Equiv.swap m (m + 1) x)) ≤ key (g (Equiv.swap m (m + 1) (m + 1)))
      rw [Equiv.swap_apply_right]
      rcases Nat.lt_or_ge x m with hxm | hxm
      · rw [Equiv.swap_apply_of_ne_of_ne (by omega) (by omega)]
        exact ih x hxm.le
      · rcases Nat.eq_or_lt_of_le hxm with rfl | hxm
        · rw [Equiv.swap_apply_left]
          exact hlt.le
        · rw [show x = m + 1 by omega, Equiv.swap_apply_right]
    · next hle =>
      rcases Nat.eq_or_lt_of_le hx with rfl | hxm
      · exact le_rfl
      · exact (ih x (by omega)).trans (not_lt.mp hle)

/-- The last `k` of the first `n` elements are in order, and no smaller than the others. -/
def Settled (key : α → β) (n : Nat) (f : Nat → α) (k : Nat) : Prop :=
  ∀ x y, x < y → n - k ≤ y → y < n → key (f x) ≤ key (f y)

theorem settled_zero (f : Nat → α) : Settled key n f 0 := fun x y _ hle hlt => by omega

/-- A pass settles one more. -/
theorem Settled.pass {k : Nat} (h : Settled key n f k) (hk : k + 1 < n) :
    Settled key n (bubblePass key f (n - (k + 1))) (k + 1) := by
  intro x y hxy hlo hhi
  have hr : Rearranged (n - (k + 1) + 1) f (bubblePass key f (n - (k + 1))) :=
    bubblePass_rearranged f _
  rcases Nat.eq_or_lt_of_le hlo with rfl | hlo
  · exact bubblePass_max f _ x hxy.le
  · rw [hr.outside (show n - (k + 1) + 1 ≤ y by omega)]
    rcases Nat.lt_or_ge (n - (k + 1)) x with hx | hx
    · rw [hr.outside (show n - (k + 1) + 1 ≤ x by omega)]
      exact h x y hxy (by omega) hhi
    · obtain ⟨z, hz, heq⟩ := hr.origin (show x < n - (k + 1) + 1 by omega)
      rw [heq]
      exact h z y (by omega) (by omega) hhi

/-- The first `k` passes. -/
theorem bubble_passes (f : Nat → α) {k : Nat} (hk : k + 1 ≤ n ∨ k = 0) :
    Rearranged n f ((List.range' 1 k).foldl (fun f j => bubblePass key f (n - j)) f) ∧
      Settled key n ((List.range' 1 k).foldl (fun f j => bubblePass key f (n - j)) f) k := by
  induction k with
  | zero => exact ⟨Rearranged.refl n f, settled_zero f⟩
  | succ k ih =>
    obtain ⟨hr, hs⟩ := ih (by omega)
    rw [List.range'_concat, List.foldl_append, Nat.one_mul, Nat.add_comm 1 k]
    have hpass : Rearranged (n - (k + 1) + 1) _ (bubblePass key
        ((List.range' 1 k).foldl (fun f j => bubblePass key f (n - j)) f) (n - (k + 1))) :=
      bubblePass_rearranged _ _
    exact ⟨hr.trans (hpass.mono (by omega)), hs.pass (by omega)⟩

theorem bubbleSort_rearranged (f : Nat → α) (n : Nat) : Rearranged n f (bubbleSort key f n) :=
  (bubble_passes f (by omega)).1

theorem bubbleSort_sorted (f : Nat → α) (n : Nat) :
    ((List.range n).map (bubbleSort key f n)).Pairwise fun a b => key a ≤ key b := by
  have hs : Settled key n (bubbleSort key f n) (n - 1) := (bubble_passes f (by omega)).2
  rw [List.pairwise_map]
  refine List.Pairwise.imp_of_mem (fun {x y} _ hy hxy => ?_) List.pairwise_lt_range
  exact hs x y hxy (by omega) (List.mem_range.mp hy)

end TuyaSdk.Lib
