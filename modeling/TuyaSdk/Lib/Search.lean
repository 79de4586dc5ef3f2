import TuyaSdk.Lib.Loop

/-!
# Searches

A search is a loop that moves a value on by `f` until `p` holds of it, and changes nothing
else. It ends with the first of the values ahead that has `p`, and goes on forever when none
has.
-/

namespace TuyaSdk.Lib.Loop

variable {σ : Type*} {p : σ → Bool} {f : σ → σ} {s r : σ} {k n : Nat}

/-- One pass of a search. -/
def searchPass (p : σ → Bool) (f : σ → σ) (s : σ) : Pass σ σ :=
  if p s then .exit s else .again (f s)

theorem searchPass_exit (h : p s = true) : searchPass p f s = .exit s := if_pos h

theorem searchPass_again (h : ¬ p s = true) : searchPass p f s = .again (f s) := if_neg h

/-- The `k`th value ahead is the first that the search stops at. -/
structure FirstHit (p : σ → Bool) (f : σ → σ) (s : σ) (k : Nat) : Prop where
  hit : p (f^[k] s) = true
  first : ∀ j < k, ¬ p (f^[j] s) = true

theorem FirstHit.head (h : FirstHit p f s (k + 1)) : ¬ p s = true := h.first 0 (Nat.succ_pos k)

theorem FirstHit.tail (h : FirstHit p f s (k + 1)) : FirstHit p f (f s) k := by
  constructor
  · rw [← Function.iterate_succ_apply]
    exact h.hit
  · intro j hj
    rw [← Function.iterate_succ_apply]
    exact h.first (j + 1) (Nat.succ_lt_succ hj)

/-- A value with `p` ahead comes with a first one. -/
theorem exists_firstHit (h : p (f^[k] s) = true) : ∃ j ≤ k, FirstHit p f s j := by
  induction k generalizing s with
  | zero => exact ⟨0, Nat.le_refl 0, h, fun j hj => absurd hj (Nat.not_lt_zero j)⟩
  | succ k ih =>
    by_cases hs : p s = true
    · exact ⟨0, Nat.zero_le _, hs, fun j hj => absurd hj (Nat.not_lt_zero j)⟩
    rw [Function.iterate_succ_apply] at h
    obtain ⟨j, hj, hhit⟩ := ih h
    refine ⟨j + 1, Nat.succ_le_succ hj, ?_, ?_⟩
    · rw [Function.iterate_succ_apply]
      exact hhit.hit
    · intro i hi
      cases i with
      | zero => exact hs
      | succ i =>
        rw [Function.iterate_succ_apply]
        exact hhit.first i (Nat.lt_of_succ_lt_succ hi)

/-- A search ends with the first hit. -/
theorem FirstHit.run (h : FirstHit p f s k) (hk : k < n) :
    Loop.run (searchPass p f) n s = some (f^[k] s) := by
  obtain ⟨n, rfl⟩ : ∃ m, n = m + 1 := ⟨n - 1, by omega⟩
  induction k generalizing s n with
  | zero => exact run_exit (searchPass_exit h.hit)
  | succ k ih =>
    obtain ⟨n, rfl⟩ : ∃ m, n = m + 1 := ⟨n - 1, by omega⟩
    rw [run_again (searchPass_again h.head)]
    exact ih h.tail n (Nat.lt_of_succ_lt_succ hk)

/-- The passes before the hit. -/
theorem FirstHit.visited (h : FirstHit p f s k) (hk : k ≤ n) :
    Loop.visited (searchPass p f) n s = (List.range k).map fun j => f^[j] s := by
  induction k generalizing s n with
  | zero =>
    cases n with
    | zero => rfl
    | succ n =>
      have hexit : searchPass p f s = .exit s := searchPass_exit h.hit
      rw [Loop.visited, hexit]
      rfl
  | succ k ih =>
    obtain ⟨n, rfl⟩ : ∃ m, n = m + 1 := ⟨n - 1, by omega⟩
    rw [visited_again (searchPass_again h.head),
      ih h.tail (Nat.le_of_succ_le_succ hk), List.range_succ_eq_map, List.map_cons, List.map_map]
    rfl

/-- What a search ends with is a first hit. -/
theorem exists_of_run_searchPass (h : Loop.run (searchPass p f) n s = some r) :
    ∃ k < n, FirstHit p f s k ∧ f^[k] s = r := by
  induction n generalizing s with
  | zero => cases h
  | succ n ih =>
    by_cases hs : p s = true
    · rw [run_exit (searchPass_exit hs)] at h
      cases h
      exact ⟨0, Nat.succ_pos n, ⟨hs, fun j hj => absurd hj (Nat.not_lt_zero j)⟩, rfl⟩
    · rw [run_again (searchPass_again hs)] at h
      obtain ⟨k, hk, hhit, rfl⟩ := ih h
      refine ⟨k + 1, Nat.succ_lt_succ hk, ⟨hhit.hit, fun j hj => ?_⟩, rfl⟩
      cases j with
      | zero => exact hs
      | succ j => exact hhit.first j (Nat.lt_of_succ_lt_succ hj)

/-- No value comes twice before the hit, so the hit comes within as many passes as there are
values. -/
theorem FirstHit.lt {s : Nat} {f : Nat → Nat} {p : Nat → Bool} {bound : Nat}
    (h : FirstHit p f s k) (hbound : ∀ j, f^[j] s < bound) : k < bound := by
  have hinj : Set.InjOn (fun j => f^[j] s) (Finset.range (k + 1)) := by
    -- an equality shifts the hit to an earlier place
    have hne : ∀ i j, i < j → j ≤ k → f^[i] s ≠ f^[j] s := by
      intro i j hij hjk heq
      refine h.first (k - j + i) (by omega) ?_
      rw [Function.iterate_add_apply, heq, ← Function.iterate_add_apply, Nat.sub_add_cancel hjk]
      exact h.hit
    intro i hi j hj heq
    rw [Finset.mem_coe, Finset.mem_range] at hi hj
    rcases Nat.lt_trichotomy i j with hlt | rfl | hlt
    · exact absurd heq (hne i j hlt (by omega))
    · rfl
    · exact absurd heq.symm (hne j i hlt (by omega))
  have hcard := Finset.card_le_card_of_injOn (t := Finset.range bound) _
    (fun j _ => Finset.mem_coe.mpr (Finset.mem_range.mpr (hbound j))) hinj
  rw [Finset.card_range, Finset.card_range] at hcard
  exact hcard

end TuyaSdk.Lib.Loop

/-! ## Walks

A search goes from place to place by a function until a place stops it. Where there are finitely
many places it ends just when it does not come to a place again (`ends_iff`), and then it ends
after no more passes than there are places. -/

namespace TuyaSdk.Lib.Walk

open Function

variable {α : Type*} {next : α → α} {stops : α → Prop} {a b : α} {n : Nat} {places : Finset α}

/-- The first `n` places of the walk from `a` do not stop it. -/
def Passes (next : α → α) (stops : α → Prop) (a : α) (n : Nat) : Prop :=
  ∀ k < n, ¬stops (next^[k] a)

/-- The place that stops the walk from `a` is `b`, behind `n` others. -/
def EndsAt (next : α → α) (stops : α → Prop) (a b : α) (n : Nat) : Prop :=
  next^[n] a = b ∧ stops b ∧ Passes next stops a n

/-- The walk from `a` comes to a place that it has passed. -/
def Returns (next : α → α) (stops : α → Prop) (a : α) : Prop :=
  ∃ i j, i < j ∧ next^[i] a = next^[j] a ∧ Passes next stops a j

theorem passes_succ :
    Passes next stops a (n + 1) ↔ ¬stops a ∧ Passes next stops (next a) n := by
  constructor
  · intro h
    exact ⟨h 0 (Nat.zero_lt_succ n), fun k hk => h (k + 1) (Nat.succ_lt_succ hk)⟩
  · rintro ⟨hhere, hrest⟩ k hk
    cases k with
    | zero => exact hhere
    | succ k => exact hrest k (Nat.lt_of_succ_lt_succ hk)

theorem exists_endsAt (h : ∃ k, stops (next^[k] a)) : ∃ b n, EndsAt next stops a b n := by
  classical
  exact ⟨_, Nat.find h, rfl, Nat.find_spec h, fun k hk => Nat.find_min h hk⟩

theorem EndsAt.unique {b' : α} {n' : Nat} (h : EndsAt next stops a b n)
    (h' : EndsAt next stops a b' n') : b = b' := by
  have hle : n ≤ n' := Nat.not_lt.mp fun hlt => h.2.2 n' hlt (h'.1.symm ▸ h'.2.1)
  have hge : n' ≤ n := Nat.not_lt.mp fun hlt => h'.2.2 n hlt (h.1.symm ▸ h.2.1)
  rw [← h.1, ← h'.1, Nat.le_antisymm hle hge]

/-- A walk that comes to a place again has nothing before it that stops it. -/
theorem Returns.not_endsAt (h : Returns next stops a) : ¬EndsAt next stops a b n := by
  rintro ⟨rfl, hstops, hpasses⟩
  obtain ⟨i, j, hij, hsame, hpassed⟩ := h
  have hj : j ≤ n := Nat.not_lt.mp fun hlt => hpassed n hlt hstops
  -- the place is also met a round earlier
  have hearlier : next^[n - j + i] a = next^[n] a := by
    rw [iterate_add_apply, hsame, ← iterate_add_apply, Nat.sub_add_cancel hj]
  exact hpasses (n - j + i) (by omega) (hearlier.symm ▸ hstops)

/-- More passes than there are places come to one of them again. -/
theorem returns_of_passes (hin : ∀ k, next^[k] a ∈ places)
    (h : Passes next stops a places.card) : Returns next stops a := by
  obtain ⟨i, hi, j, hj, hne, hsame⟩ := Finset.exists_ne_map_eq_of_card_lt_of_maps_to
    (s := Finset.range (places.card + 1)) (t := places) (f := fun k => next^[k] a)
    (by rw [Finset.card_range]; exact Nat.lt_succ_self _) fun k _ => hin k
  rw [Finset.mem_range] at hi hj
  rcases Nat.lt_or_gt_of_ne hne with hlt | hlt
  · exact ⟨i, j, hlt, hsame, fun k hk => h k (by omega)⟩
  · exact ⟨j, i, hlt, hsame.symm, fun k hk => h k (by omega)⟩

/-- Among finitely many places a walk ends just when it does not come to a place again. -/
theorem ends_iff (hin : ∀ k, next^[k] a ∈ places) :
    (∃ b n, EndsAt next stops a b n) ↔ ¬Returns next stops a := by
  constructor
  · rintro ⟨b, n, h⟩ hreturns
    exact hreturns.not_endsAt h
  · intro hno
    refine exists_endsAt ?_
    by_contra hnone
    exact hno (returns_of_passes hin fun k _ hstops => hnone ⟨k, hstops⟩)

theorem EndsAt.lt_card (hin : ∀ k, next^[k] a ∈ places) (h : EndsAt next stops a b n) :
    n < places.card := by
  by_contra hge
  have hpasses : Passes next stops a places.card :=
    fun k hk => h.2.2 k (Nat.lt_of_lt_of_le hk (Nat.not_lt.mp hge))
  exact (returns_of_passes hin hpasses).not_endsAt h

/-! ## The loop -/

/-- One pass. -/
def pass (next : α → α) (stops : α → Prop) [DecidablePred stops] (a : α) : Pass α α :=
  if stops a then .exit a else .again (next a)

variable [DecidablePred stops]

/-- The loop finds the place that stops the walk. -/
theorem run_pass_iff {fuel : Nat} : Loop.run (pass next stops) fuel a = some b ↔
    ∃ n < fuel, EndsAt next stops a b n := by
  induction fuel generalizing a with
  | zero => exact iff_of_false (by simp [Loop.run]) fun ⟨n, hn, _⟩ => Nat.not_lt_zero n hn
  | succ fuel ih =>
    by_cases hstops : stops a
    · have hpass : pass next stops a = .exit a := if_pos hstops
      rw [Loop.run_exit hpass, Option.some.injEq]
      constructor
      · rintro rfl
        exact ⟨0, Nat.zero_lt_succ _, rfl, hstops, fun k hk => absurd hk (Nat.not_lt_zero k)⟩
      · rintro ⟨n, -, hn, -, hpasses⟩
        cases n with
        | zero => exact hn
        | succ n => exact absurd hstops (hpasses 0 (Nat.zero_lt_succ n))
    · have hpass : pass next stops a = .again (next a) := if_neg hstops
      rw [Loop.run_again hpass, ih]
      constructor
      · rintro ⟨n, hn, hat, hb, hpasses⟩
        exact ⟨n + 1, Nat.succ_lt_succ hn, hat, hb, passes_succ.mpr ⟨hstops, hpasses⟩⟩
      · rintro ⟨n, hn, hat, hb, hpasses⟩
        cases n with
        | zero =>
          obtain rfl : a = b := hat
          exact absurd hb hstops
        | succ n =>
          exact ⟨n, Nat.lt_of_succ_lt_succ hn, hat, hb, (passes_succ.mp hpasses).2⟩

/-- As many passes as there are places are enough. -/
theorem run_pass_card (hin : ∀ k, next^[k] a ∈ places) :
    Loop.run (pass next stops) places.card a = some b ↔ ∃ n, EndsAt next stops a b n := by
  rw [run_pass_iff]
  constructor
  · rintro ⟨n, -, h⟩
    exact ⟨n, h⟩
  · rintro ⟨n, h⟩
    exact ⟨n, h.lt_card hin, h⟩

end TuyaSdk.Lib.Walk
