import Mathlib

/-!
# Runs compared with what one party does alone

The steps of a run belong to parties. If a step of another party does not change what a party
sees, and a step of its own changes what it sees in the same way in two states that look the same
to it, then a run looks to it like the run of its own steps. The rule takes a condition on the
steps, that may look at the state of the run and at that of the run of the own steps.
-/

namespace TuyaSdk.Lib.Unwinding

variable {σ ι α : Type*} (step : σ → ι → α → σ)

/-- The state after the steps in order. -/
def run (s : σ) (steps : List (ι × α)) : σ := steps.foldl (fun s x => step s x.1 x.2) s

theorem run_append (s : σ) (xs ys : List (ι × α)) :
    run step s (xs ++ ys) = run step (run step s xs) ys := List.foldl_append

theorem run_snoc (s : σ) (xs : List (ι × α)) (i : ι) (a : α) :
    run step s (xs ++ [(i, a)]) = step (run step s xs) i a := run_append step s xs [(i, a)]

variable [DecidableEq ι]

/-- The steps of one party. -/
def only (i : ι) (steps : List (ι × α)) : List (ι × α) := steps.filter fun x => x.1 = i

theorem only_snoc_self (i : ι) (a : α) (xs : List (ι × α)) :
    only i (xs ++ [(i, a)]) = only i xs ++ [(i, a)] := by
  simp [only]

theorem only_snoc_other {i j : ι} (h : j ≠ i) (a : α) (xs : List (ι × α)) :
    only i (xs ++ [(j, a)]) = only i xs := by
  simp [only, h]

/-- Every step satisfies a condition on the state it is made in, and on the state that the steps
of its party alone lead to. -/
def Each (ok : σ → σ → ι → α → Prop) (s : σ) (steps : List (ι × α)) : Prop :=
  ∀ pre i a post, steps = pre ++ (i, a) :: post →
    ok (run step s pre) (run step s (only i pre)) i a

variable {step} {ok : σ → σ → ι → α → Prop}

theorem Each.snoc {s : σ} {steps : List (ι × α)} {i : ι} {a : α}
    (h : Each step ok s (steps ++ [(i, a)])) :
    Each step ok s steps ∧ ok (run step s steps) (run step s (only i steps)) i a :=
  ⟨fun pre j b post heq => h pre j b (post ++ [(i, a)]) (by rw [heq]; simp),
    h steps i a [] rfl⟩

theorem each_nil (s : σ) : Each step ok s [] := by
  rintro pre i a post heq
  exact absurd heq (by simp)

/-- A run is made step by step. -/
theorem Each.push {s : σ} {steps : List (ι × α)} {i : ι} {a : α} (h : Each step ok s steps)
    (hx : ok (run step s steps) (run step s (only i steps)) i a) :
    Each step ok s (steps ++ [(i, a)]) := by
  intro pre j b post heq
  rcases List.eq_nil_or_concat post with rfl | ⟨post, y, rfl⟩
  · obtain ⟨rfl, hlast⟩ := List.append_inj' heq rfl
    obtain ⟨rfl, rfl⟩ : i = j ∧ a = b := by simpa using hlast
    exact hx
  · rw [List.concat_eq_append, ← List.cons_append, ← List.append_assoc] at heq
    exact h pre j b post (List.append_inj' heq rfl).1

/-- A property of the states that the steps of one party keep holds after its steps alone. -/
theorem only_invariant {I : σ → Prop} {i : ι} (hstep : ∀ s a, I s → I (step s i a)) {s : σ}
    (hs : I s) (steps : List (ι × α)) : I (run step s (only i steps)) := by
  induction steps using List.reverseRecOn with
  | nil => exact hs
  | append_singleton xs x ih =>
    obtain ⟨j, a⟩ := x
    by_cases hj : j = i
    · subst hj
      rw [only_snoc_self, run_snoc]
      exact hstep _ a ih
    · rw [only_snoc_other hj]
      exact ih

/-- The unwinding rule. -/
theorem run_agrees {R : ι → σ → σ → Prop} {I : ι → σ → Prop}
    (hkeep : ∀ i s a, I i s → I i (step s i a))
    (hown : ∀ i s t a, R i s t → I i t → ok s t i a → R i (step s i a) (step t i a))
    (hother : ∀ i j s t own a, j ≠ i → R i s t → I j own → ok s own j a → R i (step s j a) t)
    {s : σ} (hR : ∀ i, R i s s) (hI : ∀ i, I i s) {steps : List (ι × α)}
    (hok : Each step ok s steps) (i : ι) :
    R i (run step s steps) (run step s (only i steps)) := by
  have halone : ∀ i xs, I i (run step s (only i xs)) :=
    fun i xs => only_invariant (hkeep i) (hI i) xs
  induction steps using List.reverseRecOn with
  | nil => exact hR i
  | append_singleton xs x ih =>
    obtain ⟨j, a⟩ := x
    obtain ⟨hxs, hx⟩ := hok.snoc
    rw [run_snoc]
    by_cases hj : j = i
    · subst hj
      rw [only_snoc_self, run_snoc]
      exact hown j _ _ a (ih hxs) (halone j xs) hx
    · rw [only_snoc_other hj]
      exact hother i j _ _ _ a hj (ih hxs) (halone j xs) hx

end TuyaSdk.Lib.Unwinding
