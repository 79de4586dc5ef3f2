import Mathlib

/-!
# C loops with an explicit bound

A C loop is its body, a function from the loop variables to either a result (the loop
condition failed, or a `break`/`return` was taken) or the variables of the next pass.
`Loop.run fuel body s` makes at most `fuel` passes; `none` means that the loop was still
running when the passes were used up. A loop is proved to terminate by a measure
(`Loop.run_spec`), and what holds of its result by an invariant.
-/

namespace TuyaSdk.Lib

/-- The outcome of one pass of a loop with variables `σ` and result `ρ`. -/
inductive Pass (σ ρ : Type*) where
  | exit (result : ρ)
  | again (vars : σ)
  deriving DecidableEq, Repr

namespace Loop

variable {σ ρ : Type*} {body : σ → Pass σ ρ}

/-- At most `fuel` passes of the loop `body` from `s`. -/
def run (body : σ → Pass σ ρ) : Nat → σ → Option ρ
  | 0, _ => none
  | fuel + 1, s =>
    match body s with
    | .exit r => some r
    | .again s' => run body fuel s'

theorem run_succ (body : σ → Pass σ ρ) (fuel : Nat) (s : σ) : run body (fuel + 1) s =
    match body s with
    | .exit r => some r
    | .again s' => run body fuel s' :=
  rfl

theorem run_exit {fuel : Nat} {s : σ} {r : ρ} (h : body s = .exit r) :
    run body (fuel + 1) s = some r := by
  rw [run_succ, h]

theorem run_again {fuel : Nat} {s s' : σ} (h : body s = .again s') :
    run body (fuel + 1) s = run body fuel s' := by
  rw [run_succ, h]

/-- More passes do not change a result that was reached. -/
theorem run_mono {n m : Nat} {s : σ} {r : ρ} (h : run body n s = some r) (hle : n ≤ m) :
    run body m s = some r := by
  induction n generalizing m s with
  | zero => cases h
  | succ n ih =>
    obtain ⟨m, rfl⟩ : ∃ k, m = k + 1 := ⟨m - 1, by omega⟩
    cases hb : body s with
    | exit r' =>
      rw [run_exit hb] at h ⊢
      exact h
    | again s' =>
      rw [run_again hb] at h ⊢
      exact ih h (by omega)

/-- Partial correctness: what the invariant `I` gives on exit holds of every result. -/
theorem run_post {I : σ → Prop} {Q : ρ → Prop}
    (hexit : ∀ s r, I s → body s = .exit r → Q r)
    (hagain : ∀ s s', I s → body s = .again s' → I s')
    {n : Nat} {s : σ} {r : ρ} (hs : I s) (h : run body n s = some r) : Q r := by
  induction n generalizing s with
  | zero => cases h
  | succ n ih =>
    cases hb : body s with
    | exit r' =>
      rw [run_exit hb] at h
      cases h
      exact hexit s r hs hb
    | again s' =>
      rw [run_again hb] at h
      exact ih (hagain s s' hs hb) h

/-- Total correctness: an invariant indexed by a bound on the passes still to come. -/
theorem run_bounded {I : Nat → σ → Prop} {Q : ρ → Prop}
    (hexit : ∀ k s r, I k s → body s = .exit r → Q r)
    (hagain : ∀ k s s', I k s → body s = .again s' → ∃ k', k' < k ∧ I k' s')
    {n k : Nat} {s : σ} (hs : I k s) (hn : k < n) : ∃ r, run body n s = some r ∧ Q r := by
  induction n generalizing k s with
  | zero => omega
  | succ n ih =>
    cases hb : body s with
    | exit r => exact ⟨r, run_exit hb, hexit k s r hs hb⟩
    | again s' =>
      obtain ⟨k', hk, hI⟩ := hagain k s s' hs hb
      obtain ⟨r, hr, hq⟩ := ih hI (by omega)
      exact ⟨r, (run_again hb).trans hr, hq⟩

/-- Total correctness: an invariant and a measure that every further pass decreases. -/
theorem run_spec {I : σ → Prop} {Q : ρ → Prop} (μ : σ → Nat)
    (hexit : ∀ s r, I s → body s = .exit r → Q r)
    (hagain : ∀ s s', I s → body s = .again s' → I s' ∧ μ s' < μ s)
    {n : Nat} {s : σ} (hs : I s) (hn : μ s < n) : ∃ r, run body n s = some r ∧ Q r := by
  refine run_bounded (I := fun k s => I s ∧ μ s = k) ?_ ?_ ⟨hs, rfl⟩ hn
  · intro k s r h hb
    exact hexit s r h.1 hb
  · rintro k s s' ⟨hI, rfl⟩ hb
    obtain ⟨hI', hμ⟩ := hagain s s' hI hb
    exact ⟨μ s', hμ, hI', rfl⟩

/-- The variables of each pass that is followed by another, in order. -/
def visited (body : σ → Pass σ ρ) : Nat → σ → List σ
  | 0, _ => []
  | fuel + 1, s =>
    match body s with
    | .exit _ => []
    | .again s' => s :: visited body fuel s'

theorem visited_again {fuel : Nat} {s s' : σ} (h : body s = .again s') :
    visited body (fuel + 1) s = s :: visited body fuel s' := by
  simp only [visited, h]

/-- An invariant holds at every pass. -/
theorem visited_invariant {I : σ → Prop} (hagain : ∀ s s', I s → body s = .again s' → I s')
    {n : Nat} {s : σ} (hs : I s) : ∀ v ∈ visited body n s, I v ∧ ∃ v', body v = .again v' := by
  induction n generalizing s with
  | zero =>
    intro v hv
    cases hv
  | succ n ih =>
    intro v hv
    cases hb : body s with
    | exit r =>
      simp only [visited, hb] at hv
      cases hv
    | again s' =>
      rw [visited_again hb] at hv
      rcases List.mem_cons.mp hv with rfl | hv
      · exact ⟨hs, s', hb⟩
      · exact ih (hagain s s' hs hb) v hv

end Loop

end TuyaSdk.Lib
