import Mathlib

/-!
# Runs of a deterministic machine

A machine takes a state and an input to the next state and an output; `none` is a call that
does not return. `Machine.Legal` restricts the inputs of a run by a condition on the state
they are given in (the precondition of the calls made). The rules turn what one step does
into what a run does: `run_invariant` for safety, `run_total` for termination, and
`run_simulates` for refinement by a second machine.
-/

namespace TuyaSdk.Lib

/-- One step of a machine with states `σ`, inputs `ι` and outputs `ο`. -/
abbrev Machine (σ ι ο : Type*) := σ → ι → Option (σ × ο)

namespace Machine

variable {σ τ ι ο : Type*} {step : Machine σ ι ο} {ok : σ → ι → Prop}

/-- The state and the outputs after the inputs in order. -/
def run (step : Machine σ ι ο) : σ → List ι → Option (σ × List ο)
  | s, [] => some (s, [])
  | s, i :: is =>
    match step s i with
    | none => none
    | some (s', o) => (run step s' is).map fun r => (r.1, o :: r.2)

/-- Every input of the run is given in a state that satisfies `ok` with it. -/
def Legal (step : Machine σ ι ο) (ok : σ → ι → Prop) : σ → List ι → Prop
  | _, [] => True
  | s, i :: is => ok s i ∧ ∀ s' o, step s i = some (s', o) → Legal step ok s' is

/-- The inputs of a run are legal, checked by making the run. -/
def legalCheck (step : Machine σ ι ο) (ok : σ → ι → Prop) [∀ s i, Decidable (ok s i)] :
    σ → List ι → Bool
  | _, [] => true
  | s, i :: is =>
    decide (ok s i) &&
      match step s i with
      | none => true
      | some (s', _) => legalCheck step ok s' is

theorem legalCheck_cons [∀ s i, Decidable (ok s i)] (s : σ) (i : ι) (is : List ι) :
    legalCheck step ok s (i :: is) =
      (decide (ok s i) &&
        match step s i with
        | none => true
        | some (s', _) => legalCheck step ok s' is) := rfl

theorem legal_of_check [∀ s i, Decidable (ok s i)] {s : σ} {is : List ι}
    (h : legalCheck step ok s is = true) : Legal step ok s is := by
  induction is generalizing s with
  | nil => trivial
  | cons i is ih =>
    rw [legalCheck_cons, Bool.and_eq_true, decide_eq_true_eq] at h
    refine ⟨h.1, fun s' o hs => ih ?_⟩
    have hrest := h.2
    rw [hs] at hrest
    exact hrest

theorem Legal.check [∀ s i, Decidable (ok s i)] {s : σ} {is : List ι} (h : Legal step ok s is) :
    legalCheck step ok s is = true := by
  induction is generalizing s with
  | nil => rfl
  | cons i is ih =>
    rw [legalCheck_cons, Bool.and_eq_true, decide_eq_true_eq]
    refine ⟨h.1, ?_⟩
    cases hs : step s i with
    | none => rfl
    | some r => exact ih (h.2 r.1 r.2 hs)

instance [∀ s i, Decidable (ok s i)] (s : σ) (is : List ι) : Decidable (Legal step ok s is) :=
  decidable_of_iff (legalCheck step ok s is = true) ⟨legal_of_check, Legal.check⟩

theorem run_nil (s : σ) : run step s [] = some (s, []) := rfl

theorem run_cons_eq (s : σ) (i : ι) (is : List ι) :
    run step s (i :: is) =
      match step s i with
      | none => none
      | some (s', o) => (run step s' is).map fun r => (r.1, o :: r.2) := rfl

theorem run_cons {s s' : σ} {i : ι} {is : List ι} {os : List ο} :
    run step s (i :: is) = some (s', os) ↔
      ∃ s₁ o os', step s i = some (s₁, o) ∧ run step s₁ is = some (s', os') ∧ os = o :: os' := by
  cases h : step s i with
  | none =>
    have hrun : run step s (i :: is) = none := by rw [run_cons_eq, h]
    rw [hrun]
    refine iff_of_false (Option.some_ne_none _).symm ?_
    rintro ⟨s₁, o, os', hs, -, -⟩
    cases hs
  | some r =>
    obtain ⟨s₁, o⟩ := r
    have hrun : run step s (i :: is) = (run step s₁ is).map fun r => (r.1, o :: r.2) := by
      rw [run_cons_eq, h]
    rw [hrun, Option.map_eq_some_iff]
    constructor
    · rintro ⟨⟨s₂, os'⟩, hr, heq⟩
      cases heq
      exact ⟨s₁, o, os', rfl, hr, rfl⟩
    · rintro ⟨s₁', o', os', hs, hr, rfl⟩
      cases hs
      exact ⟨(s', os'), hr, rfl⟩

theorem run_append {s s' : σ} {is₁ is₂ : List ι} {os : List ο} :
    run step s (is₁ ++ is₂) = some (s', os) ↔
      ∃ s₁ os₁ os₂, run step s is₁ = some (s₁, os₁) ∧ run step s₁ is₂ = some (s', os₂) ∧
        os = os₁ ++ os₂ := by
  induction is₁ generalizing s os with
  | nil =>
    constructor
    · intro h
      exact ⟨s, [], os, rfl, h, rfl⟩
    · rintro ⟨s₁, os₁, os₂, h₁, h₂, rfl⟩
      cases h₁
      exact h₂
  | cons i is₁ ih =>
    rw [List.cons_append, run_cons]
    constructor
    · rintro ⟨s₁, o, os', hs, hr, rfl⟩
      obtain ⟨s₂, os₁, os₂, h₁, h₂, rfl⟩ := ih.mp hr
      exact ⟨s₂, o :: os₁, os₂, run_cons.mpr ⟨s₁, o, os₁, hs, h₁, rfl⟩, h₂, rfl⟩
    · rintro ⟨s₂, os₁', os₂, hr, h₂, rfl⟩
      obtain ⟨s₁, o, os₁, hs, h₁, rfl⟩ := run_cons.mp hr
      exact ⟨s₁, o, os₁ ++ os₂, hs, ih.mpr ⟨s₂, os₁, os₂, h₁, h₂, rfl⟩, rfl⟩

/-- A machine without preconditions. -/
theorem legal_true (s : σ) (is : List ι) : Legal step (fun _ _ => True) s is := by
  induction is generalizing s with
  | nil => trivial
  | cons i is ih => exact ⟨trivial, fun s' _ _ => ih s'⟩

theorem Legal.append {s s' : σ} {is₁ is₂ : List ι} {os : List ο}
    (h : Legal step ok s (is₁ ++ is₂)) (hr : run step s is₁ = some (s', os)) :
    Legal step ok s' is₂ := by
  induction is₁ generalizing s os with
  | nil =>
    cases hr
    exact h
  | cons i is₁ ih =>
    obtain ⟨s₁, o, os', hs, hr, -⟩ := run_cons.mp hr
    exact ih (h.2 s₁ o hs) hr

theorem Legal.prefix {s : σ} {is₁ is₂ : List ι} (h : Legal step ok s (is₁ ++ is₂)) :
    Legal step ok s is₁ := by
  induction is₁ generalizing s with
  | nil => trivial
  | cons i is₁ ih => exact ⟨h.1, fun s' o hs => ih (h.2 s' o hs)⟩

theorem Legal.mono {ok' : σ → ι → Prop} {s : σ} {is : List ι} (h : Legal step ok s is)
    (himp : ∀ s i, ok s i → ok' s i) : Legal step ok' s is := by
  induction is generalizing s with
  | nil => trivial
  | cons i is ih => exact ⟨himp s i h.1, fun s' o hs => ih (h.2 s' o hs)⟩

/-- A condition on the inputs alone may be added to one on the states. -/
theorem Legal.and_all {q : ι → Prop} {s : σ} {is : List ι} (h : Legal step ok s is)
    (hq : ∀ i ∈ is, q i) : Legal step (fun s i => ok s i ∧ q i) s is := by
  induction is generalizing s with
  | nil => trivial
  | cons i is ih =>
    exact ⟨⟨h.1, hq i (by simp)⟩, fun s' o hs => ih (h.2 s' o hs) fun j hj => hq j (by simp [hj])⟩

/-- Every legal step returns and keeps a relation between the state and the outputs so far:
then so does every legal run, after any outputs. -/
theorem run_total_from {I : σ → List ο → Prop}
    (hstep : ∀ s os i, I s os → ok s i → ∃ s' o, step s i = some (s', o) ∧ I s' (os ++ [o]))
    {s : σ} {is : List ι} {os : List ο} (hs : I s os) (hl : Legal step ok s is) :
    ∃ s' os', run step s is = some (s', os') ∧ I s' (os ++ os') := by
  induction is generalizing s os with
  | nil => exact ⟨s, [], rfl, by simpa using hs⟩
  | cons i is ih =>
    obtain ⟨s₁, o, h₁, hI⟩ := hstep s os i hs hl.1
    obtain ⟨s₂, os₂, h₂, hI₂⟩ := ih hI (hl.2 s₁ o h₁)
    exact ⟨s₂, o :: os₂, run_cons.mpr ⟨s₁, o, os₂, h₁, h₂, rfl⟩, by simpa using hI₂⟩

/-- A machine whose every legal step returns and keeps the invariant returns from every
legal run in a state of the invariant. -/
theorem run_total {I : σ → List ο → Prop}
    (hstep : ∀ s os i, I s os → ok s i → ∃ s' o, step s i = some (s', o) ∧ I s' (os ++ [o]))
    {s : σ} {is : List ι} (hs : I s []) (hl : Legal step ok s is) :
    ∃ s' os, run step s is = some (s', os) ∧ I s' os :=
  run_total_from hstep hs hl

/-- A relation between the state and the outputs so far that every legal step that returns
keeps holds at the end of every legal run that returns. -/
theorem run_invariant {I : σ → List ο → Prop}
    (hstep : ∀ s os i s' o, I s os → ok s i → step s i = some (s', o) → I s' (os ++ [o]))
    {s s' : σ} {is : List ι} {os os' : List ο} (hs : I s os) (hl : Legal step ok s is)
    (hr : run step s is = some (s', os')) : I s' (os ++ os') := by
  induction is generalizing s os os' with
  | nil =>
    cases hr
    simpa using hs
  | cons i is ih =>
    obtain ⟨s₁, o, os₁, h₁, hrest, rfl⟩ := run_cons.mp hr
    have := ih (hstep s os i s₁ o hs hl.1 h₁) (hl.2 s₁ o h₁) hrest
    simpa using this

/-- A condition on the state that every legal step keeps holds in every state of a legal run. -/
theorem always_of_legal {I : σ → Prop}
    (hstep : ∀ s i s' o, I s → ok s i → step s i = some (s', o) → I s') {s s' : σ} {is : List ι}
    {os : List ο} (hs : I s) (hl : Legal step ok s is) (n : Nat)
    (hr : run step s (is.take n) = some (s', os)) : I s' := by
  have hpre : Legal step ok s (is.take n) := by
    rw [← List.take_append_drop n is] at hl
    exact hl.prefix
  have hkeep : ∀ (s : σ) (_ : List ο) (i : ι) (s' : σ) (o : ο), I s → ok s i →
      step s i = some (s', o) → I s' := fun s _ i s' o => hstep s i s' o
  exact @run_invariant σ ι ο step ok (fun s _ => I s) hkeep s s' (is.take n) [] os hs hpre hr

/-- If the steps that return are exactly those that satisfy `ok`, in every state of an
invariant that the steps keep, then the runs that return are exactly the legal ones. -/
theorem run_isSome_iff {I : σ → Prop} (hsome : ∀ s i, I s → ((step s i).isSome ↔ ok s i))
    (hkeep : ∀ s i s' o, I s → step s i = some (s', o) → I s') {s : σ} {is : List ι} (hs : I s) :
    (run step s is).isSome ↔ Legal step ok s is := by
  induction is generalizing s with
  | nil => exact iff_of_true rfl trivial
  | cons i is ih =>
    rw [Legal, ← hsome s i hs, run]
    cases h : step s i with
    | none => simp
    | some r =>
      obtain ⟨s₁, o⟩ := r
      have hrest := ih (hkeep s i s₁ o hs h)
      simp only [Option.isSome_map, Option.isSome_some, true_and, Option.some.injEq, Prod.mk.injEq]
      rw [hrest]
      constructor
      · rintro hl s' o' ⟨rfl, rfl⟩
        exact hl
      · intro hl
        exact hl s₁ o ⟨rfl, rfl⟩

/-- If a step from a state of an invariant returns, keeps the invariant when it satisfies `ok`,
and ends outside of a consequence of the invariant when it does not, then the consequence holds
in every state of a run exactly when the run is legal. -/
theorem consequence_iff_legal {I P : σ → Prop} (himp : ∀ s, I s → P s)
    (hstep : ∀ s i, I s → ∃ s' o, step s i = some (s', o) ∧ (ok s i → I s') ∧ (¬ok s i → ¬P s'))
    {s : σ} {is : List ι} (hs : I s) :
    (∀ n s' os, run step s (is.take n) = some (s', os) → P s') ↔ Legal step ok s is := by
  induction is generalizing s with
  | nil =>
    refine iff_of_true (fun n s' os hr => ?_) trivial
    rw [List.take_nil] at hr
    cases hr
    exact himp s hs
  | cons i is ih =>
    obtain ⟨s₁, o, h₁, hkeep, hleave⟩ := hstep s i hs
    constructor
    · intro h
      have hok : ok s i := by
        by_contra hno
        exact hleave hno (h 1 s₁ [o] (run_cons.mpr ⟨s₁, o, [], h₁, rfl, rfl⟩))
      refine ⟨hok, fun s' o' h' => ?_⟩
      rw [h₁] at h'
      cases h'
      exact (ih (hkeep hok)).mp fun n s' os hr =>
        h (n + 1) s' (o :: os) (run_cons.mpr ⟨s₁, o, os, h₁, hr, rfl⟩)
    · intro h n s' os hr
      cases n with
      | zero =>
        cases hr
        exact himp s hs
      | succ n =>
        obtain ⟨s₂, o₂, os₂, h₂, hr₂, -⟩ := run_cons.mp hr
        rw [h₁] at h₂
        cases h₂
        exact (ih (hkeep h.1)).mpr (h.2 s₁ o h₁) n s' os₂ hr₂

/-- If a step returns, and keeps a condition exactly when it satisfies `ok`, then the condition
holds in every state of a run exactly when the run is legal. -/
theorem always_iff_legal {I : σ → Prop}
    (hstep : ∀ s i, I s → ∃ s' o, step s i = some (s', o) ∧ (I s' ↔ ok s i)) {s : σ} {is : List ι}
    (hs : I s) :
    (∀ n s' os, run step s (is.take n) = some (s', os) → I s') ↔ Legal step ok s is := by
  refine consequence_iff_legal (fun _ h => h) (fun s i h => ?_) hs
  obtain ⟨s', o, h', hiff⟩ := hstep s i h
  exact ⟨s', o, h', hiff.mpr, fun hno h => hno (hiff.mp h)⟩

/-- If a step from a state of an invariant returns and keeps the invariant when it satisfies `ok`,
and else does not return or ends outside of a consequence of the invariant, then a run returns
with the consequence in every state exactly when it is legal. -/
theorem returns_iff_legal {I P : σ → Prop} (himp : ∀ s, I s → P s)
    (hkeep : ∀ s i, I s → ok s i → ∃ s' o, step s i = some (s', o) ∧ I s')
    (hleave : ∀ s i, I s → ¬ok s i → ∀ s' o, step s i = some (s', o) → ¬P s')
    {s : σ} {is : List ι} (hs : I s) :
    ((run step s is).isSome ∧ ∀ n s' os, run step s (is.take n) = some (s', os) → P s') ↔
      Legal step ok s is := by
  induction is generalizing s with
  | nil =>
    refine iff_of_true ⟨rfl, fun n s' os hr => ?_⟩ trivial
    rw [List.take_nil] at hr
    cases hr
    exact himp s hs
  | cons i is ih =>
    constructor
    · rintro ⟨hsome, hall⟩
      obtain ⟨⟨s', os⟩, hr⟩ := Option.isSome_iff_exists.mp hsome
      obtain ⟨s₁, o, os', h₁, hr', -⟩ := run_cons.mp hr
      have hok : ok s i := by
        by_contra hno
        exact hleave s i hs hno s₁ o h₁ (hall 1 s₁ [o] (run_cons.mpr ⟨s₁, o, [], h₁, rfl, rfl⟩))
      obtain ⟨s₂, o₂, h₂, hI⟩ := hkeep s i hs hok
      rw [h₁] at h₂
      cases h₂
      refine ⟨hok, fun s₃ o₃ h₃ => ?_⟩
      rw [h₁] at h₃
      cases h₃
      exact (ih hI).mp ⟨by rw [hr']; rfl, fun n s' os hr =>
        hall (n + 1) s' (o :: os) (run_cons.mpr ⟨s₁, o, os, h₁, hr, rfl⟩)⟩
    · intro h
      obtain ⟨s₁, o, h₁, hI⟩ := hkeep s i hs h.1
      obtain ⟨hsome, hall⟩ := (ih hI).mpr (h.2 s₁ o h₁)
      obtain ⟨⟨s', os⟩, hr⟩ := Option.isSome_iff_exists.mp hsome
      refine ⟨by rw [run_cons.mpr ⟨s₁, o, os, h₁, hr, rfl⟩]; rfl, fun n s₂ os₂ hr₂ => ?_⟩
      cases n with
      | zero =>
        cases hr₂
        exact himp s hs
      | succ n =>
        obtain ⟨s₃, o₃, os₃, h₃, hr₃, -⟩ := run_cons.mp hr₂
        rw [h₁] at h₃
        cases h₃
        exact hall n s₂ os₃ hr₃

/-- As `consequence_iff_legal`, with the run returning. -/
theorem total_iff_legal {I P : σ → Prop} (himp : ∀ s, I s → P s)
    (hstep : ∀ s i, I s → ∃ s' o, step s i = some (s', o) ∧ (ok s i → I s') ∧ (¬ ok s i → ¬P s'))
    {s : σ} {is : List ι} (hs : I s) :
    ((run step s is).isSome ∧ ∀ n s' os, run step s (is.take n) = some (s', os) → P s') ↔
      Legal step ok s is := by
  refine returns_iff_legal himp (fun s i h hok => ?_) (fun s i h hno s' o h' => ?_) hs
  · obtain ⟨s', o, h', hkeep, -⟩ := hstep s i h
    exact ⟨s', o, h', hkeep hok⟩
  · obtain ⟨s₁, o₁, h₁, -, hleave⟩ := hstep s i h
    rw [h₁] at h'
    cases h'
    exact hleave hno

/-- If in the states of an invariant a step that satisfies `pre` has a property exactly when it
satisfies `ok`, and then keeps the invariant, then every step of a run has the property exactly when
the run is legal. -/
theorem steps_iff_legal_of {I : σ → Prop} {pre : σ → ι → Prop} {Q : σ → ι → σ → Prop}
    (hkeep : ∀ s i s' o, I s → pre s i → ok s i → step s i = some (s', o) → I s')
    (hstep : ∀ s i, I s → pre s i → ((∀ s' o, step s i = some (s', o) → Q s i s') ↔ ok s i))
    {s : σ} {is : List ι} (hs : I s) (hpre : Legal step pre s is) :
    (∀ n s₁ os i s' o, run step s (is.take n) = some (s₁, os) → is[n]? = some i →
      step s₁ i = some (s', o) → Q s₁ i s') ↔ Legal step ok s is := by
  induction is generalizing s with
  | nil => exact iff_of_true (fun n s₁ os i s' o _ hi => nomatch hi) trivial
  | cons i is ih =>
    rw [Legal, ← hstep s i hs hpre.1]
    constructor
    · intro h
      refine ⟨fun s' o h₁ => h 0 s [] i s' o rfl rfl h₁, fun s₁ o h₁ => ?_⟩
      have hok : ok s i := (hstep s i hs hpre.1).mp fun s' o' h' => h 0 s [] i s' o' rfl rfl h'
      have hI : I s₁ := hkeep s i s₁ o hs hpre.1 hok h₁
      refine (ih hI (hpre.2 s₁ o h₁)).mp fun n s₂ os j s' o' hr hj h' => ?_
      exact h (n + 1) s₂ (o :: os) j s' o' (run_cons.mpr ⟨s₁, o, os, h₁, hr, rfl⟩) hj h'
    · intro h n s₂ os j s' o' hr hj h'
      cases n with
      | zero =>
        cases hr
        cases hj
        exact h.1 s' o' h'
      | succ n =>
        obtain ⟨s₁, o, os₁, h₁, hr₁, -⟩ := run_cons.mp hr
        have hok := (hstep s i hs hpre.1).mp h.1
        have hI : I s₁ := hkeep s i s₁ o hs hpre.1 hok h₁
        exact (ih hI (hpre.2 s₁ o h₁)).mpr (h.2 s₁ o h₁) n s₂ os₁ j s' o' hr₁ hj h'

/-- Where every step is allowed. -/
theorem steps_iff_legal {I : σ → Prop} {Q : σ → ι → σ → Prop}
    (hkeep : ∀ s i s' o, I s → ok s i → step s i = some (s', o) → I s')
    (hstep : ∀ s i, I s → ((∀ s' o, step s i = some (s', o) → Q s i s') ↔ ok s i))
    {s : σ} {is : List ι} (hs : I s) :
    (∀ n s₁ os i s' o, run step s (is.take n) = some (s₁, os) → is[n]? = some i →
      step s₁ i = some (s', o) → Q s₁ i s') ↔ Legal step ok s is :=
  steps_iff_legal_of (fun s i s' o hI _ => hkeep s i s' o hI) (fun s i hI _ => hstep s i hI) hs
    (legal_true s is)

/-- Every step of the run returns, with `Q` between its states, its input and its output. -/
def Steps (step : Machine σ ι ο) (Q : σ → ι → σ → ο → Prop) : σ → List ι → Prop
  | _, [] => True
  | s, i :: is => ∃ s' o, step s i = some (s', o) ∧ Q s i s' o ∧ Steps step Q s' is

/-- If in the states of an invariant the steps that satisfy `ok` return with `Q` and keep the
invariant, and only these return with `Q`, then all steps of a run do exactly when it is legal. -/
theorem all_steps_iff_legal {I : σ → Prop} {Q : σ → ι → σ → ο → Prop}
    (hkeep : ∀ s i, I s → ok s i → ∃ s' o, step s i = some (s', o) ∧ Q s i s' o ∧ I s')
    (honly : ∀ s i s' o, I s → step s i = some (s', o) → Q s i s' o → ok s i)
    {s : σ} {is : List ι} (hs : I s) : Steps step Q s is ↔ Legal step ok s is := by
  induction is generalizing s with
  | nil => exact Iff.rfl
  | cons i is ih =>
    constructor
    · rintro ⟨s₁, o, h₁, hQ, hrest⟩
      have hok := honly s i s₁ o hs h₁ hQ
      obtain ⟨s₂, o₂, h₂, -, hI⟩ := hkeep s i hs hok
      refine ⟨hok, fun s' o' h' => ?_⟩
      rw [h₁] at h₂ h'
      cases h₂
      cases h'
      exact (ih hI).mp hrest
    · intro h
      obtain ⟨s₁, o, h₁, hQ, hI⟩ := hkeep s i hs h.1
      exact ⟨s₁, o, h₁, hQ, (ih hI).mpr (h.2 s₁ o h₁)⟩

/-- If every legal step of a machine is matched by a step of an abstract machine with the
same output, every legal run is matched by an abstract run with the same outputs. -/
theorem run_simulates {abs : τ → ι → τ × ο} {R : σ → τ → Prop}
    (hstep : ∀ s t i, R s t → ok s i →
      ∃ s', step s i = some (s', (abs t i).2) ∧ R s' (abs t i).1)
    {s : σ} {t : τ} {is : List ι} (hs : R s t) (hl : Legal step ok s is) :
    ∃ s' t' os, run step s is = some (s', os) ∧
      run (fun t i => some (abs t i)) t is = some (t', os) ∧ R s' t' := by
  induction is generalizing s t with
  | nil => exact ⟨s, t, [], rfl, rfl, hs⟩
  | cons i is ih =>
    obtain ⟨s₁, h₁, hR⟩ := hstep s t i hs hl.1
    obtain ⟨s₂, t₂, os, h₂, h₃, hR₂⟩ := ih hR (hl.2 s₁ _ h₁)
    exact ⟨s₂, t₂, (abs t i).2 :: os, run_cons.mpr ⟨s₁, _, os, h₁, h₂, rfl⟩,
      run_cons.mpr ⟨(abs t i).1, _, os, rfl, h₃, rfl⟩, hR₂⟩

end Machine

end TuyaSdk.Lib
