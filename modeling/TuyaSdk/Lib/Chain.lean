import Mathlib

/-!
# NULL-terminated linked lists

Nodes are addresses, `next` gives each node's successor and `0` is NULL.
`Segment next p l q` says that from `p` the links pass through exactly the nodes `l` and
arrive at `q`; a list is a segment that arrives at NULL. Inserting or removing a node
changes links at one place, so every edit is a split at that place (`segment_append`), a
change of the last link of the part before it (`Segment.relink`), and agreement of the
links elsewhere (`Segment.congr`).
-/

namespace TuyaSdk.Lib

/-- From `p` the links pass through the nodes `l` and arrive at `q`. -/
def Segment (next : Nat → Nat) : Nat → List Nat → Nat → Prop
  | p, [], q => p = q
  | p, a :: l, q => p = a ∧ a ≠ 0 ∧ Segment next (next a) l q

/-- From `p` the links pass through the nodes `l` and end. -/
def Chain (next : Nat → Nat) (p : Nat) (l : List Nat) : Prop := Segment next p l 0

variable {next next' : Nat → Nat}

@[simp] theorem segment_nil {p q : Nat} : Segment next p [] q ↔ p = q := Iff.rfl

@[simp] theorem segment_cons {p a q : Nat} {l : List Nat} :
    Segment next p (a :: l) q ↔ p = a ∧ a ≠ 0 ∧ Segment next (next a) l q := Iff.rfl

theorem segment_append {p q : Nat} {l₁ l₂ : List Nat} :
    Segment next p (l₁ ++ l₂) q ↔ ∃ r, Segment next p l₁ r ∧ Segment next r l₂ q := by
  induction l₁ generalizing p with
  | nil => simp
  | cons a l ih =>
    simp only [List.cons_append, segment_cons, ih]
    constructor
    · rintro ⟨rfl, h0, r, h1, h2⟩
      exact ⟨r, ⟨rfl, h0, h1⟩, h2⟩
    · rintro ⟨r, ⟨rfl, h0, h1⟩, h2⟩
      exact ⟨rfl, h0, r, h1, h2⟩

/-- Two memories with the same links at the nodes have the same segments. -/
theorem Segment.congr {p q : Nat} {l : List Nat} (h : Segment next p l q)
    (heq : ∀ a ∈ l, next' a = next a) : Segment next' p l q := by
  induction l generalizing p with
  | nil => exact h
  | cons a l ih =>
    obtain ⟨rfl, h0, h1⟩ := h
    refine ⟨rfl, h0, ?_⟩
    rw [heq p List.mem_cons_self]
    exact ih h1 fun b hb => heq b (List.mem_cons_of_mem _ hb)

/-- The nodes of a segment are not NULL. -/
theorem Segment.ne_zero {p q a : Nat} {l : List Nat} (h : Segment next p l q) (ha : a ∈ l) :
    a ≠ 0 := by
  induction l generalizing p with
  | nil => simp at ha
  | cons b l ih =>
    obtain ⟨rfl, h0, h1⟩ := h
    rcases List.mem_cons.mp ha with rfl | ha
    · exact h0
    · exact ih h1 ha

/-- A segment ends in the link of its last node. -/
theorem segment_concat {p a q : Nat} {l : List Nat} :
    Segment next p (l ++ [a]) q ↔ Segment next p l a ∧ a ≠ 0 ∧ next a = q := by
  rw [segment_append]
  constructor
  · rintro ⟨r, h, rfl, h0, h1⟩
    exact ⟨h, h0, h1⟩
  · rintro ⟨h, h0, h1⟩
    exact ⟨a, h, rfl, h0, h1⟩

/-- Storing another successor in the last node makes the segment arrive there. -/
theorem Segment.relink {p a q q' : Nat} {l : List Nat} (h : Segment next p (l ++ [a]) q)
    (heq : ∀ b ∈ l, next' b = next b) (ha : next' a = q') :
    Segment next' p (l ++ [a]) q' := by
  obtain ⟨h1, h0, -⟩ := segment_concat.mp h
  exact segment_concat.mpr ⟨h1.congr heq, h0, ha⟩

/-- The address a chain starts at is its first node, or NULL. -/
theorem chain_start {p : Nat} {l : List Nat} (h : Chain next p l) : p = l.headD 0 := by
  cases l with
  | nil => exact h
  | cons a l => exact h.1

/-- The links determine the nodes of a chain. -/
theorem Chain.unique {p : Nat} {l₁ l₂ : List Nat} (h₁ : Chain next p l₁)
    (h₂ : Chain next p l₂) : l₁ = l₂ := by
  induction l₁ generalizing p l₂ with
  | nil =>
    cases h₁
    cases l₂ with
    | nil => rfl
    | cons b l₂ => exact absurd h₂.1.symm h₂.2.1
  | cons a l₁ ih =>
    obtain ⟨rfl, h0, h₁⟩ := h₁
    cases l₂ with
    | nil => exact absurd h₂ h0
    | cons b l₂ =>
      obtain ⟨rfl, -, h₂⟩ := h₂
      rw [ih h₁ h₂]

end TuyaSdk.Lib
