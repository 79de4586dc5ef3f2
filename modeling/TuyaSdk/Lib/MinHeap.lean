import Mathlib

/-!
# Binary heaps with a hole

A binary tree lies in the first `n` places of an array, the parent of place `i` at
`(i - 1) / 2`. An element that is not in the array yet is brought in through a hole: the hole
moves up while the element is below the parent there (`Rises`), or down while it is above a
child (`Sinks`), and the element is put where the hole stops. Each move is one lemma, and does
not change what the array holds once the element is put in.

`Largest H S` says that `H` are the largest elements of `S`, as many as `H` has. A heap that
replaces its root by each larger element keeps the largest of those it has seen.
-/

namespace TuyaSdk.Lib.MinHeap

variable {α : Type*}

/-- The place of the parent. -/
abbrev parent (i : Nat) : Nat := (i - 1) / 2

/-- `h` with `x` at place `p`. -/
def put (h : Nat → α) (p : Nat) (x : α) : Nat → α := fun i => if i = p then x else h i

@[simp] theorem put_same (h : Nat → α) (p : Nat) (x : α) : put h p x p = x := if_pos rfl

theorem put_other {h : Nat → α} {p i : Nat} {x : α} (hi : i ≠ p) : put h p x i = h i := if_neg hi

/-- The elements in the first `n` places. -/
def elems (h : Nat → α) (n : Nat) : Multiset α := (Multiset.range n).map h

theorem card_elems (h : Nat → α) (n : Nat) : (elems h n).card = n := by
  rw [elems, Multiset.card_map, Multiset.card_range]

theorem mem_elems {h : Nat → α} {n : Nat} {x : α} : x ∈ elems h n ↔ ∃ i < n, h i = x := by
  simp only [elems, Multiset.mem_map, Multiset.mem_range]

theorem elems_succ (h : Nat → α) (n : Nat) : elems h (n + 1) = h n ::ₘ elems h n := by
  rw [elems, Multiset.range_succ, Multiset.map_cons, elems]

theorem elems_congr {h h' : Nat → α} {n : Nat} (heq : ∀ i < n, h i = h' i) :
    elems h n = elems h' n :=
  Multiset.map_congr rfl fun i hi => heq i (Multiset.mem_range.mp hi)

/-- An element put behind the others. -/
theorem elems_put_last (h : Nat → α) (n : Nat) (x : α) :
    elems (put h n x) (n + 1) = x ::ₘ elems h n := by
  rw [elems_succ, put_same, elems_congr fun i hi => put_other (Nat.ne_of_lt hi)]

/-- An element put in place of the root. -/
theorem elems_put_root (h : Nat → α) {n : Nat} (hn : 0 < n) (x : α) :
    h 0 ::ₘ elems (put h 0 x) n = x ::ₘ elems h n := by
  have hzero : (0 : Nat) ∈ Multiset.range n := Multiset.mem_range.mpr hn
  obtain ⟨rest, hrest⟩ := Multiset.exists_cons_of_mem hzero
  have hnodup := Multiset.nodup_range n
  rw [hrest, Multiset.nodup_cons] at hnodup
  have hsame : rest.map (put h 0 x) = rest.map h :=
    Multiset.map_congr rfl fun i hi => put_other fun h0 => hnodup.1 (h0 ▸ hi)
  rw [elems, elems, hrest, Multiset.map_cons, Multiset.map_cons, put_same, hsame,
    Multiset.cons_swap]

/-- The hole moves from `p` to `q`, and what was at `q` comes to `p`. -/
theorem elems_move (h : Nat → α) {n p q : Nat} (hp : p < n) (hq : q < n) (x : α) :
    elems (put (put h p (h q)) q x) n = elems (put h p x) n := by
  have hswap : put (put h p (h q)) q x = put h p x ∘ Equiv.swap p q := by
    funext i
    rw [Function.comp_apply]
    by_cases hiq : i = q
    · rw [hiq, put_same, Equiv.swap_apply_right, put_same]
    by_cases hip : i = p
    · rw [hip, put_other (hip ▸ hiq), put_same, Equiv.swap_apply_left,
        put_other (Ne.symm (hip ▸ hiq))]
    · rw [put_other hiq, put_other hip, Equiv.swap_apply_of_ne_of_ne hip hiq, put_other hip]
  have hperm : (Multiset.range n).map (Equiv.swap p q) = Multiset.range n := by
    refine (Multiset.Nodup.ext ?_ (Multiset.nodup_range n)).mpr fun i => ?_
    · exact (Multiset.nodup_range n).map (Equiv.injective _)
    rw [Multiset.mem_map]
    constructor
    · rintro ⟨j, hj, rfl⟩
      rw [Multiset.mem_range] at hj ⊢
      rw [Equiv.swap_apply_def]
      split
      · exact hq
      · split
        · exact hp
        · exact hj
    · intro hi
      refine ⟨Equiv.swap p q i, ?_, Equiv.swap_apply_self p q i⟩
      rw [Multiset.mem_range] at hi ⊢
      rw [Equiv.swap_apply_def]
      split
      · exact hq
      · split
        · exact hp
        · exact hi
  rw [hswap, elems, ← Multiset.map_map, hperm, elems]

section Order

variable [LinearOrder α] {h : Nat → α} {n p : Nat} {x : α}

/-- The heap order: no element is below its parent. -/
def Ordered (h : Nat → α) (n : Nat) : Prop := ∀ i, 0 < i → i < n → h (parent i) ≤ h i

theorem Ordered.root_le (ho : Ordered h n) : ∀ i < n, h 0 ≤ h i := by
  intro i
  induction i using Nat.strong_induction_on with
  | _ i ih =>
    intro hi
    by_cases h0 : i = 0
    · rw [h0]
    · have hpos : 0 < i := Nat.pos_of_ne_zero h0
      exact (ih (parent i) (by unfold parent; omega) (by unfold parent; omega)).trans
        (ho i hpos hi)

theorem Ordered.root_le_elems (ho : Ordered h n) : ∀ y ∈ elems h n, h 0 ≤ y := by
  intro y hy
  obtain ⟨i, hi, rfl⟩ := mem_elems.mp hy
  exact ho.root_le i hi

/-! ## The hole moves up -/

/-- The order is right but for the element in the hole, which may be below its parent. -/
structure Rises (h : Nat → α) (n p : Nat) (x : α) : Prop where
  lt : p < n
  order : ∀ i, 0 < i → i < n → i ≠ p → put h p x (parent i) ≤ put h p x i
  below : 0 < p → ∀ i, 0 < i → i < n → parent i = p → h (parent p) ≤ h i

/-- A new last place for the element. -/
theorem Ordered.rises (ho : Ordered h n) (x : α) : Rises h (n + 1) n x := by
  refine ⟨Nat.lt_succ_self n, ?_, ?_⟩
  · intro i hpos hi hne
    rw [put_other hne, put_other (by unfold parent; omega)]
    exact ho i hpos (by omega)
  · intro _ i hpos hi hparent
    unfold parent at hparent
    omega

theorem Rises.up (hr : Rises h n p x) (hp : 0 < p) (hx : x < h (parent p)) :
    Rises (put h p (h (parent p))) n (parent p) x := by
  have hlt : parent p < p := by unfold parent; omega
  have hpn := hr.lt
  -- the parent is above its own parent, and so are all below it
  have hup : 0 < parent p → h (parent (parent p)) ≤ h (parent p) := by
    intro hpos
    have ho := hr.order (parent p) hpos (by omega) (Nat.ne_of_lt hlt)
    rwa [put_other (Nat.ne_of_lt hlt), put_other (by unfold parent at hlt ⊢; omega)] at ho
  refine ⟨by omega, ?_, ?_⟩
  · intro i hpos hi hne
    rw [put_other hne]
    by_cases hip : i = p
    · rw [hip, put_same, put_same]
      exact le_of_lt hx
    rw [put_other hip]
    have ho := hr.order i hpos hi hip
    rw [put_other hip] at ho
    by_cases hparent : parent i = parent p
    · rw [hparent, put_same]
      rw [hparent, put_other (Nat.ne_of_lt hlt)] at ho
      exact (le_of_lt hx).trans ho
    rw [put_other hparent]
    by_cases hchild : parent i = p
    · rw [hchild, put_same]
      exact hr.below hp i hpos hi hchild
    · rw [put_other hchild]
      rwa [put_other hchild] at ho
  · intro hpos i hipos hi hparent
    have hpp : parent (parent p) ≠ p := by unfold parent at hlt ⊢; omega
    rw [put_other hpp]
    by_cases hip : i = p
    · rw [hip, put_same]
      exact hup hpos
    · rw [put_other hip]
      have ho := hr.order i hipos hi hip
      rw [put_other hip, hparent, put_other (Nat.ne_of_lt hlt)] at ho
      exact (hup hpos).trans ho

theorem Rises.done (hr : Rises h n p x) (hstop : p = 0 ∨ h (parent p) ≤ x) :
    Ordered (put h p x) n := by
  intro i hpos hi
  by_cases hip : i = p
  · rcases hstop with h0 | hle
    · omega
    · rw [hip, put_same, put_other (by unfold parent; omega)]
      exact hle
  · exact hr.order i hpos hi hip

/-! ## The hole moves down -/

/-- The order is right but for the element in the hole, which may be above its children. -/
structure Sinks (h : Nat → α) (n p : Nat) (x : α) : Prop where
  lt : p < n
  order : ∀ i, 0 < i → i < n → parent i ≠ p → put h p x (parent i) ≤ put h p x i
  below : 0 < p → ∀ i, 0 < i → i < n → parent i = p → h (parent p) ≤ h i

/-- The root makes place for the element. -/
theorem Ordered.sinks (ho : Ordered h n) (hn : 0 < n) (x : α) : Sinks h n 0 x := by
  refine ⟨hn, ?_, fun h0 => absurd h0 (Nat.lt_irrefl 0)⟩
  intro i hpos hi hne
  rw [put_other hne, put_other (Nat.ne_of_gt hpos)]
  exact ho i hpos hi

theorem Sinks.down {c : Nat} (hs : Sinks h n p x) (hc : 0 < c) (hcn : c < n) (hcp : parent c = p)
    (hx : h c < x) (hmin : ∀ d, 0 < d → d < n → parent d = p → h c ≤ h d) :
    Sinks (put h p (h c)) n c x := by
  have hpc : p < c := by unfold parent at hcp; omega
  refine ⟨hcn, ?_, ?_⟩
  · intro i hpos hi hne
    rw [put_other hne]
    by_cases hic : i = c
    · rw [hic, put_same, hcp, put_same]
      exact le_of_lt hx
    rw [put_other hic]
    by_cases hparent : parent i = p
    · have hip : i ≠ p := by unfold parent at hparent; omega
      rw [hparent, put_same, put_other hip]
      exact hmin i hpos hi hparent
    have ho := hs.order i hpos hi hparent
    rw [put_other hparent] at ho ⊢
    by_cases hip : i = p
    · rw [hip, put_same]
      exact hs.below (by omega) c hc hcn hcp
    · rw [put_other hip] at ho ⊢
      exact ho
  · intro _ i hipos hi hparent
    have hip : i ≠ p := by unfold parent at hparent hcp; omega
    have ho := hs.order i hipos hi (by omega)
    rw [put_other hip, hparent, put_other (Nat.ne_of_gt hpc)] at ho
    rw [hcp, put_same, put_other hip]
    exact ho

theorem Sinks.done (hs : Sinks h n p x)
    (hstop : ∀ d, 0 < d → d < n → parent d = p → x ≤ h d) : Ordered (put h p x) n := by
  intro i hpos hi
  by_cases hparent : parent i = p
  · have hip : i ≠ p := by unfold parent at hparent; omega
    rw [hparent, put_same, put_other hip]
    exact hstop i hpos hi hparent
  · exact hs.order i hpos hi hparent

/-! ## The largest elements -/

variable {H S : Multiset α} {m y : α}

/-- `H` are the largest elements of `S`, as many as `H` has. -/
def Largest (H S : Multiset α) : Prop := ∃ R, S = H + R ∧ ∀ r ∈ R, ∀ y ∈ H, r ≤ y

theorem Largest.refl (S : Multiset α) : Largest S S :=
  ⟨0, (Multiset.add_zero S).symm, fun _ hr => absurd hr (Multiset.notMem_zero _)⟩

/-- An element that is above none of them. -/
theorem Largest.skip (hl : Largest H S) (hx : ∀ y ∈ H, x ≤ y) : Largest H (x ::ₘ S) := by
  obtain ⟨R, rfl, hR⟩ := hl
  refine ⟨x ::ₘ R, by rw [Multiset.add_cons], ?_⟩
  intro r hr
  rcases Multiset.mem_cons.mp hr with rfl | hr
  · exact hx
  · exact hR r hr

/-- An element above the least of them takes its place. -/
theorem Largest.replace {H' : Multiset α} (hl : Largest H S) (hH : m ::ₘ H' = x ::ₘ H)
    (hm : m ∈ H) (hmin : ∀ y ∈ H, m ≤ y) (hx : m ≤ x) : Largest H' (x ::ₘ S) := by
  obtain ⟨R, rfl, hR⟩ := hl
  refine ⟨m ::ₘ R, ?_, ?_⟩
  · rw [Multiset.add_cons, ← Multiset.cons_add, ← Multiset.cons_add, hH]
  have hle : ∀ y ∈ H', m ≤ y := by
    intro y hy
    have hmem : y ∈ x ::ₘ H := hH ▸ Multiset.mem_cons_of_mem hy
    rcases Multiset.mem_cons.mp hmem with rfl | hmem
    · exact hx
    · exact hmin y hmem
  intro r hr y hy
  rcases Multiset.mem_cons.mp hr with rfl | hr
  · exact hle y hy
  · exact (hR r hr m hm).trans (hle y hy)

/-- The least of the largest elements has as many elements of the sorted whole before it as
there are others. -/
theorem Largest.getElem_sort (hl : Largest H S) (hm : m ∈ H) (hmin : ∀ y ∈ H, m ≤ y)
    {i : Nat} (hi : i < (S.sort (· ≤ ·)).length) (hcard : i + H.card = S.card) :
    (S.sort (· ≤ ·))[i] = m := by
  obtain ⟨R, rfl, hR⟩ := hl
  obtain ⟨H', rfl⟩ := Multiset.exists_cons_of_mem hm
  -- the whole in order: the others, the element, the rest of the largest
  have hsplit : (m ::ₘ H' + R).sort (· ≤ ·) =
      R.sort (· ≤ ·) ++ m :: H'.sort (· ≤ ·) := by
    refine List.Perm.eq_of_pairwise' (Multiset.pairwise_sort _ (· ≤ ·)) ?_ ?_
    · rw [List.pairwise_append]
      refine ⟨Multiset.pairwise_sort _ _, ?_, ?_⟩
      · rw [List.pairwise_cons]
        refine ⟨fun y hy => ?_, Multiset.pairwise_sort _ _⟩
        exact hmin y (Multiset.mem_cons_of_mem ((Multiset.mem_sort _).mp hy))
      · intro r hr y hy
        refine hR r ((Multiset.mem_sort _).mp hr) y ?_
        rcases List.mem_cons.mp hy with rfl | hy
        · exact Multiset.mem_cons_self y H'
        · exact Multiset.mem_cons_of_mem ((Multiset.mem_sort _).mp hy)
    · rw [← Multiset.coe_eq_coe, Multiset.sort_eq, ← Multiset.coe_add, ← Multiset.cons_coe,
        Multiset.sort_eq, Multiset.sort_eq, Multiset.add_comm]
  have hlen : (R.sort (· ≤ ·)).length = i := by
    rw [Multiset.length_sort]
    rw [Multiset.card_add] at hcard
    omega
  simp only [hsplit]
  rw [List.getElem_append_right (Nat.le_of_eq hlen)]
  simp only [hlen, Nat.sub_self, List.getElem_cons_zero]

end Order

end TuyaSdk.Lib.MinHeap
