import Mathlib

/-!
# Queues in a ring of cells

A ring of `n` cells holds a queue of fewer than `n` elements between two positions, `out`
(the oldest element) and `inn` (the first cell behind the newest). `slot n p i` is the cell
`i` places behind `p`, with at most one wrap. `Ring.Holds` relates cells and positions to
the queue; the rules say what appending at `inn` and dropping at `out` do to it.
-/

namespace TuyaSdk.Lib

/-- The cell `i` places behind `p` in a ring of `n` cells. -/
def slot (n p i : Nat) : Nat := if p + i < n then p + i else p + i - n

theorem slot_zero {n p : Nat} (h : p < n) : slot n p 0 = p := if_pos h

theorem slot_of_lt {n p i : Nat} (h : p + i < n) : slot n p i = p + i := if_pos h

theorem slot_of_le {n p i : Nat} (h : n ≤ p + i) : slot n p i = p + i - n :=
  if_neg (Nat.not_lt.mpr h)

theorem slot_lt {n p i : Nat} (hp : p < n) (hi : i ≤ n) : slot n p i < n := by
  unfold slot
  split <;> omega

theorem slot_slot {n p i j : Nat} (hp : p < n) (hij : i + j ≤ n) :
    slot n (slot n p i) j = slot n p (i + j) := by
  unfold slot
  grind

theorem slot_inj {n p i j : Nat} (hi : i < n) (hj : j < n) (h : slot n p i = slot n p j) :
    i = j := by
  unfold slot at h
  grind

/-- The distance from `out` to `inn` in ring order. -/
def distance (n out inn : Nat) : Nat := if out ≤ inn then inn - out else n - (out - inn)

theorem distance_slot {n p i : Nat} (hp : p < n) (hi : i < n) : distance n p (slot n p i) = i := by
  unfold distance slot
  grind

variable {α : Type*}

/-- The cells of a ring of `n` cells between `out` and `inn` are the queue `q`. -/
structure Ring.Holds (n : Nat) (cells : Nat → α) (out inn : Nat) (q : List α) : Prop where
  out_lt : out < n
  length_lt : q.length < n
  inn_eq : inn = slot n out q.length
  cell : ∀ i (h : i < q.length), cells (slot n out i) = q[i]

namespace Ring.Holds

variable {n out inn : Nat} {cells cells' : Nat → α} {q xs : List α}

theorem nil (cells : Nat → α) (h : out < n) : Ring.Holds n cells out out [] where
  out_lt := h
  length_lt := Nat.zero_lt_of_lt h
  inn_eq := (slot_zero h).symm
  cell := fun _ hi => absurd hi (Nat.not_lt_zero _)

theorem inn_lt (h : Ring.Holds n cells out inn q) : inn < n := by
  rw [h.inn_eq]
  exact slot_lt h.out_lt (Nat.le_of_lt h.length_lt)

theorem length_eq (h : Ring.Holds n cells out inn q) : q.length = distance n out inn := by
  rw [h.inn_eq, distance_slot h.out_lt h.length_lt]

/-- The cell `j` places behind `inn` is `q.length + j` places behind `out`. -/
theorem slot_inn (h : Ring.Holds n cells out inn q) {j : Nat} (hj : q.length + j ≤ n) :
    slot n inn j = slot n out (q.length + j) := by
  rw [h.inn_eq, slot_slot h.out_lt hj]

/-- Filling the cells behind `inn` with `xs` appends `xs`, if a cell stays free. -/
theorem append (h : Ring.Holds n cells out inn q) {k : Nat} (hk : xs.length = k)
    (hlen : q.length + k < n) (hnew : ∀ j (hj : j < xs.length), cells' (slot n inn j) = xs[j])
    (hold : ∀ x, (∀ j < k, x ≠ slot n inn j) → cells' x = cells x) :
    Ring.Holds n cells' out (slot n inn k) (q ++ xs) where
  out_lt := h.out_lt
  length_lt := by
    rw [List.length_append, hk]
    exact hlen
  inn_eq := by rw [h.slot_inn (Nat.le_of_lt hlen), List.length_append, hk]
  cell := by
    intro i hi
    rw [List.length_append] at hi
    rcases Nat.lt_or_ge i q.length with hlt | hge
    · have hfree : ∀ j < k, slot n out i ≠ slot n inn j := by
        intro j hj heq
        rw [h.slot_inn (by omega)] at heq
        have := slot_inj (by omega) (by omega) heq
        omega
      rw [hold _ hfree, h.cell i hlt, List.getElem_append_left hlt]
    · have hslot : slot n out i = slot n inn (i - q.length) := by
        rw [h.slot_inn (by omega), Nat.add_sub_cancel' hge]
      rw [hslot, hnew _ (by omega), List.getElem_append_right hge]

/-- Moving `out` over `k` elements drops them. -/
theorem drop (h : Ring.Holds n cells out inn q) {k : Nat} (hk : k ≤ q.length) :
    Ring.Holds n cells (slot n out k) inn (q.drop k) where
  out_lt := slot_lt h.out_lt (Nat.le_trans hk (Nat.le_of_lt h.length_lt))
  length_lt := by
    rw [List.length_drop]
    exact Nat.lt_of_le_of_lt (Nat.sub_le _ _) h.length_lt
  inn_eq := by
    have hle := h.length_lt
    rw [List.length_drop, slot_slot h.out_lt (by omega), Nat.add_sub_cancel' hk]
    exact h.inn_eq
  cell := by
    intro i hi
    have hle := h.length_lt
    rw [List.length_drop] at hi
    rw [slot_slot h.out_lt (by omega), h.cell _ (by omega), List.getElem_drop]

end Ring.Holds

/-! ## Transfers with one wrap

A transfer of `k` elements to or from the cells behind `p` is made in two copies: up to the
end of the ring, and the rest from its start. -/

/-- `n` elements of `src` from `s` stored in `dst` from `d`. -/
def copyTo (dst : Nat → α) (d : Nat) (src : Nat → α) (s n : Nat) : Nat → α := fun x =>
  if d ≤ x ∧ x < d + n then src (s + (x - d)) else dst x

@[simp] theorem copyTo_zero (dst : Nat → α) (d : Nat) (src : Nat → α) (s : Nat) :
    copyTo dst d src s 0 = dst := by
  funext x
  exact if_neg (by omega)

theorem copyTo_apply {dst src : Nat → α} {d s n x : Nat} (h : x < d ∨ d + n ≤ x) :
    copyTo dst d src s n x = dst x := if_neg (by omega)

theorem copyTo_copied {dst src : Nat → α} {d s n k : Nat} (h : k < n) :
    copyTo dst d src s n (d + k) = src (s + k) := by
  unfold copyTo
  rw [if_pos (by omega), Nat.add_sub_cancel_left]

/-- The position behind `k` cells, as a transfer computes it. -/
theorem slot_eq_transfer {n p k : Nat} (hp : p < n) (hk : k < n) :
    slot n p k =
      if n ≤ (if 0 < k - min (n - p) k then k - min (n - p) k else p + min (n - p) k) then 0
      else if 0 < k - min (n - p) k then k - min (n - p) k else p + min (n - p) k := by
  unfold slot
  grind

/-- The two copies of a transfer out of the ring. -/
theorem copyTo_out {dst cells : Nat → α} {n p k : Nat} (hp : p < n) :
    copyTo (copyTo dst 0 cells p (min (n - p) k)) (min (n - p) k) cells 0 (k - min (n - p) k) =
      fun x => if x < k then cells (slot n p x) else dst x := by
  funext x
  unfold copyTo slot
  grind

/-- The two copies of a transfer into the ring, at a cell filled by them. -/
theorem copyTo_in {src cells : Nat → α} {n p k j : Nat} (hp : p < n) (hk : k < n) (hj : j < k) :
    copyTo (copyTo cells p src 0 (min (n - p) k)) 0 src (min (n - p) k) (k - min (n - p) k)
      (slot n p j) = src j := by
  rcases Nat.lt_or_ge (p + j) n with hlt | hge
  · have hout : k - min (n - p) k ≤ p + j := by omega
    rw [slot_of_lt hlt, copyTo_apply (Or.inr (by omega)), copyTo_copied (by omega), Nat.zero_add]
  · have hpos : p + j - n < k - min (n - p) k := by omega
    rw [slot_of_le hge, ← Nat.zero_add (p + j - n), copyTo_copied hpos]
    congr 1
    omega

/-- The two copies of a transfer into the ring, beside the cells filled by them. -/
theorem copyTo_in_apply {src cells : Nat → α} {n p k x : Nat} (hp : p < n)
    (hx : ∀ j < k, x ≠ slot n p j) :
    copyTo (copyTo cells p src 0 (min (n - p) k)) 0 src (min (n - p) k) (k - min (n - p) k) x =
      cells x := by
  have hend : ¬(p ≤ x ∧ x < p + min (n - p) k) := by
    rintro ⟨h₁, h₂⟩
    apply hx (x - p) (by omega)
    rw [slot_of_lt (by omega)]
    omega
  have hstart : ¬x < k - min (n - p) k := by
    intro h
    apply hx (x + (n - p)) (by omega)
    rw [slot_of_le (by omega)]
    omega
  rw [copyTo_apply (by omega), copyTo_apply (by omega)]

/-! ## Counters that run around a ring

A position in a ring of `n` cells is a counter that never wraps, reduced modulo `n`. Two
counters less than a ring apart are at one position only if they are equal, and their distance
is read off the positions. -/

section
variable {n a b : Nat}

theorem counter_inj (hab : a ≤ b) (hlt : b < a + n) (h : a % n = b % n) : a = b := by
  have hdvd : n ∣ b - a := Nat.dvd_of_mod_eq_zero (Nat.sub_mod_eq_zero_of_mod_eq h.symm)
  have hzero : b - a = 0 := Nat.eq_zero_of_dvd_of_lt hdvd (by omega)
  omega

/-- The next position. -/
theorem counter_succ (hn : 0 < n) (a : Nat) :
    (a + 1) % n = if a % n + 1 = n then 0 else a % n + 1 := by
  have hlt := Nat.mod_lt a hn
  rw [Nat.add_mod_eq_add_mod_right 1 (Nat.mod_mod a n).symm]
  split_ifs with h
  · rw [h, Nat.mod_self]
  · exact Nat.mod_eq_of_lt (by omega)

/-- A position some cells further. -/
theorem counter_add (hn : 0 < n) (ha : a % n = b) {k : Nat} (hk : k ≤ n) :
    (a + k) % n = if b + k < n then b + k else b + k - n := by
  have hlt : b < n := ha ▸ Nat.mod_lt a hn
  rw [Nat.add_mod_eq_add_mod_right k (by rw [ha, Nat.mod_eq_of_lt hlt] : a % n = b % n)]
  split_ifs with h
  · exact Nat.mod_eq_of_lt h
  · rw [Nat.mod_eq_sub_mod (by omega), Nat.mod_eq_of_lt (by omega)]

/-- The distance of two counters from their positions. -/
theorem counter_distance (hn : 0 < n) (hab : a ≤ b) (hlt : b < a + n) :
    b - a = if a % n ≤ b % n then b % n - a % n else n - a % n + b % n := by
  have hb := counter_add hn (rfl : a % n = a % n) (show b - a ≤ n by omega)
  rw [Nat.add_sub_cancel' hab] at hb
  have ha := Nat.mod_lt a hn
  split_ifs at hb ⊢ <;> omega

/-- The next element behind a prefix. -/
theorem prefix_concat_getElem {α : Type*} {l l' : List α} (h : l <+: l')
    (hlt : l.length < l'.length) : l ++ [l'[l.length]] <+: l' := by
  obtain ⟨t, rfl⟩ := h
  cases t with
  | nil => simp at hlt
  | cons x t => simp

end

end TuyaSdk.Lib
