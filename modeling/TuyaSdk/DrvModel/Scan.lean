import TuyaSdk.DrvModel

/-!
# The scan of a device table

The search loops of `drv_model.c` compare the name in each slot of a table with the name they
look for, over the length of the latter. A slot ends the loop when its name starts with that
name, and also when it has no name, which is an access through `NULL`. How a loop ends is decided
by the first such slot, and by whether the loop stays in the table (`scan_eq_found_iff`,
`scan_eq_missing_iff`).
-/

namespace TuyaSdk.DrvModel
open Lib

/-- How the scan of a table ends: at a slot, behind the last, or with an access through `NULL`
or outside the table. -/
inductive Scan where
  | found (i : Nat)
  | missing
  | outside
  deriving DecidableEq, Repr

/-- The search loop over a table of `size` slots with the names `names`, with `n` passes from
slot `i` left. -/
def scan (names : Nat → Option Name) (size : Nat) (devName : Name) : Nat → Nat → Scan
  | 0, _ => .missing
  | n + 1, i =>
    if size ≤ i then .outside
    else
      match names i with
      | none => .outside
      | some name =>
        if strncmpEq name devName devName.length then .found i
        else scan names size devName n (i + 1)

section Scan

variable {names : Nat → Option Name} {size n i j : Nat} {q : Name}

/-- Slot `j` ends the scan: it has no name, or one that starts with `q`. -/
def Stops (names : Nat → Option Name) (q : Name) (j : Nat) : Prop :=
  ∀ name, names j = some name → q <+: name

/-- No slot before `j` ends the scan. -/
def Passes (names : Nat → Option Name) (q : Name) (j : Nat) : Prop :=
  ∀ k < j, ¬ Stops names q k

instance (names : Nat → Option Name) (q : Name) (j : Nat) : Decidable (Stops names q j) :=
  inferInstanceAs (Decidable (∀ name ∈ names j, q <+: name))

instance (names : Nat → Option Name) (q : Name) (j : Nat) : Decidable (Passes names q j) :=
  inferInstanceAs (Decidable (∀ k < j, ¬ Stops names q k))

theorem stops_of_name (h : names j = some q) : Stops names q j := by
  intro name hname
  rw [h] at hname
  cases hname
  exact List.prefix_rfl

theorem not_stops_iff : ¬ Stops names q j ↔ ∃ name, names j = some name ∧ ¬ q <+: name := by
  simp only [Stops, not_forall, exists_prop]

/-- The first slot that ends the scan. -/
theorem exists_first (h : Stops names q j) : ∃ k ≤ j, Stops names q k ∧ Passes names q k := by
  classical
  have hex : ∃ k, Stops names q k := ⟨j, h⟩
  exact ⟨Nat.find hex, Nat.find_min' hex h, Nat.find_spec hex, fun k hk => Nat.find_min hex hk⟩

theorem scan_succ_of_stops (hi : i < size) (h : Stops names q i) : scan names size q (n + 1) i =
    match names i with | none => .outside | some _ => .found i := by
  rw [scan, if_neg (Nat.not_le_of_lt hi)]
  cases hname : names i with
  | none => rfl
  | some name =>
    have hpre : strncmpEq name q q.length = true := by
      rw [strncmpEq_eq]
      exact List.isPrefixOf_iff_prefix.mpr (h name hname)
    exact if_pos hpre

theorem scan_succ_of_not (hi : i < size) (h : ¬ Stops names q i) :
    scan names size q (n + 1) i = scan names size q n (i + 1) := by
  obtain ⟨name, hname, hno⟩ := not_stops_iff.mp h
  have hpre : ¬ strncmpEq name q q.length = true := by
    rw [strncmpEq_eq]
    exact fun hp => hno (List.isPrefixOf_iff_prefix.mp hp)
  rw [scan, if_neg (Nat.not_le_of_lt hi), hname]
  exact if_neg hpre

/-- The scan passes over the slots that do not end it. -/
theorem scan_passes (hj : j ≤ n) (hs : j ≤ size) (h : Passes names q j) :
    scan names size q n 0 = scan names size q (n - j) j := by
  induction j with
  | zero => rfl
  | succ j ih =>
    have hstep : n - j = n - (j + 1) + 1 := by omega
    rw [ih (by omega) (by omega) fun k hk => h k (Nat.lt_succ_of_lt hk), hstep,
      scan_succ_of_not (by omega) (h j (Nat.lt_succ_self j))]

/-- The scan ends at the first slot that ends it. -/
theorem scan_of_stops (hj : j < n) (hs : j < size) (hstop : Stops names q j)
    (h : Passes names q j) : scan names size q n 0 =
      match names j with | none => .outside | some _ => .found j := by
  have hstep : n - j = n - j - 1 + 1 := by omega
  rw [scan_passes (by omega) (by omega) h, hstep, scan_succ_of_stops hs hstop]

/-- A scan that no slot ends comes to the end of the loop, or leaves the table before. -/
theorem scan_of_passes (h : Passes names q (min n size)) :
    scan names size q n 0 = if n ≤ size then .missing else .outside := by
  split
  next hle =>
    rw [Nat.min_eq_left hle] at h
    rw [scan_passes (Nat.le_refl n) hle h, Nat.sub_self]
    rfl
  next hlt =>
    have hle : size ≤ n := Nat.le_of_not_le hlt
    have hstep : n - size = n - size - 1 + 1 := by omega
    rw [Nat.min_eq_right hle] at h
    rw [scan_passes hle (Nat.le_refl size) h, hstep, scan, if_pos (Nat.le_refl size)]

/-- Every scan is one of the two. -/
theorem scan_cases (names : Nat → Option Name) (size n : Nat) (q : Name) :
    (∃ j < min n size, Stops names q j ∧ Passes names q j) ∨ Passes names q (min n size) := by
  by_cases h : ∃ j < min n size, Stops names q j
  · obtain ⟨j, hj, hstop⟩ := h
    obtain ⟨k, hk, hstop', hpass⟩ := exists_first hstop
    exact .inl ⟨k, by omega, hstop', hpass⟩
  · exact .inr fun k hk hstop => h ⟨k, hk, hstop⟩

theorem scan_eq_missing_iff : scan names size q n 0 = .missing ↔ n ≤ size ∧ Passes names q n := by
  constructor
  · intro h
    rcases scan_cases names size n q with ⟨j, hj, hstop, hpass⟩ | hpass
    · rw [scan_of_stops (by omega) (by omega) hstop hpass] at h
      split at h <;> cases h
    · rw [scan_of_passes hpass] at h
      split at h
      next hle =>
        rw [Nat.min_eq_left hle] at hpass
        exact ⟨hle, hpass⟩
      next => cases h
  · intro ⟨hle, hpass⟩
    rw [scan_of_passes (by rwa [Nat.min_eq_left hle]), if_pos hle]

theorem scan_eq_found_iff : scan names size q n 0 = .found i ↔
    i < n ∧ i < size ∧ names i ≠ none ∧ Stops names q i ∧ Passes names q i := by
  constructor
  · intro h
    rcases scan_cases names size n q with ⟨j, hj, hstop, hpass⟩ | hpass
    · rw [scan_of_stops (by omega) (by omega) hstop hpass] at h
      cases hname : names j with
      | none =>
        rw [hname] at h
        cases h
      | some name =>
        rw [hname] at h
        cases h
        exact ⟨by omega, by omega, by rw [hname]; exact Option.some_ne_none name, hstop, hpass⟩
    · rw [scan_of_passes hpass] at h
      split at h <;> cases h
  · intro ⟨hn, hs, hname, hstop, hpass⟩
    rw [scan_of_stops hn hs hstop hpass]
    cases h : names i with
    | none => exact absurd h hname
    | some name => rfl

end Scan

end TuyaSdk.DrvModel
