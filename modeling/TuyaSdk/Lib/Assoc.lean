import Mathlib

/-!
# Association lists that keep their places

`Assoc.put` replaces the value of a key where it stands, or appends the key at the end: the
map that a table of records stands for when a record is updated in place.
-/

namespace TuyaSdk.Lib.Assoc

variable {κ α : Type*} [DecidableEq κ]

/-- The list with the value `v` for the key `k`. -/
def put : List (κ × α) → κ → α → List (κ × α)
  | [], k, v => [(k, v)]
  | e :: t, k, v => if e.1 = k then (k, v) :: t else e :: put t k v

/-- The value of the key `k`. -/
def get : List (κ × α) → κ → Option α
  | [], _ => none
  | e :: t, k => if e.1 = k then some e.2 else get t k

/-- The keys in order. -/
def keys (t : List (κ × α)) : List κ := t.map Prod.fst

variable {t : List (κ × α)} {k k' : κ} {v : α}

theorem put_cons (e : κ × α) (t : List (κ × α)) (k : κ) (v : α) :
    put (e :: t) k v = if e.1 = k then (k, v) :: t else e :: put t k v :=
  rfl

theorem get_cons (e : κ × α) (t : List (κ × α)) (k : κ) :
    get (e :: t) k = if e.1 = k then some e.2 else get t k :=
  rfl

omit [DecidableEq κ] in
theorem keys_cons (e : κ × α) (t : List (κ × α)) : keys (e :: t) = e.1 :: keys t :=
  rfl

theorem get_put_same (t : List (κ × α)) (k : κ) (v : α) : get (put t k v) k = some v := by
  induction t with
  | nil => exact if_pos rfl
  | cons e t ih =>
    rw [put_cons]
    by_cases h : e.1 = k
    · rw [if_pos h, get_cons, if_pos rfl]
    · rw [if_neg h, get_cons, if_neg h, ih]

theorem get_put_ne (h : k' ≠ k) : get (put t k v) k' = get t k' := by
  induction t with
  | nil => exact if_neg h.symm
  | cons e t ih =>
    rw [put_cons]
    by_cases hk : e.1 = k
    · have hk' : e.1 ≠ k' := fun he => h (he.symm.trans hk)
      rw [if_pos hk, get_cons, get_cons, if_neg h.symm, if_neg hk']
    · rw [if_neg hk, get_cons, get_cons, ih]

theorem get_eq_none : get t k = none ↔ k ∉ keys t := by
  induction t with
  | nil => exact iff_of_true rfl List.not_mem_nil
  | cons e t ih =>
    rw [get_cons, keys_cons, List.mem_cons, not_or]
    by_cases h : e.1 = k
    · rw [if_pos h]
      exact iff_of_false (Option.some_ne_none _) fun h' => h'.1 h.symm
    · rw [if_neg h, ih]
      exact ⟨fun h' => ⟨fun he => h he.symm, h'⟩, And.right⟩

/-- A key that is there divides the list. -/
theorem split_of_get (h : get t k = some v) :
    ∃ pre post, t = pre ++ (k, v) :: post ∧ k ∉ keys pre := by
  induction t with
  | nil => cases h
  | cons e t ih =>
    rw [get_cons] at h
    by_cases hk : e.1 = k
    · rw [if_pos hk] at h
      cases h
      exact ⟨[], t, by rw [← hk]; rfl, List.not_mem_nil⟩
    · rw [if_neg hk] at h
      obtain ⟨pre, post, rfl, hpre⟩ := ih h
      refine ⟨e :: pre, post, rfl, ?_⟩
      rw [keys_cons, List.mem_cons, not_or]
      exact ⟨fun he => hk he.symm, hpre⟩

theorem put_split {pre post : List (κ × α)} {w : α} (h : k ∉ keys pre) :
    put (pre ++ (k, w) :: post) k v = pre ++ (k, v) :: post := by
  induction pre with
  | nil => exact if_pos rfl
  | cons e pre ih =>
    rw [keys_cons, List.mem_cons, not_or] at h
    rw [List.cons_append, put_cons, if_neg fun he => h.1 he.symm, ih h.2]
    rfl

theorem put_new (h : k ∉ keys t) : put t k v = t ++ [(k, v)] := by
  induction t with
  | nil => rfl
  | cons e t ih =>
    rw [keys_cons, List.mem_cons, not_or] at h
    rw [put_cons, if_neg fun he => h.1 he.symm, ih h.2]
    rfl

theorem mem_put {e : κ × α} (h : e ∈ put t k v) : e ∈ t ∨ e = (k, v) := by
  induction t with
  | nil => exact .inr (List.mem_singleton.mp h)
  | cons d t ih =>
    rw [put_cons] at h
    split at h
    next =>
      rcases List.mem_cons.mp h with h | h
      · exact .inr h
      · exact .inl (List.mem_cons_of_mem _ h)
    next =>
      rcases List.mem_cons.mp h with h | h
      · exact .inl (h ▸ List.mem_cons_self)
      · rcases ih h with h | h
        · exact .inl (List.mem_cons_of_mem _ h)
        · exact .inr h

theorem keys_nodup_put (h : (keys t).Nodup) (k : κ) (v : α) : (keys (put t k v)).Nodup := by
  cases hg : get t k with
  | none =>
    have hk := get_eq_none.mp hg
    rw [put_new hk, keys, List.map_append, List.nodup_append]
    refine ⟨h, List.nodup_singleton _, ?_⟩
    intro a ha b hb he
    rw [List.mem_singleton.mp hb] at he
    rw [he] at ha
    exact hk ha
  | some w =>
    obtain ⟨pre, post, rfl, hpre⟩ := split_of_get hg
    rw [put_split hpre]
    simpa [keys] using h

theorem put_ne_nil (t : List (κ × α)) (k : κ) (v : α) : put t k v ≠ [] := by
  intro h
  have hg := get_put_same t k v
  rw [h] at hg
  cases hg

theorem mem_keys_put : k' ∈ keys (put t k v) ↔ k' = k ∨ k' ∈ keys t := by
  rw [← not_iff_not, ← get_eq_none, not_or, ← get_eq_none]
  by_cases hk : k' = k
  · rw [hk, get_put_same]
    exact iff_of_false (Option.some_ne_none _) fun h => h.1 rfl
  · rw [get_put_ne hk]
    exact (and_iff_right hk).symm

theorem get_of_mem_keys (h : k ∈ keys t) : ∃ v, get t k = some v :=
  Option.ne_none_iff_exists'.mp fun hnone => get_eq_none.mp hnone h

/-! ## Values that are mapped -/

variable {β : Type*} (f : α → β)

/-- The list with the function `f` applied to each value. -/
def mapVal (t : List (κ × α)) : List (κ × β) := t.map fun e => (e.1, f e.2)

theorem get_mapVal (t : List (κ × α)) (k : κ) : get (mapVal f t) k = (get t k).map f := by
  induction t with
  | nil => rfl
  | cons e t ih =>
    rw [mapVal, List.map_cons, get_cons, get_cons]
    by_cases hk : e.1 = k
    · rw [if_pos hk, if_pos hk]
      rfl
    · rw [if_neg hk, if_neg hk]
      exact ih

theorem mapVal_put (t : List (κ × α)) (k : κ) (v : α) :
    mapVal f (put t k v) = put (mapVal f t) k (f v) := by
  induction t with
  | nil => rfl
  | cons e t ih =>
    have hcons : mapVal f (e :: t) = (e.1, f e.2) :: mapVal f t := rfl
    rw [put_cons, hcons, put_cons]
    by_cases hk : e.1 = k
    · rw [if_pos hk, if_pos hk]
      rfl
    · rw [if_neg hk, if_neg hk, ← ih]
      rfl

theorem keys_mapVal (t : List (κ × α)) : keys (mapVal f t) = keys t := by
  rw [keys, mapVal, List.map_map]
  rfl

end TuyaSdk.Lib.Assoc
