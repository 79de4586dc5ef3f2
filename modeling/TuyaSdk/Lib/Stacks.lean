import Mathlib

/-!
# Keyed stacks

A map from keys to stacks of data. It is represented by one list of entries, the most
recent first, of which the stack of a key is the part with that key (`stacksOf`): pushing
is consing to the list, and popping takes out the first entry with the key.
-/

namespace TuyaSdk.Lib

/-- A stack of data for every key, top first. -/
abbrev Stacks (K D : Type*) := K → List D

namespace Stacks

variable {K D E : Type*} [DecidableEq K]

def push (s : Stacks K D) (k : K) (d : D) : Stacks K D := Function.update s k (d :: s k)

def pop (s : Stacks K D) (k : K) : Stacks K D := Function.update s k (s k).tail

/-- Taking out the datum `d` nearest to the top of the stack of `k`. -/
def remove [DecidableEq D] (s : Stacks K D) (k : K) (d : D) : Stacks K D :=
  Function.update s k ((s k).erase d)

/-- The number of data in all stacks. -/
noncomputable def count (s : Stacks K D) : Nat := ∑ᶠ k, (s k).length

variable {key : E → K} {val : E → D} {es xs ys : List E} {e : E} {k : K}

/-- The stacks of a list of entries. -/
def stacksOf (key : E → K) (val : E → D) (es : List E) : Stacks K D := fun k =>
  (es.filter fun e => key e = k).map val

theorem stacksOf_cons : stacksOf key val (e :: es) = (stacksOf key val es).push (key e) (val e) := by
  funext k
  unfold push stacksOf
  by_cases h : key e = k
  · subst h
    simp
  · rw [Function.update_of_ne (fun heq => h heq.symm)]
    simp [h]

theorem stacksOf_congr {key' : E → K} {val' : E → D} (hkey : ∀ e ∈ es, key' e = key e)
    (hval : ∀ e ∈ es, val' e = val e) : stacksOf key' val' es = stacksOf key val es := by
  funext k
  unfold stacksOf
  have hfilter : es.filter (fun e => key' e = k) = es.filter fun e => key e = k :=
    List.filter_congr fun e he => by rw [hkey e he]
  rw [hfilter]
  exact List.map_congr_left fun e he => hval e (List.mem_filter.mp he).1

theorem top_stacksOf : (stacksOf key val es k).head? = (es.find? fun e => key e = k).map val := by
  rw [stacksOf, List.head?_map, List.head?_filter]

theorem stacksOf_eq_nil : stacksOf key val es k = [] ↔ ∀ e ∈ es, key e ≠ k := by
  simp [stacksOf, List.filter_eq_nil_iff]

theorem mem_stacksOf {d : D} : d ∈ stacksOf key val es k ↔ ∃ e ∈ es, key e = k ∧ val e = d := by
  simp [stacksOf, and_assoc]

/-- Taking out the first entry with a key pops its stack. -/
theorem stacksOf_pop (h : ∀ x ∈ xs, key x ≠ key e) :
    stacksOf key val (xs ++ ys) = (stacksOf key val (xs ++ e :: ys)).pop (key e) := by
  funext k
  unfold pop stacksOf
  by_cases hk : key e = k
  · subst hk
    have hnone : xs.filter (fun x => key x = key e) = [] := by
      rw [List.filter_eq_nil_iff]
      intro x hx
      simpa using h x hx
    simp [hnone]
  · rw [Function.update_of_ne (fun heq => hk heq.symm)]
    simp [hk]

/-- Taking out the first entry with a key and a datum takes the datum out of the stack. -/
theorem stacksOf_remove [DecidableEq D] (h : ∀ x ∈ xs, key x = key e → val x ≠ val e) :
    stacksOf key val (xs ++ ys) = (stacksOf key val (xs ++ e :: ys)).remove (key e) (val e) := by
  funext k
  unfold remove stacksOf
  by_cases hk : key e = k
  · subst hk
    have hnot : val e ∉ (xs.filter fun x => key x = key e).map val := by
      intro hmem
      obtain ⟨x, hx, hval⟩ := List.mem_map.mp hmem
      obtain ⟨hx, hkey⟩ := List.mem_filter.mp hx
      exact h x hx (by simpa using hkey) hval
    simp [List.erase_append_right _ hnot]
  · rw [Function.update_of_ne (fun heq => hk heq.symm)]
    simp [hk]

/-- The data in the stacks are those of the entries. -/
theorem count_stacksOf : (stacksOf key val es).count = es.length := by
  have hcount : ∀ k, (stacksOf key val es k).length = (es.map key).count k := by
    intro k
    rw [stacksOf, List.length_map, List.count, List.countP_map, List.countP_eq_length_filter]
    simp [Function.comp_def, beq_eq_decide]
  unfold count
  rw [finsum_congr hcount]
  have hsupp : Function.support (fun k => (es.map key).count k) ⊆ (es.map key).toFinset := by
    intro k hk
    have hk : (es.map key).count k ≠ 0 := hk
    simpa [List.count_eq_zero] using hk
  rw [finsum_eq_sum_of_support_subset _ hsupp, List.sum_toFinset_count_eq_length,
    List.length_map]

end Stacks

end TuyaSdk.Lib
