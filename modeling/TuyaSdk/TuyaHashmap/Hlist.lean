import TuyaSdk.Lib.Chain

/-!
# Hash lists

`tuya_hlist.h`: a list head holds the address of the first node, and a node the address of
the next one and, in `pprev`, the address of the field that points to it, which is either
the head's `first` or the predecessor's `next`. Nodes and heads are addresses with `0` for
`NULL`; the fields are functions of the address.
-/

namespace TuyaSdk.TuyaHlist
open TuyaSdk.Lib

/-- The address of a pointer field: `&h->first` or `&n->next`. -/
inductive Slot
  | first (h : Nat)
  | next (n : Nat)
  deriving DecidableEq, Repr

/-- The list heads and nodes in memory. -/
structure HlistMem where
  first : Nat → Nat
  next : Nat → Nat
  pprev : Nat → Slot

/-- `*slot = v`. -/
def store (m : HlistMem) (slot : Slot) (v : Nat) : HlistMem :=
  match slot with
  | .first h => { m with first := Function.update m.first h v }
  | .next n => { m with next := Function.update m.next n v }

def setPprev (m : HlistMem) (n : Nat) (slot : Slot) : HlistMem :=
  { m with pprev := Function.update m.pprev n slot }

/-- `tuya_hlist_empty`. -/
def tuyaHlistEmpty (m : HlistMem) (h : Nat) : Bool := m.first h = 0

/-- `tuya_hlist_add_head`. -/
def tuyaHlistAddHead (m : HlistMem) (n h : Nat) : HlistMem :=
  let first := m.first h
  let m := store m (.next n) first
  let m := if first ≠ 0 then setPprev m first (.next n) else m
  let m := store m (.first h) n
  setPprev m n (.first h)

/-- `__tuya_hlist_del`. -/
def internalTuyaHlistDel (m : HlistMem) (n : Nat) : HlistMem :=
  let next := m.next n
  let pprev := m.pprev n
  let m := store m pprev next
  if next ≠ 0 then setPprev m next pprev else m

/-! ## The nodes of a list -/

/-- The slot behind the nodes `l` of a list that starts at `slot`. -/
def slotAfter (slot : Slot) : List Nat → Slot
  | [] => slot
  | n :: l => slotAfter (.next n) l

/-- Every node's `pprev` is the slot that points to it. -/
def BackLinks (m : HlistMem) : Slot → List Nat → Prop
  | _, [] => True
  | slot, n :: l => m.pprev n = slot ∧ BackLinks m (.next n) l

/-- The list at the head `h` has the nodes `l`. -/
structure HlistRep (m : HlistMem) (h : Nat) (l : List Nat) : Prop where
  chain : Chain m.next (m.first h) l
  back : BackLinks m (.first h) l
  nodup : l.Nodup

section

variable {m m' : HlistMem} {h n : Nat} {l xs ys : List Nat} {slot : Slot}

theorem slotAfter_concat : slotAfter slot (xs ++ [n]) = .next n := by
  induction xs generalizing slot with
  | nil => rfl
  | cons x xs ih => exact ih

theorem backLinks_append :
    BackLinks m slot (xs ++ ys) ↔ BackLinks m slot xs ∧ BackLinks m (slotAfter slot xs) ys := by
  induction xs generalizing slot with
  | nil => simp [BackLinks, slotAfter]
  | cons x xs ih => simp only [List.cons_append, BackLinks, slotAfter, ih, and_assoc]

theorem BackLinks.congr (hb : BackLinks m slot l) (heq : ∀ n ∈ l, m'.pprev n = m.pprev n) :
    BackLinks m' slot l := by
  induction l generalizing slot with
  | nil => trivial
  | cons n l ih =>
    exact ⟨(heq n (by simp)).trans hb.1, ih hb.2 fun k hk => heq k (by simp [hk])⟩

/-- A list is not affected by changes at other heads and nodes. -/
theorem HlistRep.congr (hr : HlistRep m h l) (hfirst : m'.first h = m.first h)
    (hnext : ∀ n ∈ l, m'.next n = m.next n) (hpprev : ∀ n ∈ l, m'.pprev n = m.pprev n) :
    HlistRep m' h l := by
  refine ⟨?_, hr.back.congr hpprev, hr.nodup⟩
  rw [hfirst]
  exact Segment.congr hr.chain hnext

theorem HlistRep.empty_iff (hr : HlistRep m h l) : tuyaHlistEmpty m h = true ↔ l = [] := by
  unfold tuyaHlistEmpty
  rw [decide_eq_true_eq]
  cases l with
  | nil =>
    have h0 : m.first h = 0 := hr.chain
    simp [h0]
  | cons n l =>
    obtain ⟨h1, h2, -⟩ := hr.chain
    simp [h1, h2]

/-- Adding a node at the head changes the head, the node and the back link of the node that
was first. -/
theorem addHead_fields (hr : HlistRep m h l) (hn : n ∉ l) :
    (tuyaHlistAddHead m n h).first = Function.update m.first h n ∧
      (tuyaHlistAddHead m n h).next = Function.update m.next n (m.first h) ∧
      ∀ k, k ≠ n → k ∉ l → (tuyaHlistAddHead m n h).pprev k = m.pprev k := by
  unfold tuyaHlistAddHead
  cases l with
  | nil =>
    have h0 : m.first h = 0 := hr.chain
    simp only [h0, ne_eq, not_true, if_false, setPprev, store]
    refine ⟨trivial, trivial, fun k hk _ => Function.update_of_ne hk ..⟩
  | cons a l =>
    obtain ⟨h1, h2, -⟩ := hr.chain
    simp only [h1, ne_eq, h2, not_false_iff, if_true, setPprev, store]
    refine ⟨trivial, trivial, fun k hk hkl => ?_⟩
    rw [Function.update_of_ne hk, Function.update_of_ne]
    rintro rfl
    exact hkl (by simp)

theorem addHead_spec (hr : HlistRep m h l) (hn : n ∉ l) (h0 : n ≠ 0) :
    HlistRep (tuyaHlistAddHead m n h) h (n :: l) := by
  obtain ⟨hfirst, hnext, -⟩ := addHead_fields hr hn
  refine ⟨?_, ?_, List.nodup_cons.mpr ⟨hn, hr.nodup⟩⟩
  · rw [hfirst, hnext, Function.update_self]
    refine ⟨rfl, h0, ?_⟩
    rw [Function.update_self]
    refine Segment.congr hr.chain fun a ha => Function.update_of_ne ?_ ..
    rintro rfl
    exact hn ha
  · unfold tuyaHlistAddHead
    cases l with
    | nil =>
      have hf : m.first h = 0 := hr.chain
      simp [hf, setPprev, store, BackLinks]
    | cons a l =>
      obtain ⟨h1, h2, -⟩ := hr.chain
      have hna : a ≠ n := by
        rintro rfl
        exact hn (by simp)
      have hal := (List.nodup_cons.mp hr.nodup).1
      simp only [h1, ne_eq, h2, not_false_iff, if_true, setPprev, store]
      refine ⟨Function.update_self .., ?_, ?_⟩
      · show Function.update (Function.update m.pprev a (.next n)) n (.first h) a = .next n
        rw [Function.update_of_ne hna, Function.update_self]
      · refine hr.back.2.congr fun k hk => ?_
        have hkn : k ≠ n := by
          rintro rfl
          exact hn (by simp [hk])
        have hka : k ≠ a := by
          rintro rfl
          exact hal hk
        show Function.update (Function.update m.pprev a (.next n)) n (.first h) k = m.pprev k
        rw [Function.update_of_ne hkn, Function.update_of_ne hka]

theorem store_pprev (m : HlistMem) (slot : Slot) (v : Nat) : (store m slot v).pprev = m.pprev := by
  cases slot <;> rfl

/-- `__tuya_hlist_del` stores into the slot that points to the node, and into the back link
of the node after it. -/
theorem del_fields (m : HlistMem) (n : Nat) :
    (internalTuyaHlistDel m n).first = (store m (m.pprev n) (m.next n)).first ∧
      (internalTuyaHlistDel m n).next = (store m (m.pprev n) (m.next n)).next ∧
      (m.next n ≠ 0 → (internalTuyaHlistDel m n).pprev (m.next n) = m.pprev n) ∧
      ∀ k, m.next n = 0 ∨ k ≠ m.next n → (internalTuyaHlistDel m n).pprev k = m.pprev k := by
  unfold internalTuyaHlistDel
  by_cases h0 : m.next n = 0
  · simp only [h0, ne_eq, not_true, if_false, store_pprev]
    exact ⟨trivial, trivial, fun h => h.elim, fun _ _ => trivial⟩
  · simp only [ne_eq, h0, not_false_iff, if_true, setPprev, store_pprev]
    exact ⟨trivial, trivial, fun _ => Function.update_self .., fun k hk =>
      Function.update_of_ne (hk.resolve_left id) ..⟩

/-- The links of a list from which the node behind `xs` is taken out. -/
theorem del_chain (hr : HlistRep m h (xs ++ n :: ys)) :
    Chain (store m (slotAfter (.first h) xs) (m.next n)).next
      ((store m (slotAfter (.first h) xs) (m.next n)).first h) (xs ++ ys) := by
  obtain ⟨r, hxs, rfl, h0, hys⟩ := segment_append.mp hr.chain
  rcases List.eq_nil_or_concat xs with rfl | ⟨zs, z, rfl⟩
  · show Chain m.next (Function.update m.first h (m.next r) h) ys
    rw [Function.update_self]
    exact hys
  · rw [List.concat_eq_append] at hxs hr ⊢
    rw [slotAfter_concat]
    have hnd := hr.nodup
    have hzs : ∀ k ∈ zs, k ≠ z := by grind
    have hys' : ∀ k ∈ ys, k ≠ z := by grind
    refine segment_append.mpr ⟨m.next r, hxs.relink ?_ ?_, ?_⟩
    · exact fun k hk => Function.update_of_ne (hzs k hk) ..
    · exact Function.update_self ..
    · exact hys.congr fun k hk => Function.update_of_ne (hys' k hk) ..

/-- Deleting a node from its list; other lists and nodes are not touched. -/
theorem del_spec (hr : HlistRep m h (xs ++ n :: ys)) :
    HlistRep (internalTuyaHlistDel m n) h (xs ++ ys) ∧
      (∀ g, g ≠ h → (internalTuyaHlistDel m n).first g = m.first g) ∧
      ∀ k, k ∉ xs ++ n :: ys → (internalTuyaHlistDel m n).next k = m.next k ∧
        (internalTuyaHlistDel m n).pprev k = m.pprev k := by
  obtain ⟨hback₁, hslot, hback₂⟩ := backLinks_append.mp hr.back
  obtain ⟨hfirst, hnext, hset, hkeep⟩ := del_fields m n
  have hchain := del_chain hr
  rw [← hslot, ← hfirst, ← hnext] at hchain
  obtain ⟨r, hxs, rfl, h0, hys⟩ := segment_append.mp hr.chain
  have hnd := hr.nodup
  -- the node after the deleted one is the only one whose back link changes
  have hstart : m.next r = ys.headD 0 := chain_start hys
  refine ⟨⟨hchain, backLinks_append.mpr ⟨?_, ?_⟩, ?_⟩, ?_, ?_⟩
  · refine hback₁.congr fun k hk => hkeep k ?_
    cases ys with
    | nil => exact Or.inl hstart
    | cons y ys =>
      right
      rintro rfl
      rw [hstart] at hk
      simp only [List.headD_cons] at hk
      grind
  · cases ys with
    | nil => trivial
    | cons y ys =>
      have hy : m.next r = y := hstart
      have hy0 : m.next r ≠ 0 := by
        rw [hy]
        exact hys.ne_zero (by simp)
      refine ⟨?_, hback₂.2.congr fun k hk => hkeep k (Or.inr ?_)⟩
      · rw [← hslot, ← hset hy0, hy]
      · rw [hy]
        rintro rfl
        grind
  · grind
  · intro g hg
    rw [hfirst, hslot]
    rcases List.eq_nil_or_concat xs with rfl | ⟨zs, z, rfl⟩
    · exact Function.update_of_ne hg ..
    · rw [List.concat_eq_append, slotAfter_concat]
      rfl
  · intro k hk
    have hkr : m.next r = 0 ∨ k ≠ m.next r := by
      cases ys with
      | nil => exact Or.inl hstart
      | cons y ys =>
        right
        rintro rfl
        rw [hstart] at hk
        simp at hk
    refine ⟨?_, hkeep k hkr⟩
    rw [hnext, hslot]
    rcases List.eq_nil_or_concat xs with rfl | ⟨zs, z, rfl⟩
    · rfl
    · rw [List.concat_eq_append, slotAfter_concat]
      refine Function.update_of_ne ?_ ..
      rintro rfl
      simp at hk

end

end TuyaSdk.TuyaHlist
