import TuyaSdk.TuyaHashmap.Hlist
import TuyaSdk.Lib.Machine

/-!
# Runs over hash lists (`tuya_hlist.h`)

The nodes of any number of list heads, and what the calls are for: a node is added at the head of a
list, before or after a node of one, or taken out of whatever list it is in. An insertion is a store
into one slot and the repair of two back links, and a delete finds the slot in the node that it
takes out.

The comment of `tuya_hlist_add_after` gives its parameters as those of `tuya_hlist_add_before`, the
new node first. The function takes the new node second.
-/

namespace TuyaSdk.TuyaHlist
open TuyaSdk.Lib

/-! ## The functions -/

/-- `NULL` as a `pprev`: the field `next` is at the address of its node. -/
abbrev nullSlot : Slot := .next 0

/-- `*slot` -/
def load (m : HlistMem) : Slot → Nat
  | .first h => m.first h
  | .next n => m.next n

/-- `tuya_init_hlist_node` -/
def tuyaInitHlistNode (m : HlistMem) (h : Nat) : HlistMem :=
  let m := store m (.next h) 0
  setPprev m h nullSlot

/-- `tuya_hlist_unhashed` -/
def tuyaHlistUnhashed (m : HlistMem) (h : Nat) : Bool := m.pprev h = nullSlot

/-- `tuya_hlist_del` -/
def tuyaHlistDel (m : HlistMem) (n : Nat) : HlistMem := internalTuyaHlistDel m n

/-- `tuya_hlist_del_init` -/
def tuyaHlistDelInit (m : HlistMem) (n : Nat) : HlistMem :=
  if !tuyaHlistUnhashed m n then
    let m := internalTuyaHlistDel m n
    tuyaInitHlistNode m n
  else m

/-- `tuya_hlist_add_before` -/
def tuyaHlistAddBefore (m : HlistMem) (n next : Nat) : HlistMem :=
  let m := setPprev m n (m.pprev next)
  let m := store m (.next n) next
  let m := setPprev m next (.next n)
  store m (m.pprev n) n

/-- `tuya_hlist_add_after` -/
def tuyaHlistAddAfter (m : HlistMem) (n next : Nat) : HlistMem :=
  let m := store m (.next next) (m.next n)
  let m := store m (.next n) next
  let m := setPprev m next (.next n)
  if m.next next ≠ 0 then setPprev m (m.next next) (.next next) else m

/-! ## Lists -/

/-- The nodes of each list head, in order. -/
abbrev Lists := Nat → List Nat

/-- The node is on no list. -/
def Off (ls : Lists) (n : Nat) : Prop := ∀ h, n ∉ ls h

/-- The node is on a list. -/
def On (ls : Lists) (n : Nat) : Prop := ∃ h, n ∈ ls h

/-- Every list head has the nodes that are given for it, and no node is on two lists. -/
structure HlistsRep (m : HlistMem) (ls : Lists) : Prop where
  rep : ∀ h, HlistRep m h (ls h)
  apart : ∀ h g, h ≠ g → List.Disjoint (ls h) (ls g)

/-- The calls; the owner of a node may write to it. -/
inductive HlistOp
  | addHead (n h : Nat)
  | addBefore (n next : Nat)
  | addAfter (n next : Nat)
  | internalDel (n : Nat)
  | del (n : Nat)
  | delInit (n : Nat)
  | write (n next : Nat) (pprev : Slot)

/-- What a call does to the memory. -/
def HlistOp.call (m : HlistMem) : HlistOp → HlistMem
  | addHead n h => tuyaHlistAddHead m n h
  | addBefore n next => tuyaHlistAddBefore m n next
  | addAfter n next => tuyaHlistAddAfter m n next
  | internalDel n => internalTuyaHlistDel m n
  | del n => tuyaHlistDel m n
  | delInit n => tuyaHlistDelInit m n
  | write n next pprev => setPprev (store m (.next n) next) n pprev

/-- What a call is for. The new node of `addAfter` goes behind the one that is on a list, whichever
of the two it is. -/
def HlistOp.apply (ls : Lists) : HlistOp → Lists
  | addHead n h => Function.update ls h (n :: ls h)
  | addBefore n next => fun h => (ls h).flatMap fun x => if x = next then [n, x] else [x]
  | addAfter n next => fun h => (ls h).flatMap fun x =>
      if x = next then [x, n] else if x = n then [x, next] else [x]
  | internalDel n => fun h => (ls h).erase n
  | del n => fun h => (ls h).erase n
  | delInit n => fun h => (ls h).erase n
  | write _ _ _ => ls

/-- A call on the memory, beside the lists. -/
def hlist : Machine (HlistMem × Lists) HlistOp Unit := fun s op =>
  some ((op.call s.1, op.apply s.2), ())

/-- A new node is on no list, and a node that is deleted or added to is on one. -/
def Allowed (s : HlistMem × Lists) : HlistOp → Prop
  | .addHead n _ => n ≠ 0 ∧ Off s.2 n
  | .addBefore n next => n ≠ 0 ∧ Off s.2 n ∧ On s.2 next
  | .addAfter n next => n ≠ 0 ∧ Off s.2 n ∧ On s.2 next ∨ next ≠ 0 ∧ Off s.2 next ∧ On s.2 n
  | .internalDel n => On s.2 n
  | .del n => On s.2 n
  | .delInit n => On s.2 n ∨ Off s.2 n ∧ tuyaHlistUnhashed s.1 n
  | .write n _ _ => Off s.2 n

/-- The new node is the second argument of `tuya_hlist_add_after`, against its comment. -/
def NewNodeSecond (s : HlistMem × Lists) : HlistOp → Prop
  | .addAfter n _ => On s.2 n
  | _ => True

/-- Beside the node `n` itself, only the slot that points to it has changed, and the back link of
the node behind it. -/
structure TouchesNeighbours (m m' : HlistMem) (n : Nat) : Prop where
  first : ∀ h, m.pprev n ≠ .first h → m'.first h = m.first h
  next : ∀ k, k ≠ n → m.pprev n ≠ .next k → m'.next k = m.next k
  pprev : ∀ k, k ≠ n → m.next n ≠ k → m'.pprev k = m.pprev k

/-- What a call that deletes a node may touch; only `tuya_hlist_del_init` writes to the node. -/
def Touches (m m' : HlistMem) : HlistOp → Prop
  | .internalDel n => TouchesNeighbours m m' n ∧ m'.next n = m.next n ∧ m'.pprev n = m.pprev n
  | .del n => TouchesNeighbours m m' n ∧ m'.next n = m.next n ∧ m'.pprev n = m.pprev n
  | .delInit n => TouchesNeighbours m m' n
  | _ => True

/-- The links after a call: the lists are those that the call is for, every node is what its `pprev`
points to, and a delete has touched nothing else. -/
structure KeepsLinks (s : HlistMem × Lists) (op : HlistOp) (s' : HlistMem × Lists) : Prop where
  lists : HlistsRep s'.1 s'.2
  pointed : ∀ n, On s'.2 n → load s'.1 (s'.1.pprev n) = n
  touches : Touches s.1 s'.1 op

section

variable {m m' : HlistMem} {ls : Lists} {g h n next after : Nat} {l l' xs ys : List Nat}
  {slot : Slot}

/-! ## One list -/

/-- What an insertion of `n` between a slot and the node `after`, or the end, does. -/
structure InsertedAt (m m' : HlistMem) (slot : Slot) (n after : Nat) : Prop where
  first : m'.first = (store (store m (.next n) after) slot n).first
  next : m'.next = (store (store m (.next n) after) slot n).next
  own : m'.pprev n = slot
  back : after ≠ 0 → m'.pprev after = .next n
  kept : ∀ k, k ≠ n → after = 0 ∨ k ≠ after → m'.pprev k = m.pprev k

/-- A new node is not the one that a slot of the list is in. -/
theorem slotAfter_ne (hn : n ∉ xs) : slotAfter (.first h) xs ≠ .next n := by
  rcases List.eq_nil_or_concat xs with rfl | ⟨zs, z, rfl⟩
  · exact Slot.noConfusion
  · rw [List.concat_eq_append] at hn ⊢
    rw [slotAfter_concat]
    rintro heq
    cases heq
    exact hn (List.mem_append_right _ (List.mem_singleton.mpr rfl))

/-- The links of a list with a node added behind `xs`. -/
theorem InsertedAt.chain (hi : InsertedAt m m' (slotAfter (.first h) xs) n (ys.headD 0))
    (hr : HlistRep m h (xs ++ ys)) (hn : n ∉ xs ++ ys) (h0 : n ≠ 0) :
    Chain m'.next (m'.first h) (xs ++ n :: ys) := by
  obtain ⟨r, hxs, hys⟩ := segment_append.mp hr.chain
  have hstart : r = ys.headD 0 := chain_start hys
  have hny : n ∉ ys := fun hmem => hn (List.mem_append_right _ hmem)
  rw [hi.first, hi.next]
  rcases List.eq_nil_or_concat xs with rfl | ⟨zs, z, rfl⟩
  · refine ⟨Function.update_self .., h0, ?_⟩
    show Chain (Function.update m.next n (ys.headD 0)) (Function.update m.next n (ys.headD 0) n) ys
    rw [Function.update_self, ← hstart]
    exact hys.congr fun a ha => Function.update_of_ne (ne_of_mem_of_not_mem ha hny) ..
  · rw [List.concat_eq_append] at hn hr hxs ⊢
    have hnz : n ≠ z := by
      rintro rfl
      simp at hn
    have hnd := hr.nodup
    have hzs : ∀ k ∈ zs, k ≠ z ∧ k ≠ n := by grind
    have hys' : ∀ k ∈ ys, k ≠ z ∧ k ≠ n := by grind
    rw [slotAfter_concat]
    refine segment_append.mpr ⟨n, hxs.relink (fun k hk => ?_) ?_, rfl, h0, ?_⟩
    · show Function.update (Function.update m.next n (ys.headD 0)) z n k = m.next k
      rw [Function.update_of_ne (hzs k hk).1, Function.update_of_ne (hzs k hk).2]
    · exact Function.update_self ..
    · show Chain (Function.update (Function.update m.next n (ys.headD 0)) z n)
        (Function.update (Function.update m.next n (ys.headD 0)) z n n) ys
      rw [Function.update_of_ne hnz, Function.update_self, ← hstart]
      refine hys.congr fun k hk => ?_
      rw [Function.update_of_ne (hys' k hk).1, Function.update_of_ne (hys' k hk).2]

/-- An insertion adds the node to the list. -/
theorem InsertedAt.rep (hi : InsertedAt m m' (slotAfter (.first h) xs) n (ys.headD 0))
    (hr : HlistRep m h (xs ++ ys)) (hn : n ∉ xs ++ ys) (h0 : n ≠ 0) :
    HlistRep m' h (xs ++ n :: ys) := by
  obtain ⟨hback₁, hback₂⟩ := backLinks_append.mp hr.back
  have hnd := hr.nodup
  refine ⟨hi.chain hr hn h0, backLinks_append.mpr ⟨?_, hi.own, ?_⟩, ?_⟩
  · refine hback₁.congr fun k hk => hi.kept k ?_ ?_
    · rintro rfl
      exact hn (List.mem_append_left _ hk)
    · cases ys with
      | nil => exact Or.inl rfl
      | cons y ys =>
        right
        rintro rfl
        exact (List.nodup_append.mp hnd).2.2 _ hk _ List.mem_cons_self rfl
  · cases ys with
    | nil => trivial
    | cons y ys =>
      have hy0 : y ≠ 0 := Segment.ne_zero hr.chain (List.mem_append_right _ List.mem_cons_self)
      refine ⟨hi.back hy0, hback₂.2.congr fun k hk => hi.kept k ?_ (Or.inr ?_)⟩
      · rintro rfl
        exact hn (List.mem_append_right _ (List.mem_cons_of_mem _ hk))
      · rintro rfl
        exact (List.nodup_cons.mp (List.nodup_append.mp hnd).2.1).1 hk
  · refine List.nodup_middle.mpr (List.nodup_cons.mpr ⟨hn, hnd⟩)

/-- The other heads and nodes keep their fields. -/
theorem InsertedAt.frame (hi : InsertedAt m m' (slotAfter (.first h) xs) n (ys.headD 0)) :
    (∀ g, g ≠ h → m'.first g = m.first g) ∧
      ∀ k, k ∉ xs ++ n :: ys → m'.next k = m.next k ∧ m'.pprev k = m.pprev k := by
  have hkept : ∀ k, k ∉ xs ++ n :: ys → m'.pprev k = m.pprev k := by
    intro k hk
    refine hi.kept k (fun heq => hk (by simp [heq])) ?_
    cases ys with
    | nil => exact Or.inl rfl
    | cons y ys => exact Or.inr fun heq => hk (by simp_all)
  rw [hi.first, hi.next]
  rcases List.eq_nil_or_concat xs with rfl | ⟨zs, z, rfl⟩
  · refine ⟨fun g hg => Function.update_of_ne hg .., fun k hk => ⟨?_, hkept k hk⟩⟩
    exact Function.update_of_ne (fun heq => hk (by simp [heq])) ..
  · rw [List.concat_eq_append] at hkept ⊢
    rw [slotAfter_concat]
    refine ⟨fun _ _ => rfl, fun k hk => ⟨?_, hkept k hk⟩⟩
    show Function.update (Function.update m.next n (ys.headD 0)) z n k = m.next k
    rw [Function.update_of_ne fun heq => hk (by simp [heq]),
      Function.update_of_ne fun heq => hk (by simp [heq])]

/-! ## The insertions -/

theorem load_slotAfter (hr : HlistRep m h (xs ++ ys)) :
    load m (slotAfter (.first h) xs) = ys.headD 0 := by
  obtain ⟨r, hxs, hys⟩ := segment_append.mp hr.chain
  rw [← chain_start hys]
  rcases List.eq_nil_or_concat xs with rfl | ⟨zs, z, rfl⟩
  · exact hxs
  · rw [List.concat_eq_append] at hxs ⊢
    rw [slotAfter_concat]
    exact (segment_concat.mp hxs).2.2

theorem addHead_inserted (hr : HlistRep m h l) (hn : n ∉ l) :
    InsertedAt m (tuyaHlistAddHead m n h) (.first h) n (l.headD 0) := by
  have hfirst : m.first h = l.headD 0 := chain_start hr.chain
  have hne : l.headD 0 ≠ 0 → l.headD 0 ≠ n := by
    cases l with
    | nil => exact fun h0 => absurd rfl h0
    | cons a l => exact fun _ heq => hn (heq ▸ List.mem_cons_self)
  unfold tuyaHlistAddHead
  simp only [hfirst]
  split
  · next h0 =>
    refine ⟨rfl, rfl, Function.update_self .., fun _ => ?_, fun k hk hka => ?_⟩
    · show Function.update (Function.update m.pprev _ _) n _ _ = _
      rw [Function.update_of_ne (hne h0), Function.update_self]
    · show Function.update (Function.update m.pprev _ _) n _ _ = _
      rw [Function.update_of_ne hk, Function.update_of_ne (hka.resolve_left h0)]
  · next h0 =>
    refine ⟨rfl, rfl, Function.update_self .., fun ha => absurd ha h0, fun k hk _ => ?_⟩
    exact Function.update_of_ne hk ..

theorem addBefore_inserted (hr : HlistRep m h (xs ++ next :: ys)) (hn : n ∉ xs ++ next :: ys) :
    InsertedAt m (tuyaHlistAddBefore m n next) (slotAfter (.first h) xs) n next := by
  have hslot : m.pprev next = slotAfter (.first h) xs := (backLinks_append.mp hr.back).2.1
  have hne : n ≠ next := fun heq => hn (heq ▸ List.mem_append_right _ List.mem_cons_self)
  unfold tuyaHlistAddBefore
  simp only [hslot]
  have hpprev : (setPprev (store (setPprev m n (slotAfter (.first h) xs)) (.next n) next) next
      (.next n)).pprev n = slotAfter (.first h) xs := by
    show Function.update (Function.update m.pprev n _) next _ n = _
    rw [Function.update_of_ne hne, Function.update_self]
  rw [hpprev]
  refine ⟨?_, ?_, ?_, fun _ => ?_, fun k hk hkn => ?_⟩
  · cases slotAfter (.first h) xs <;> rfl
  · cases slotAfter (.first h) xs <;> rfl
  · rw [store_pprev]
    exact hpprev
  · rw [store_pprev]
    exact Function.update_self ..
  · have h0 : next ≠ 0 := Segment.ne_zero hr.chain (List.mem_append_right _ List.mem_cons_self)
    rw [store_pprev]
    show Function.update (Function.update m.pprev n _) next _ k = _
    rw [Function.update_of_ne (hkn.resolve_left h0), Function.update_of_ne hk]

/-- The node added behind `n` is the second argument. -/
theorem addAfter_inserted (hr : HlistRep m h (xs ++ n :: ys)) (hnext : next ∉ xs ++ n :: ys) :
    InsertedAt m (tuyaHlistAddAfter m n next) (.next n) next (ys.headD 0) := by
  have hload : m.next n = ys.headD 0 := by
    have hr' : HlistRep m h ((xs ++ [n]) ++ ys) := by simpa using hr
    have hload := load_slotAfter hr'
    rwa [slotAfter_concat] at hload
  have hne : next ≠ n := fun heq => hnext (heq ▸ by simp)
  have hhead : ys.headD 0 ≠ 0 → ys.headD 0 ≠ next := by
    cases ys with
    | nil => exact fun h0 => absurd rfl h0
    | cons a l => exact fun _ heq => hnext (heq ▸ by simp)
  unfold tuyaHlistAddAfter
  simp only [hload]
  have hafter : (setPprev (store (store m (.next next) (ys.headD 0)) (.next n) next) next
      (.next n)).next next = ys.headD 0 := by
    show Function.update (Function.update m.next next (ys.headD 0)) n next next = _
    rw [Function.update_of_ne hne, Function.update_self]
  rw [hafter]
  split
  · next h0 =>
    refine ⟨rfl, rfl, ?_, fun _ => Function.update_self .., fun k hk hka => ?_⟩
    · show Function.update (Function.update m.pprev next _) (ys.headD 0) _ next = _
      rw [Function.update_of_ne (hhead h0).symm, Function.update_self]
    · show Function.update (Function.update m.pprev next _) (ys.headD 0) _ k = _
      rw [Function.update_of_ne (hka.resolve_left h0), Function.update_of_ne hk]
  · next h0 =>
    refine ⟨rfl, rfl, Function.update_self .., fun ha => absurd ha h0, fun k hk _ => ?_⟩
    exact Function.update_of_ne hk ..

/-- Without a node before `n` that is on the list, what is behind `next` is lost. -/
theorem addAfter_chain (hr : HlistRep m h (xs ++ next :: ys)) (hn : n ∉ xs ++ next :: ys) :
    ¬ Chain (tuyaHlistAddAfter m n next).next ((tuyaHlistAddAfter m n next).first h)
      (xs ++ next :: n :: ys) := by
  intro hc
  have hne : n ≠ next := fun heq => hn (heq ▸ List.mem_append_right _ List.mem_cons_self)
  have hfield : (tuyaHlistAddAfter m n next).next n = next := by
    unfold tuyaHlistAddAfter
    simp only
    split
    · exact Function.update_self ..
    · exact Function.update_self ..
  obtain ⟨r, -, -, -, -, -, hys⟩ := segment_append.mp hc
  rw [hfield] at hys
  have hhead : next = ys.headD 0 := chain_start hys
  cases ys with
  | nil => exact Segment.ne_zero hr.chain (List.mem_append_right _ List.mem_cons_self) hhead
  | cons y ys =>
    have hnd := (List.nodup_append.mp hr.nodup).2.1
    exact (List.nodup_cons.mp hnd).1 (hhead ▸ List.mem_cons_self)

/-! ## All lists -/

theorem HlistsRep.split (hs : HlistsRep m ls) (hn : On ls n) :
    ∃ g xs ys, ls g = xs ++ n :: ys ∧ HlistRep m g (xs ++ n :: ys) := by
  obtain ⟨g, hg⟩ := hn
  obtain ⟨xs, ys, heq⟩ := List.append_of_mem hg
  exact ⟨g, xs, ys, heq, heq ▸ hs.rep g⟩

/-- A node is on one list only. -/
theorem HlistsRep.unique (hs : HlistsRep m ls) (hg : n ∈ ls g) (hh : n ∈ ls h) : g = h := by
  by_contra hne
  exact hs.apart g h hne hg hh

/-- A change of the list at `g` that touches no node of the others. -/
theorem HlistsRep.update (hs : HlistsRep m ls) (hrep : HlistRep m' g l')
    (hfirst : ∀ h, h ≠ g → m'.first h = m.first h)
    (hnodes : ∀ h, h ≠ g → ∀ k ∈ ls h, m'.next k = m.next k ∧ m'.pprev k = m.pprev k)
    (hapart : ∀ h, h ≠ g → List.Disjoint l' (ls h)) :
    HlistsRep m' (Function.update ls g l') := by
  constructor
  · intro h
    by_cases hh : h = g
    · subst hh
      rw [Function.update_self]
      exact hrep
    · rw [Function.update_of_ne hh]
      exact (hs.rep h).congr (hfirst h hh) (fun k hk => (hnodes h hh k hk).1)
        fun k hk => (hnodes h hh k hk).2
  · intro h f hne
    by_cases hh : h = g
    · subst hh
      rw [Function.update_self, Function.update_of_ne hne.symm]
      exact hapart f hne.symm
    · by_cases hf : f = g
      · subst hf
        rw [Function.update_self, Function.update_of_ne hh]
        exact (hapart h hh).symm
      · rw [Function.update_of_ne hh, Function.update_of_ne hf]
        exact hs.apart h f hne

theorem HlistsRep.insert (hs : HlistsRep m ls) (hg : ls g = xs ++ ys) (hn : Off ls n)
    (h0 : n ≠ 0) (hi : InsertedAt m m' (slotAfter (.first g) xs) n (ys.headD 0)) :
    HlistsRep m' (Function.update ls g (xs ++ n :: ys)) := by
  have hng := hn g
  rw [hg] at hng
  have hr := hs.rep g
  rw [hg] at hr
  obtain ⟨hfirst, hnodes⟩ := hi.frame
  have hmem : ∀ k, k ∈ xs ++ n :: ys → k = n ∨ k ∈ ls g := by
    intro k hk
    rw [hg]
    simp only [List.mem_append, List.mem_cons] at hk ⊢
    tauto
  refine hs.update (hi.rep hr hng h0) hfirst (fun h hh k hk => hnodes k fun hk' => ?_)
    fun h hh k hk hkh => ?_
  · rcases hmem k hk' with rfl | hkg
    · exact hn h hk
    · exact hh (hs.unique hk hkg)
  · rcases hmem k hk with rfl | hkg
    · exact hn h hkh
    · exact hh (hs.unique hkh hkg)

theorem HlistsRep.delete (hs : HlistsRep m ls) (hg : ls g = xs ++ n :: ys) :
    HlistsRep (internalTuyaHlistDel m n) (Function.update ls g (xs ++ ys)) := by
  have hr := hs.rep g
  rw [hg] at hr
  obtain ⟨hrep, hfirst, hnodes⟩ := del_spec hr
  refine hs.update hrep hfirst (fun h hh k hk => hnodes k fun hk' => ?_) fun h hh k hk hkh => ?_
  · rw [← hg] at hk'
    exact hh (hs.unique hk hk')
  · have hkg : k ∈ ls g := by
      rw [hg]
      simp only [List.mem_append, List.mem_cons] at hk ⊢
      tauto
    exact hh (hs.unique hkh hkg)

/-- A node that is on no list may be written. -/
theorem HlistsRep.write (hs : HlistsRep m ls) (hn : Off ls n) (hfirst : m'.first = m.first)
    (hnodes : ∀ k, k ≠ n → m'.next k = m.next k ∧ m'.pprev k = m.pprev k) : HlistsRep m' ls := by
  have hne : ∀ h, ∀ k ∈ ls h, k ≠ n := fun h k hk heq => hn h (heq ▸ hk)
  refine ⟨fun h => (hs.rep h).congr (by rw [hfirst]) (fun k hk => ?_) fun k hk => ?_, hs.apart⟩
  · exact (hnodes k (hne h k hk)).1
  · exact (hnodes k (hne h k hk)).2

/-- Every node is what its `pprev` points to. -/
theorem HlistsRep.pointed (hs : HlistsRep m ls) (hn : On ls n) : load m (m.pprev n) = n := by
  obtain ⟨g, xs, ys, -, hr⟩ := hs.split hn
  rw [(backLinks_append.mp hr.back).2.1, load_slotAfter hr]
  rfl

/-! ## What the calls are for -/

section

variable {f : Nat → List Nat}

theorem flatMap_of_not_mem (hl : ∀ x ∈ l, f x = [x]) : l.flatMap f = l := by
  induction l with
  | nil => rfl
  | cons x l ih =>
    rw [List.flatMap_cons, hl x List.mem_cons_self,
      ih fun y hy => hl y (List.mem_cons_of_mem _ hy), List.singleton_append]

/-- A change at the one place where `next` is. -/
theorem update_flatMap (hs : HlistsRep m ls) (hg : ls g = xs ++ next :: ys)
    (hf : ∀ h, ∀ x ∈ ls h, x ≠ next → f x = [x]) :
    (fun h => (ls h).flatMap f) = Function.update ls g (xs ++ (f next ++ ys)) := by
  funext h
  by_cases hh : h = g
  · subst hh
    have hr := (hs.rep h).nodup
    rw [hg] at hr
    have hmem : ∀ x, x ∈ xs ∨ x ∈ ys → x ∈ ls h ∧ x ≠ next := by grind
    rw [Function.update_self, hg, List.flatMap_append, List.flatMap_cons]
    rw [flatMap_of_not_mem fun x hx => hf h x (hmem x (.inl hx)).1 (hmem x (.inl hx)).2,
      flatMap_of_not_mem fun x hx => hf h x (hmem x (.inr hx)).1 (hmem x (.inr hx)).2]
  · rw [Function.update_of_ne hh]
    refine flatMap_of_not_mem fun x hx => hf h x hx fun heq => hh (hs.unique hx ?_)
    rw [heq, hg]
    exact List.mem_append_right _ List.mem_cons_self

theorem update_erase (hs : HlistsRep m ls) (hg : ls g = xs ++ n :: ys) :
    (fun h => (ls h).erase n) = Function.update ls g (xs ++ ys) := by
  funext h
  by_cases hh : h = g
  · subst hh
    have hr := (hs.rep h).nodup
    rw [hg] at hr
    have hn : n ∉ xs := by grind
    rw [Function.update_self, hg, List.erase_append_right _ hn, List.erase_cons_head]
  · rw [Function.update_of_ne hh]
    refine List.erase_of_not_mem fun hn => hh (hs.unique hn ?_)
    rw [hg]
    exact List.mem_append_right _ List.mem_cons_self

end

/-! ## Runs -/

theorem del_touches (m : HlistMem) (n : Nat) :
    TouchesNeighbours m (internalTuyaHlistDel m n) n := by
  obtain ⟨hfirst, hnext, -, hkeep⟩ := del_fields m n
  refine ⟨fun h hh => ?_, fun k _ hk => ?_, fun k _ hk => hkeep k (Or.inr (Ne.symm hk))⟩
  · rw [hfirst]
    cases hslot : m.pprev n with
    | first f =>
      rw [hslot] at hh
      exact Function.update_of_ne (fun heq => hh (by rw [heq])) ..
    | next f => rfl
  · rw [hnext]
    cases hslot : m.pprev n with
    | first f => rfl
    | next f =>
      rw [hslot] at hk
      exact Function.update_of_ne (fun heq => hk (by rw [heq])) ..

/-- A delete does not write to the node. -/
theorem del_own (hs : HlistsRep m ls) (hn : On ls n) :
    (internalTuyaHlistDel m n).next n = m.next n ∧
      (internalTuyaHlistDel m n).pprev n = m.pprev n := by
  obtain ⟨g, xs, ys, -, hr⟩ := hs.split hn
  obtain ⟨-, hnext, -, hkeep⟩ := del_fields m n
  have hnd := hr.nodup
  have hxs : n ∉ xs := by grind
  have hslot : m.pprev n = slotAfter (.first g) xs := (backLinks_append.mp hr.back).2.1
  have hne : m.pprev n ≠ .next n := hslot ▸ slotAfter_ne hxs
  have hself : m.next n = 0 ∨ n ≠ m.next n := by
    obtain ⟨r, -, rfl, -, hys⟩ := segment_append.mp hr.chain
    have hstart : m.next r = ys.headD 0 := chain_start hys
    cases ys with
    | nil => exact Or.inl hstart
    | cons y ys =>
      right
      rw [hstart]
      rintro rfl
      exact (List.nodup_cons.mp (List.nodup_append.mp hnd).2.1).1 List.mem_cons_self
  refine ⟨?_, hkeep n hself⟩
  rw [hnext]
  cases hfield : m.pprev n with
  | first f => rfl
  | next f =>
    rw [hfield] at hne
    exact Function.update_of_ne (fun heq => hne (by rw [heq])) ..

theorem internalDel_keeps (hs : HlistsRep m ls) (hn : On ls n) :
    HlistsRep (internalTuyaHlistDel m n) fun h => (ls h).erase n := by
  obtain ⟨g, xs, ys, hg, -⟩ := hs.split hn
  rw [update_erase hs hg]
  exact hs.delete hg

theorem delInit_keeps (hs : HlistsRep m ls) (hn : On ls n ∨ Off ls n ∧ tuyaHlistUnhashed m n) :
    HlistsRep (tuyaHlistDelInit m n) (fun h => (ls h).erase n) ∧
      TouchesNeighbours m (tuyaHlistDelInit m n) n := by
  unfold tuyaHlistDelInit
  rcases hn with hn | ⟨hn, hnull⟩
  · have hslot : tuyaHlistUnhashed m n = false := by
      obtain ⟨g, xs, ys, -, hr⟩ := hs.split hn
      rw [tuyaHlistUnhashed, decide_eq_false_iff_not, (backLinks_append.mp hr.back).2.1]
      refine slotAfter_ne fun hmem => ?_
      exact Segment.ne_zero hr.chain (List.mem_append_left _ hmem) rfl
    obtain ⟨hfirst, hnext, hpprev⟩ := del_touches m n
    rw [hslot]
    constructor
    · refine (internalDel_keeps hs hn).write (n := n) (fun h hh => ?_) rfl fun k hk => ⟨?_, ?_⟩
      · exact (hs.rep h).nodup.not_mem_erase hh
      · exact Function.update_of_ne hk ..
      · exact Function.update_of_ne hk ..
    · refine ⟨hfirst, fun k hk hslot => ?_, fun k hk hslot => ?_⟩
      · exact (Function.update_of_ne hk ..).trans (hnext k hk hslot)
      · exact (Function.update_of_ne hk ..).trans (hpprev k hk hslot)
  · rw [hnull]
    have herase : (fun h => (ls h).erase n) = ls := by
      funext h
      exact List.erase_of_not_mem (hn h)
    rw [herase]
    exact ⟨hs, fun _ _ => rfl, fun _ _ _ => rfl, fun _ _ _ => rfl⟩

theorem addBefore_keeps (hs : HlistsRep m ls) (h0 : n ≠ 0) (hn : Off ls n) (hon : On ls next) :
    HlistsRep (tuyaHlistAddBefore m n next) (HlistOp.apply ls (.addBefore n next)) := by
  obtain ⟨g, xs, ys, hg, hr⟩ := hs.split hon
  have happly : HlistOp.apply ls (.addBefore n next) =
      Function.update ls g (xs ++ n :: next :: ys) := by
    refine (update_flatMap hs hg fun h x _ hx => if_neg hx).trans ?_
    rw [if_pos rfl]
    rfl
  rw [happly]
  exact hs.insert hg hn h0 (addBefore_inserted hr (hg ▸ hn g))

/-- The call keeps the links with its arguments one way round and not with them the other way. -/
theorem addAfter_keeps (hs : HlistsRep m ls)
    (ha : n ≠ 0 ∧ Off ls n ∧ On ls next ∨ next ≠ 0 ∧ Off ls next ∧ On ls n) :
    HlistsRep (tuyaHlistAddAfter m n next) (HlistOp.apply ls (.addAfter n next)) ↔ On ls n := by
  rcases ha with ⟨-, hn, hon⟩ | ⟨h0, hnext, hon⟩
  · refine iff_of_false (fun h' => ?_) fun hno => hno.elim fun g hg => hn g hg
    obtain ⟨g, xs, ys, hg, hr⟩ := hs.split hon
    have happly : HlistOp.apply ls (.addAfter n next) =
        Function.update ls g (xs ++ next :: n :: ys) := by
      refine (update_flatMap hs hg fun h x hx hne => ?_).trans ?_
      · have hxn : x ≠ n := fun heq => hn h (heq ▸ hx)
        rw [if_neg hne, if_neg hxn]
      · rw [if_pos rfl]
        rfl
    have hrep := h'.rep g
    rw [happly, Function.update_self] at hrep
    exact addAfter_chain hr (hg ▸ hn g) hrep.chain
  · refine iff_of_true ?_ hon
    obtain ⟨g, xs, ys, hg, hr⟩ := hs.split hon
    have hne : n ≠ next := by
      rintro rfl
      exact hnext g (hg ▸ List.mem_append_right _ List.mem_cons_self)
    have happly : HlistOp.apply ls (.addAfter n next) =
        Function.update ls g ((xs ++ [n]) ++ next :: ys) := by
      refine (update_flatMap hs hg fun h x hx hxn => ?_).trans ?_
      · have hxnext : x ≠ next := fun heq => hnext h (heq ▸ hx)
        rw [if_neg hxnext, if_neg hxn]
      · rw [if_neg hne, if_pos rfl, List.append_assoc]
        rfl
    have hg' : ls g = (xs ++ [n]) ++ ys := by rw [hg, List.append_assoc, List.singleton_append]
    rw [happly]
    refine hs.insert hg' hnext h0 ?_
    rw [slotAfter_concat]
    exact addAfter_inserted hr (hg ▸ hnext g)

/-- A call keeps the links exactly if it is not a `tuya_hlist_add_after` with the new node first. -/
theorem hlist_step {op : HlistOp} (hs : HlistsRep m ls) (ha : Allowed (m, ls) op) :
    KeepsLinks (m, ls) op (op.call m, op.apply ls) ↔ NewNodeSecond (m, ls) op := by
  have hkeeps : HlistsRep (op.call m) (op.apply ls) → Touches m (op.call m) op →
      KeepsLinks (m, ls) op (op.call m, op.apply ls) := fun hrep htouch =>
    ⟨hrep, fun n hn => hrep.pointed hn, htouch⟩
  cases op with
  | addHead n h =>
    have hi := addHead_inserted (hs.rep h) (ha.2 h)
    have hg : ls h = [] ++ ls h := rfl
    exact iff_of_true (hkeeps (hs.insert hg ha.2 ha.1 hi) trivial) trivial
  | addBefore n next =>
    exact iff_of_true (hkeeps (addBefore_keeps hs ha.1 ha.2.1 ha.2.2) trivial) trivial
  | addAfter n next =>
    have hiff := addAfter_keeps hs ha
    exact ⟨fun h => hiff.mp h.lists, fun hn => hkeeps (hiff.mpr hn) trivial⟩
  | internalDel n =>
    exact iff_of_true (hkeeps (internalDel_keeps hs ha) ⟨del_touches m n, del_own hs ha⟩) trivial
  | del n =>
    exact iff_of_true (hkeeps (internalDel_keeps hs ha) ⟨del_touches m n, del_own hs ha⟩) trivial
  | delInit n =>
    obtain ⟨hrep, htouch⟩ := delInit_keeps hs ha
    exact iff_of_true (hkeeps hrep htouch) trivial
  | write n next pprev =>
    have hrep : HlistsRep (setPprev (store m (.next n) next) n pprev) ls :=
      hs.write ha rfl fun k hk => ⟨Function.update_of_ne hk .., Function.update_of_ne hk ..⟩
    exact iff_of_true (hkeeps hrep trivial) trivial

/-- Every call of a run keeps the links exactly in the runs that give `tuya_hlist_add_after` the new
node second. -/
theorem hlist_iff {ops : List HlistOp} (hs : HlistsRep m ls)
    (ha : Machine.Legal hlist Allowed (m, ls) ops) :
    (∀ k s os op s' o, Machine.run hlist (m, ls) (ops.take k) = some (s, os) → ops[k]? = some op →
      hlist s op = some (s', o) → KeepsLinks s op s') ↔
      Machine.Legal hlist NewNodeSecond (m, ls) ops := by
  refine Machine.steps_iff_legal_of (I := fun s : HlistMem × Lists => HlistsRep s.1 s.2)
    (fun s op s' o hI hpre hok h' => ?_) (fun s op hI hpre => ?_) hs ha
  · cases h'
    exact ((hlist_step hI hpre).mpr hok).lists
  · rw [← hlist_step hI hpre]
    constructor
    · exact fun h => h _ () rfl
    · rintro h s' o h'
      cases h'
      exact h

end

/-! ## A list of two -/

/-- The head at 0 with the nodes 1 and 2; every other head is empty. -/
def twoNodes : HlistMem where
  first := fun h => if h = 0 then 1 else 0
  next := fun n => if n = 1 then 2 else 0
  pprev := fun n => if n = 1 then .first 0 else if n = 2 then .next 1 else nullSlot

def twoLists : Lists := fun h => if h = 0 then [1, 2] else []

theorem twoNodes_rep : HlistsRep twoNodes twoLists := by
  constructor
  · intro h
    by_cases hh : h = 0
    · subst hh
      exact ⟨⟨rfl, by decide, rfl, by decide, rfl⟩, ⟨rfl, rfl, trivial⟩, by decide⟩
    · rw [twoLists, if_neg hh]
      exact ⟨if_neg hh, trivial, List.nodup_nil⟩
  · intro h g hne n hn hn'
    simp only [twoLists] at hn hn'
    split at hn <;> split at hn' <;> simp_all

theorem twoLists_off {n : Nat} (h₁ : n ≠ 1) (h₂ : n ≠ 2) : Off twoLists n := by
  intro h
  simp only [twoLists]
  split <;> simp [h₁, h₂]

/-- The node 3 is added behind the node 1, and its call gives it second. -/
theorem hlist_iff_two :
    (∀ k s os op s' o,
      Machine.run hlist (twoNodes, twoLists) ([HlistOp.addAfter 1 3].take k) = some (s, os) →
        [HlistOp.addAfter 1 3][k]? = some op → hlist s op = some (s', o) → KeepsLinks s op s') ↔
      Machine.Legal hlist NewNodeSecond (twoNodes, twoLists) [.addAfter 1 3] := by
  have hon : On twoLists 1 := ⟨0, by decide⟩
  have hoff : Off twoLists 3 := twoLists_off (by decide) (by decide)
  exact hlist_iff twoNodes_rep ⟨Or.inr ⟨by decide, hoff, hon⟩, fun _ _ _ => trivial⟩

/-- The new node 3 is to be added after the node 1, as the comment says: 2 is lost. -/
theorem not_hlist : ¬ ∀ m ls ops, HlistsRep m ls → Machine.Legal hlist Allowed (m, ls) ops →
    ∀ k s os op s' o, Machine.run hlist (m, ls) (ops.take k) = some (s, os) → ops[k]? = some op →
      hlist s op = some (s', o) → KeepsLinks s op s' := by
  intro hall
  have hon : On twoLists 1 := ⟨0, by decide⟩
  have hoff : Off twoLists 3 := twoLists_off (by decide) (by decide)
  have hallowed : Allowed (twoNodes, twoLists) (.addAfter 3 1) :=
    Or.inl ⟨by decide, hoff, hon⟩
  have h := hall twoNodes twoLists [.addAfter 3 1] twoNodes_rep
    ⟨hallowed, fun _ _ _ => trivial⟩ 0 _ [] _ _ () rfl rfl rfl
  obtain ⟨g, hg⟩ := (hlist_step twoNodes_rep hallowed).mp h
  exact hoff g hg

end TuyaSdk.TuyaHlist
