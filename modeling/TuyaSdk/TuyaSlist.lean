import TuyaSdk.Lib.Chain
import TuyaSdk.Lib.Loop
import TuyaSdk.Lib.Machine

/-!
# Singly linked lists (`tuya_slist.h`)

A list head and a node are the same structure, a pointer to the next node. Nodes are addresses with
`0` for `NULL`, and the memory gives the pointer at each address. `tuya_slist_add_tail` leaves the
pointer of the new node as it is.
-/

namespace TuyaSdk.TuyaSlist
open TuyaSdk.Lib

/-- `SLIST_HEAD`: the field `next` at each address. -/
abbrev SlistMem := Nat → Nat

/-! ## The functions -/

/-- One pass of the loop of `tuya_slist_del`, with `pos` and `last`. -/
def delPass (m : SlistMem) (node : Nat) : Nat × Nat → Pass (Nat × Nat) SlistMem
  | (pos, last) =>
    if pos = 0 then .exit m
    else if pos ≠ node then .again (m pos, pos)
    else .exit (Function.update (Function.update m last (m pos)) node 0)

/-- `tuya_slist_del` -/
def tuyaSlistDel (fuel : Nat) (m : SlistMem) (list node : Nat) : Option SlistMem :=
  Loop.run (delPass m node) fuel (m list, list)

/-- `tuya_slist_add_head` -/
def tuyaSlistAddHead (m : SlistMem) (list n : Nat) : SlistMem :=
  let m := Function.update m n (m list)
  Function.update m list n

/-- One pass of the loop of `tuya_slist_add_tail`, with `pos` and `last`. -/
def lastPass (m : SlistMem) : Nat × Nat → Pass (Nat × Nat) Nat
  | (pos, last) => if pos = 0 then .exit last else .again (m pos, pos)

/-- `tuya_slist_add_tail` -/
def tuyaSlistAddTail (fuel : Nat) (m : SlistMem) (list n : Nat) : Option SlistMem := do
  let last ← Loop.run (lastPass m) fuel (m list, list)
  return Function.update m last n

/-! ## Lists -/

/-- From the head the links pass through the nodes `l`, each once, and end. -/
structure SlistRep (m : SlistMem) (list : Nat) (l : List Nat) : Prop where
  chain : Chain m (m list) l
  nodup : (list :: l).Nodup

/-- What is done with a list; the owner of a node may write to it. -/
inductive SlistOp
  | addHead (n : Nat)
  | addTail (n : Nat)
  | del (node : Nat)
  | write (n v : Nat)

/-- What an operation is for. -/
def SlistOp.apply (l : List Nat) : SlistOp → List Nat
  | .addHead n => n :: l
  | .addTail n => l ++ [n]
  | .del node => l.erase node
  | .write _ _ => l

/-- An operation on the memory, beside the list that it is for. -/
def slist (fuel list : Nat) : Machine (SlistMem × List Nat) SlistOp Unit := fun s op =>
  (match op with
  | .addHead n => some (tuyaSlistAddHead s.1 list n)
  | .addTail n => tuyaSlistAddTail fuel s.1 list n
  | .del node => tuyaSlistDel fuel s.1 list node
  | .write n v => some (Function.update s.1 n v)).map fun m => ((m, op.apply s.2), ())

/-- A node that is inserted or written is not in the list. -/
def Allowed (list : Nat) (s : SlistMem × List Nat) : SlistOp → Prop
  | .addHead n => n ≠ 0 ∧ n ∉ list :: s.2
  | .addTail n => n ≠ 0 ∧ n ∉ list :: s.2
  | .del _ => True
  | .write n _ => n ∉ list :: s.2

/-- A node that is added at the tail points to nothing. -/
def TailEnds (s : SlistMem × List Nat) : SlistOp → Prop
  | .addTail n => s.1 n = 0
  | _ => True

/-! ## The loops -/

section
variable {m : SlistMem} {list n p last : Nat} {l : List Nat}

theorem lastPass_run (h : Chain m p l) {fuel : Nat} (hf : l.length < fuel) :
    Loop.run (lastPass m) fuel (p, last) = some (l.getLastD last) := by
  induction l generalizing p last fuel with
  | nil =>
    obtain ⟨fuel, rfl⟩ : ∃ k, fuel = k + 1 := ⟨fuel - 1, by simp at hf; omega⟩
    have h0 : p = 0 := h
    rw [Loop.run_exit (r := last) (by rw [lastPass, if_pos h0])]
    rfl
  | cons a l ih =>
    obtain ⟨fuel, rfl⟩ : ∃ k, fuel = k + 1 := ⟨fuel - 1, by simp at hf; omega⟩
    obtain ⟨rfl, h0, h⟩ := h
    rw [Loop.run_again (by rw [lastPass, if_neg h0]), ih h (by simpa using hf),
      List.getLastD_cons]

/-- The loop of a delete stops at the node, with the node before it, or at the end. -/
theorem delPass_run (h : Chain m p l) {fuel : Nat} (hf : l.length < fuel) :
    Loop.run (delPass m n) fuel (p, last) =
      some (if n ∈ l then
        Function.update (Function.update m ((l.takeWhile (· ≠ n)).getLastD last) (m n)) n 0
      else m) := by
  induction l generalizing p last fuel with
  | nil =>
    obtain ⟨fuel, rfl⟩ : ∃ k, fuel = k + 1 := ⟨fuel - 1, by simp at hf; omega⟩
    have h0 : p = 0 := h
    rw [Loop.run_exit (r := m) (by rw [delPass, if_pos h0]), if_neg List.not_mem_nil]
  | cons a l ih =>
    obtain ⟨fuel, rfl⟩ : ∃ k, fuel = k + 1 := ⟨fuel - 1, by simp at hf; omega⟩
    obtain ⟨rfl, h0, h⟩ := h
    by_cases hp : p = n
    · subst hp
      rw [Loop.run_exit (by rw [delPass, if_neg h0, if_neg (not_not.mpr rfl)]),
        if_pos List.mem_cons_self, List.takeWhile_cons_of_neg (by simp)]
      rfl
    · rw [Loop.run_again (by rw [delPass, if_neg h0, if_pos hp]), ih h (by simpa using hf),
        List.takeWhile_cons_of_pos (by simpa using hp), List.getLastD_cons]
      simp only [List.mem_cons, Ne.symm hp, false_or]

/-! ## The operations -/

theorem SlistRep.congr {m' : SlistMem} (h : SlistRep m list l) (heq : ∀ a ∈ list :: l, m' a = m a) :
    SlistRep m' list l := by
  refine ⟨?_, h.nodup⟩
  rw [heq list List.mem_cons_self]
  exact h.chain.congr fun a ha => heq a (List.mem_cons_of_mem _ ha)

/-- Storing another pointer in the last node, or in the head if there is none, makes the links
arrive there. -/
theorem segment_relink {m' : SlistMem} {q v : Nat} (h : Segment m (m list) l q)
    (hnd : (list :: l).Nodup) (hlast : m' (l.getLastD list) = v)
    (heq : ∀ a ∈ list :: l, a ≠ l.getLastD list → m' a = m a) : Segment m' (m' list) l v := by
  rcases List.eq_nil_or_concat l with rfl | ⟨xs, a, rfl⟩
  · exact hlast
  · rw [List.concat_eq_append] at h hnd hlast heq ⊢
    rw [List.getLastD_concat] at hlast heq
    obtain ⟨hlist, hxs⟩ := List.nodup_cons.mp hnd
    rw [heq list List.mem_cons_self (ne_of_mem_of_not_mem (by simp) hlist).symm]
    refine h.relink (fun b hb => ?_) hlast
    refine heq b (List.mem_cons_of_mem _ (List.mem_append_left _ hb)) ?_
    rintro rfl
    exact (List.nodup_append.mp hxs).2.2 b hb b List.mem_cons_self rfl

theorem tuyaSlistAddHead_rep (h : SlistRep m list l) (h0 : n ≠ 0) (hn : n ∉ list :: l) :
    SlistRep (tuyaSlistAddHead m list n) list (n :: l) := by
  obtain ⟨hne, hnl⟩ := not_or.mp (mt List.mem_cons.mpr hn)
  obtain ⟨hlist, hl⟩ := List.nodup_cons.mp h.nodup
  constructor
  · rw [tuyaSlistAddHead, Function.update_self]
    refine ⟨rfl, h0, ?_⟩
    rw [Function.update_of_ne hne, Function.update_self]
    refine h.chain.congr fun a ha => ?_
    rw [Function.update_of_ne (ne_of_mem_of_not_mem ha hlist),
      Function.update_of_ne (ne_of_mem_of_not_mem ha hnl)]
  · refine List.nodup_cons.mpr ⟨fun hmem => ?_, List.nodup_cons.mpr ⟨hnl, hl⟩⟩
    rcases List.mem_cons.mp hmem with heq | hmem
    · exact hne heq.symm
    · exact hlist hmem

theorem tuyaSlistAddTail_eq (h : SlistRep m list l) {fuel : Nat} (hf : l.length < fuel) :
    tuyaSlistAddTail fuel m list n = some (Function.update m (l.getLastD list) n) := by
  rw [tuyaSlistAddTail, lastPass_run h.chain hf]
  rfl

/-- A node added at the tail ends the list exactly if it points to nothing. -/
theorem tuyaSlistAddTail_rep (h : SlistRep m list l) (h0 : n ≠ 0) (hn : n ∉ list :: l) :
    SlistRep (Function.update m (l.getLastD list) n) list (l ++ [n]) ↔ m n = 0 := by
  obtain ⟨hne, hnl⟩ := not_or.mp (mt List.mem_cons.mpr hn)
  obtain ⟨hlist, hl⟩ := List.nodup_cons.mp h.nodup
  have hlast : n ≠ l.getLastD list := fun heq => hn (heq ▸ List.getLastD_mem_cons)
  constructor
  · intro h'
    have hend := (segment_concat.mp h'.chain).2.2
    rwa [Function.update_of_ne hlast] at hend
  · intro hend
    constructor
    · refine segment_concat.mpr ⟨?_, h0, by rwa [Function.update_of_ne hlast]⟩
      exact segment_relink h.chain h.nodup (Function.update_self ..)
        fun a _ hne => Function.update_of_ne hne _ _
    · rw [← List.cons_append, ← List.concat_eq_append]
      exact h.nodup.concat hn

/-- A delete removes the node, if it is in the list. -/
theorem tuyaSlistDel_rep (h : SlistRep m list l) {fuel : Nat} (hf : l.length < fuel) :
    ∃ m', tuyaSlistDel fuel m list n = some m' ∧ SlistRep m' list (l.erase n) := by
  rw [tuyaSlistDel, delPass_run h.chain hf]
  refine ⟨_, rfl, ?_⟩
  by_cases hn : n ∈ l
  · obtain ⟨xs, ys, rfl⟩ := List.append_of_mem hn
    obtain ⟨hlist, hl⟩ := List.nodup_cons.mp h.nodup
    obtain ⟨hxs, hys, hcross⟩ := List.nodup_append.mp hl
    have hnx : n ∉ xs := fun hmem => hcross n hmem n List.mem_cons_self rfl
    have hny : n ∉ ys := (List.nodup_cons.mp hys).1
    have hne : n ≠ list := ne_of_mem_of_not_mem hn hlist
    have htake : (xs ++ n :: ys).takeWhile (· ≠ n) = xs := by
      rw [List.takeWhile_append_of_pos (by simpa using fun a ha => ne_of_mem_of_not_mem ha hnx),
        List.takeWhile_cons_of_neg (by simp), List.append_nil]
    obtain ⟨r, hfront, rfl, -, hback⟩ := segment_append.mp h.chain
    rw [if_pos hn, htake, List.erase_append_right _ hnx, List.erase_cons_head]
    have hrx : r ∉ list :: xs := by
      rw [List.mem_cons, not_or]
      exact ⟨hne, hnx⟩
    have hlast : xs.getLastD list ≠ r := ne_of_mem_of_not_mem List.getLastD_mem_cons hrx
    have hlastys : ∀ a ∈ ys, a ≠ xs.getLastD list := by
      rintro a ha rfl
      rcases List.mem_cons.mp (List.getLastD_mem_cons (l := xs) (a := list)) with heq | hmem
      · exact hlist (heq ▸ List.mem_append_right _ (List.mem_cons_of_mem _ ha))
      · exact hcross _ hmem _ (List.mem_cons_of_mem _ ha) rfl
    constructor
    · refine segment_append.mpr ⟨m r, segment_relink hfront ?_ ?_ fun a ha hal => ?_,
        hback.congr fun a ha => ?_⟩
      · exact List.nodup_cons.mpr ⟨fun hmem => hlist (List.mem_append_left _ hmem), hxs⟩
      · rw [Function.update_of_ne hlast, Function.update_self]
      · rw [Function.update_of_ne (ne_of_mem_of_not_mem ha hrx), Function.update_of_ne hal]
      · rw [Function.update_of_ne (ne_of_mem_of_not_mem ha hny),
          Function.update_of_ne (hlastys a ha)]
    · exact h.nodup.sublist (((List.sublist_cons_self r ys).append_left xs).cons_cons list)
  · rw [if_neg hn, List.erase_of_not_mem hn]
    exact h

end

/-! ## Runs -/

theorem apply_length_le (l : List Nat) (op : SlistOp) : (op.apply l).length ≤ l.length + 1 := by
  cases op with
  | addHead n => exact le_refl _
  | addTail n => simp [SlistOp.apply]
  | del node => exact (List.erase_sublist.length_le).trans (Nat.le_succ _)
  | write n v => exact Nat.le_succ _

/-- Every operation returns, and keeps the list exactly if a node that it adds at the tail points to
nothing. -/
theorem slist_step {fuel list : Nat} {m : SlistMem} {l : List Nat} (h : SlistRep m list l)
    (hf : l.length < fuel) {op : SlistOp} (ha : Allowed list (m, l) op) :
    ∃ m', slist fuel list (m, l) op = some ((m', op.apply l), ()) ∧
      (SlistRep m' list (op.apply l) ↔ TailEnds (m, l) op) := by
  cases op with
  | addHead n => exact ⟨_, rfl, iff_of_true (tuyaSlistAddHead_rep h ha.1 ha.2) trivial⟩
  | addTail n =>
    refine ⟨_, ?_, tuyaSlistAddTail_rep h ha.1 ha.2⟩
    simp only [slist, tuyaSlistAddTail_eq h hf, Option.map_some]
  | del node =>
    obtain ⟨m', hm', hrep⟩ := tuyaSlistDel_rep (n := node) h hf
    refine ⟨m', ?_, iff_of_true hrep trivial⟩
    simp only [slist, hm', Option.map_some]
  | write n v =>
    refine ⟨_, rfl, iff_of_true (h.congr fun a hmem => ?_) trivial⟩
    exact Function.update_of_ne (ne_of_mem_of_not_mem hmem ha) _ _

/-- At every moment the list is what the operations so far make of it, and they return. -/
def Follows (fuel list : Nat) (m : SlistMem) (l : List Nat) (ops : List SlistOp) : Prop :=
  ∀ k, ∃ m' os, Machine.run (slist fuel list) (m, l) (ops.take k) =
      some ((m', (ops.take k).foldl SlistOp.apply l), os) ∧
    SlistRep m' list ((ops.take k).foldl SlistOp.apply l)

theorem follows_cons {fuel list : Nat} {m m₁ : SlistMem} {l : List Nat} {op : SlistOp}
    {ops : List SlistOp} (h : SlistRep m list l)
    (hstep : slist fuel list (m, l) op = some ((m₁, op.apply l), ())) :
    Follows fuel list m l (op :: ops) ↔ Follows fuel list m₁ (op.apply l) ops := by
  constructor
  · intro hall k
    obtain ⟨m', os, hrun, hrep⟩ := hall (k + 1)
    obtain ⟨s₁, o, os', hstep', hrun', -⟩ := Machine.run_cons.mp hrun
    rw [hstep] at hstep'
    cases hstep'
    exact ⟨m', os', hrun', hrep⟩
  · intro hall k
    cases k with
    | zero => exact ⟨m, [], rfl, h⟩
    | succ k =>
      obtain ⟨m', os, hrun, hrep⟩ := hall k
      exact ⟨m', () :: os, Machine.run_cons.mpr ⟨_, _, _, hstep, hrun, rfl⟩, hrep⟩

/-- The list follows the operations exactly in the runs whose nodes added at the tail point to
nothing. -/
theorem slist_iff {fuel list : Nat} {m : SlistMem} {l : List Nat} {ops : List SlistOp}
    (h : SlistRep m list l) (hf : l.length + ops.length < fuel)
    (ha : Machine.Legal (slist fuel list) (Allowed list) (m, l) ops) :
    Follows fuel list m l ops ↔ Machine.Legal (slist fuel list) TailEnds (m, l) ops := by
  induction ops generalizing m l with
  | nil =>
    refine iff_of_true (fun k => ?_) trivial
    rw [List.take_nil]
    exact ⟨m, [], rfl, h⟩
  | cons op ops ih =>
    have hlen := apply_length_le l op
    rw [List.length_cons] at hf
    obtain ⟨m₁, hstep, hiff⟩ := slist_step h (show l.length < fuel by omega) ha.1
    have hf' : (op.apply l).length + ops.length < fuel := by omega
    have hlegal : Machine.Legal (slist fuel list) TailEnds (m, l) (op :: ops) ↔
        TailEnds (m, l) op ∧ Machine.Legal (slist fuel list) TailEnds (m₁, op.apply l) ops := by
      refine and_congr_right fun _ => ⟨fun hl => hl _ _ hstep, fun hl s' o h' => ?_⟩
      rw [hstep] at h'
      cases h'
      exact hl
    rw [hlegal, follows_cons h hstep, ← hiff]
    constructor
    · intro hall
      obtain ⟨m', os, hrun, hrep⟩ := hall 0
      cases hrun
      exact ⟨hrep, (ih hrep hf' (ha.2 _ _ hstep)).mp hall⟩
    · rintro ⟨hrep, hl⟩
      exact (ih hrep hf' (ha.2 _ _ hstep)).mpr hl

/-- A node that points to itself, put at the tail of an empty list at 4. -/
def selfLinked : SlistMem := fun a => if a = 8 then 8 else 0

theorem selfLinked_rep : SlistRep selfLinked 4 [] := ⟨rfl, List.nodup_singleton 4⟩

theorem slist_iff_head : Follows 3 4 selfLinked [] [.addHead 8, .del 8] := by
  have hallowed : Machine.Legal (slist 3 4) (Allowed 4) (selfLinked, []) [.addHead 8, .del 8] :=
    ⟨by simp [Allowed], fun _ _ _ => ⟨trivial, fun _ _ _ => trivial⟩⟩
  exact (slist_iff selfLinked_rep (by decide) hallowed).mpr
    ⟨trivial, fun _ _ _ => ⟨trivial, fun _ _ _ => trivial⟩⟩

/-- The node points to itself afterwards, and the list does not end. -/
theorem slist_stale : ¬ ∀ fuel list m l ops, SlistRep m list l → l.length + ops.length < fuel →
    Machine.Legal (slist fuel list) (Allowed list) (m, l) ops → Follows fuel list m l ops := by
  intro hall
  have hallowed : Machine.Legal (slist 2 4) (Allowed 4) (selfLinked, []) [.addTail 8] :=
    ⟨by simp [Allowed], fun _ _ _ => trivial⟩
  obtain ⟨m', os, hrun, hrep⟩ :=
    hall 2 4 selfLinked [] [.addTail 8] selfLinked_rep (by decide) hallowed 1
  cases hrun
  have hend : Function.update selfLinked 4 8 8 = 0 := hrep.chain.2.2
  revert hend
  decide

end TuyaSdk.TuyaSlist
