import TuyaSdk.TuyaQueue.Defs

/-!
# The queue is a bounded deque

`Holds` is the invariant: the nodes are on a circle with the list head, the count of free
places agrees with their number, and exactly they are allocated. Each function is the
operation on the items of the nodes.
-/

namespace TuyaSdk.TuyaQueue

open Lib TuyaList

/-! ## Blocks and memory -/

/-- Two blocks of `size` bytes do not overlap. -/
def Apart (size a b : Nat) : Prop := a + size ≤ b ∨ b + size ≤ a

theorem Apart.symm {size a b : Nat} (h : Apart size a b) : Apart size b a := Or.symm h

instance (size a b : Nat) : Decidable (Apart size a b) := inferInstanceAs (Decidable (_ ∨ _))

/-- Disjoint blocks in an address space have at most its size together. -/
theorem length_mul_le {size bound : Nat} {blocks : List Nat} (hsize : 0 < size)
    (hin : ∀ a ∈ blocks, a + size ≤ bound) (hapart : blocks.Pairwise (Apart size)) :
    blocks.length * size ≤ bound := by
  -- different blocks have different quotients by `size`
  have hnd : (blocks.map (· / size)).Nodup := by
    refine List.Pairwise.map _ ?_ hapart
    intro a b h heq
    rcases h with h | h
    · have := Nat.div_le_div_right (c := size) h
      rw [Nat.add_div_right _ hsize] at this
      omega
    · have := Nat.div_le_div_right (c := size) h
      rw [Nat.add_div_right _ hsize] at this
      omega
  have hsub : blocks.map (· / size) ⊆ List.range (bound / size) := by
    intro k hk
    obtain ⟨a, ha, rfl⟩ := List.mem_map.mp hk
    have := Nat.div_le_div_right (c := size) (hin a ha)
    rw [Nat.add_div_right _ hsize] at this
    exact List.mem_range.mpr this
  have hlen := (hnd.subperm hsub).length_le
  rw [List.length_map, List.length_range] at hlen
  exact (Nat.le_div_iff_mul_le hsize).mp hlen

theorem replay_append (es es' : List HeapEvent) (live : List Nat) :
    replay (es ++ es') live = (replay es live).bind (replay es') := by
  induction es generalizing live with
  | nil => rfl
  | cons e es ih =>
    cases e with
    | malloc a => exact ih _
    | free a =>
      simp only [List.cons_append, replay]
      split
      · exact ih _
      · rfl

/-- Freeing all allocated blocks, in any order. -/
theorem replay_frees {nodes live : List Nat} (h : live.Perm nodes) :
    replay (nodes.map HeapEvent.free) live = some [] := by
  induction nodes generalizing live with
  | nil =>
    rw [h.eq_nil]
    rfl
  | cons p nodes ih =>
    have hp : p ∈ live := h.mem_iff.mpr List.mem_cons_self
    simp only [List.map_cons, replay, if_pos hp]
    apply ih
    have := h.erase p
    rwa [List.erase_cons_head] at this

/-- A copy behind the bytes stored so far. -/
theorem copyTo_storeBytes (buf src : Mem) (bs : List Byte) (n : Nat) :
    copyTo (storeBytes buf bs) bs.length src 0 n = storeBytes buf (bs ++ readBytes src 0 n) := by
  funext x
  have hlen : (bs ++ readBytes src 0 n).length = bs.length + n := by
    rw [List.length_append, length_readBytes]
  rcases Nat.lt_or_ge x bs.length with hlt | hge
  · rw [copyTo_apply (Or.inl hlt), storeBytes_of_lt hlt, storeBytes_of_lt (by omega),
      List.getElem_append_left hlt]
  · rcases Nat.lt_or_ge x (bs.length + n) with hlt' | hge'
    · obtain ⟨k, rfl⟩ := Nat.exists_eq_add_of_le hge
      rw [copyTo_copied (by omega), storeBytes_of_lt (by omega),
        List.getElem_append_right (by omega), getElem_readBytes]
      congr 1
      omega
    · rw [copyTo_apply (Or.inr hge'), storeBytes_of_le hge, storeBytes_of_le (by omega)]

theorem copyTo_start (buf src : Mem) (n : Nat) :
    copyTo buf 0 src 0 n = storeBytes buf (readBytes src 0 n) :=
  copyTo_storeBytes buf src [] n

/-! ## The loop over the nodes -/

/-- The passes of a `tuya_list_for_each` over the nodes. -/
def foldPass {σ : Type} (body : σ → Nat → Pass σ σ) : σ → List Nat → σ
  | s, [] => s
  | s, p :: nodes =>
    match body s p with
    | .exit r => r
    | .again s' => foldPass body s' nodes

section ForEach

variable {σ : Type} (body : σ → Nat → Pass σ σ) {lk : Links Nat} {head : Nat}

/-- The passes over the nodes behind `p`. -/
theorem forEach_rest {rest : List Nat} {p : Nat} (s : σ) (hl : Linked lk p rest head)
    (hh : head ∉ rest) (h0 : 0 ∉ rest) :
    Loop.run (forEachPass lk head body) (rest.length + 1) (lk.next p, s) =
      some (foldPass body s rest) := by
  induction rest generalizing p s with
  | nil =>
    rw [hl.1]
    exact Loop.run_exit (if_pos (Or.inr rfl))
  | cons x rest ih =>
    have hx : ¬(x = 0 ∨ x = head) := by
      rintro (rfl | rfl)
      · exact h0 List.mem_cons_self
      · exact hh List.mem_cons_self
    rw [hl.1.1, List.length_cons]
    cases hb : body s x with
    | exit r =>
      have hpass : forEachPass lk head body (x, s) = .exit r := by
        simp only [forEachPass, if_neg hx, hb]
      rw [Loop.run_exit hpass, foldPass, hb]
    | again s' =>
      have hpass : forEachPass lk head body (x, s) = .again (lk.next x, s') := by
        simp only [forEachPass, if_neg hx, hb]
      rw [Loop.run_again hpass, foldPass, hb]
      exact ih s' hl.2 (fun h => hh (List.mem_cons_of_mem _ h))
        fun h => h0 (List.mem_cons_of_mem _ h)

theorem forEach_eq {fuel : Nat} {nodes : List Nat} (hl : Linked lk head nodes head)
    (hh : head ∉ nodes) (h0 : 0 ∉ nodes) (hfuel : nodes.length < fuel) (s : σ) :
    forEach fuel lk head body s = some (foldPass body s nodes) :=
  Loop.run_mono (forEach_rest body s hl hh h0) hfuel

end ForEach

/-- The passes of `tuya_queue_traverse`. -/
theorem foldPass_visit (item : Nat → List Byte) (cb : List (List Byte) → Bool) (nodes : List Nat)
    (visited : List (List Byte)) :
    foldPass (fun visited p =>
      if !cb (visited ++ [item p]) then Pass.exit (visited ++ [item p])
      else .again (visited ++ [item p])) visited nodes = visitedBy cb visited (nodes.map item) := by
  induction nodes generalizing visited with
  | nil => rfl
  | cons p nodes ih =>
    rw [List.map_cons, visitedBy, foldPass]
    cases hcb : cb (visited ++ [item p]) with
    | true =>
      rw [if_pos rfl]
      exact ih _
    | false => rfl

/-! ## The invariant -/

/-- The nodes of the queue. -/
structure Holds (s : Sys) (nodes : List Nat) : Prop where
  circle : Linked s.lk s.queue.head nodes s.queue.head
  nodup : (s.queue.head :: nodes).Nodup
  free : s.queue.queueFree + nodes.length = s.queue.queueLen
  len_lt : s.queue.queueLen < 2 ^ 32
  node_lt : sizeofQueueItem + s.queue.itemSize < 2 ^ 32
  live : ∃ live, replay s.heap [] = some live ∧ live.Perm nodes
  nonzero : 0 ∉ nodes
  placed : ∀ p ∈ nodes, p + s.queue.nodeSize ≤ 2 ^ 32
  apart : nodes.Pairwise (Apart s.queue.nodeSize)

/-- What `tkl_system_malloc` returns for a node: a block apart from the blocks allocated and
from the queue's list head. -/
def MallocFits (s : Sys) (a : Nat) : Prop :=
  a + s.queue.nodeSize ≤ 2 ^ 32 ∧
    (a + s.queue.nodeSize ≤ s.queue.head ∨
      s.queue.head + sizeofListHead ≤ a) ∧
    ∀ b ∈ (replay s.heap []).getD [], Apart s.queue.nodeSize a b

/-- The address that a call is given is one that the heap may return. -/
def MallocOk (s : Sys) : Call → Prop
  | .input _ malloc => malloc ≠ 0 → MallocFits s malloc
  | .inputInstant _ malloc => malloc ≠ 0 → MallocFits s malloc
  | _ => True

instance (s : Sys) (a : Nat) : Decidable (MallocFits s a) :=
  inferInstanceAs (Decidable (_ ∧ _ ∧ _))

instance (s : Sys) (call : Call) : Decidable (MallocOk s call) := by
  unfold MallocOk
  split <;> infer_instance

namespace Holds

variable {s : Sys} {nodes : List Nat}

theorem head_notMem (h : Holds s nodes) : s.queue.head ∉ nodes := (List.nodup_cons.mp h.nodup).1

theorem length_le (h : Holds s nodes) : nodes.length ≤ s.queue.queueLen := by
  have := h.free
  omega

/-- The items of the queue have at most `2 ^ 32` bytes together. -/
theorem bytes_le (h : Holds s nodes) : nodes.length * s.queue.itemSize ≤ 2 ^ 32 := by
  have hsize : s.queue.nodeSize = sizeofQueueItem + s.queue.itemSize := u32_of_lt h.node_lt
  refine Nat.le_trans (Nat.mul_le_mul_left _ (Nat.le_add_left _ sizeofQueueItem)) ?_
  rw [← hsize]
  exact length_mul_le (hsize ▸ Nat.add_pos_left (by decide) _) h.placed h.apart

/-- The block that `malloc` returned is a new node. -/
theorem fresh (h : Holds s nodes) {a : Nat} (ha : MallocFits s a) :
    a ∉ s.queue.head :: nodes ∧
      ∀ p ∈ nodes, Apart s.queue.nodeSize a p := by
  obtain ⟨live, hlive, hperm⟩ := h.live
  obtain ⟨-, hhead, hblocks⟩ := ha
  have hapart : ∀ p ∈ nodes, Apart s.queue.nodeSize a p := by
    intro p hp
    apply hblocks
    rw [hlive, Option.getD_some]
    exact hperm.mem_iff.mpr hp
  have hpos : 0 < s.queue.nodeSize := by
    rw [Queue.nodeSize, u32_of_lt h.node_lt]
    exact Nat.add_pos_left (by decide) _
  refine ⟨fun hmem => ?_, hapart⟩
  rcases List.mem_cons.mp hmem with rfl | hmem
  · dsimp only [sizeofListHead] at hhead
    omega
  · have := hapart a hmem
    dsimp only [Apart] at this
    omega

/-- A new node in the list. -/
theorem insert (h : Holds s nodes) {a n : Nat} {nodes' : List Nat} {lk : Links Nat}
    {data : Nat → Mem} (ha0 : a ≠ 0) (ha : MallocFits s a) (hperm : nodes'.Perm (a :: nodes))
    (hl : Linked lk s.queue.head nodes' s.queue.head)
    (hn : n + (nodes.length + 1) = s.queue.queueLen) :
    Holds { s with
      queue.queueFree := n, lk := lk, data := data, heap := s.heap ++ [.malloc a] } nodes' := by
  obtain ⟨hfresh, hapart⟩ := h.fresh ha
  obtain ⟨live, hlive, hlp⟩ := h.live
  have hall : ∀ p, p ∈ nodes' ↔ p = a ∨ p ∈ nodes := by
    intro p
    rw [hperm.mem_iff, List.mem_cons]
  refine ⟨hl, ?_, ?_, h.len_lt, h.node_lt, ⟨a :: live, ?_, (hlp.cons a).trans hperm.symm⟩, ?_, ?_, ?_⟩
  · have hp := (hperm.cons s.queue.head).trans (List.Perm.swap a s.queue.head nodes)
    exact hp.symm.nodup (List.nodup_cons.mpr ⟨hfresh, h.nodup⟩)
  · rw [hperm.length_eq]
    exact hn
  · rw [replay_append, hlive]
    rfl
  · intro h0
    rcases (hall 0).mp h0 with heq | hmem
    · exact ha0 heq.symm
    · exact h.nonzero hmem
  · intro p hp
    rcases (hall p).mp hp with rfl | hmem
    · exact ha.1
    · exact h.placed p hmem
  · refine (hperm.pairwise_iff fun hab => hab.symm).mpr ?_
    exact List.pairwise_cons.mpr ⟨hapart, h.apart⟩

/-- A block allocated and freed again. -/
theorem reject (h : Holds s nodes) {a : Nat} {lk : Links Nat} {data : Nat → Mem}
    (hsame : ∀ x ∈ s.queue.head :: nodes, SameAt s.lk lk x) :
    Holds { s with lk := lk, data := data, heap := s.heap ++ [.malloc a] ++ [.free a] } nodes := by
  obtain ⟨live, hlive, hlp⟩ := h.live
  refine ⟨h.circle.congr_same hsame, h.nodup, h.free, h.len_lt, h.node_lt, ⟨live, ?_, hlp⟩, h.nonzero,
    h.placed, h.apart⟩
  rw [List.append_assoc, replay_append, hlive]
  simp [replay]

end Holds

/-! ## The functions -/

section Functions

variable {s : Sys} {nodes : List Nat} (junk : Junk)

theorem item_update {a n : Nat} {lk : Links Nat} {heap : List HeapEvent} (item : Mem) (p : Nat) :
    Sys.item { s with
      queue.queueFree := n, lk := lk, heap := heap,
      data := Function.update s.data a (copyTo (s.data a) 0 item 0 s.queue.itemSize) } p =
      if p = a then readBytes item 0 s.queue.itemSize else s.item p := by
  unfold Sys.item
  dsimp only
  split
  · next heq =>
    subst heq
    rw [Function.update_self, copyTo_start]
    apply List.ext_getElem
    · simp only [length_readBytes]
    · intro i h₁ h₂
      rw [getElem_readBytes, Nat.zero_add, storeBytes_of_lt h₂]
  · next hne => rw [Function.update_of_ne hne]

/-- The items of nodes that are not `a`, and of `a`. -/
theorem map_item_update {a n : Nat} {lk : Links Nat} {heap : List HeapEvent} (item : Mem)
    (ha : a ∉ nodes) :
    nodes.map (Sys.item { s with
      queue.queueFree := n, lk := lk, heap := heap,
      data := Function.update s.data a (copyTo (s.data a) 0 item 0 s.queue.itemSize) }) =
      nodes.map s.item := by
  apply List.map_congr_left
  intro p hp
  have hne : p ≠ a := fun heq => ha (heq ▸ hp)
  rw [item_update, if_neg hne]

/-- Where `__enqueue` puts an item. -/
def EnqueuePolicy.put {α : Type} (policy : EnqueuePolicy) (x : α) (q : List α) : List α :=
  match policy with
  | .sendToBack => q ++ [x]
  | .sendToFront => x :: q

theorem itemSize_with (q : Queue) (n : Nat) : { q with queueFree := n }.itemSize = q.itemSize := rfl

theorem queueLen_with (q : Queue) (n : Nat) : { q with queueFree := n }.queueLen = q.queueLen := rfl

/-- The pointers after `__enqueue` has put the node in the list. -/
def EnqueuePolicy.link (policy : EnqueuePolicy) (lk : Links Nat) (a head : Nat) : Links Nat :=
  match policy with
  | .sendToBack => tuyaListAddTail (initListHead lk a) a head
  | .sendToFront => tuyaListAdd (initListHead lk a) a head

theorem enqueue_ok (policy : EnqueuePolicy) {a : Nat} (item : Mem) (ha0 : a ≠ 0)
    (hpos : 0 < s.queue.queueFree) :
    enqueue junk s (some item) policy a = ({ s with
      queue.queueFree := sub32 s.queue.queueFree 1
      lk := policy.link s.lk a s.queue.head
      data := Function.update s.data a (copyTo (s.data a) 0 item 0 s.queue.itemSize)
      heap := s.heap ++ [.malloc a] }, .ok) := by
  simp only [enqueue, if_neg ha0, if_pos hpos]
  cases policy
  · rfl
  · rfl

theorem enqueue_eq (h : Holds s nodes) (item : Mem) (policy : EnqueuePolicy) {a : Nat}
    (ha0 : a ≠ 0) (ha : MallocFits s a) (hlt : nodes.length < s.queue.queueLen) :
    ∃ s', enqueue junk s (some item) policy a = (s', .ok) ∧ Holds s' (policy.put a nodes) ∧
      s'.queue.itemSize = s.queue.itemSize ∧ s'.queue.queueLen = s.queue.queueLen ∧
      (policy.put a nodes).map s'.item =
        policy.put (readBytes item 0 s.queue.itemSize) (nodes.map s.item) := by
  have hfree := h.free
  have hlen := h.len_lt
  have hpos : 0 < s.queue.queueFree := by omega
  have hfresh := (h.fresh ha).1
  have hanodes : a ∉ nodes := fun hmem => hfresh (List.mem_cons_of_mem _ hmem)
  have hcount : sub32 s.queue.queueFree 1 + (nodes.length + 1) = s.queue.queueLen := by
    rw [sub32_of_le hpos (by omega)]
    omega
  have hcircle : Linked (initListHead s.lk a) s.queue.head nodes s.queue.head :=
    h.circle.congr_same fun x hx => sameAt_initListHead fun heq => hfresh (heq ▸ hx)
  have hrun := enqueue_ok junk policy item ha0 hpos
  generalize sub32 s.queue.queueFree 1 = n at hcount hrun
  have hput : (policy.put a nodes).Perm (a :: nodes) ∧
      Linked (policy.link s.lk a s.queue.head) s.queue.head (policy.put a nodes) s.queue.head := by
    cases policy with
    | sendToBack => exact ⟨List.perm_append_singleton a nodes, linked_addTail hcircle h.nodup hfresh⟩
    | sendToFront => exact ⟨List.Perm.refl _, linked_add hcircle h.nodup hfresh⟩
  refine ⟨_, hrun, h.insert ha0 ha hput.1 hput.2 hcount, itemSize_with _ _, queueLen_with _ _, ?_⟩
  cases policy with
  | sendToBack =>
    rw [EnqueuePolicy.put, List.map_append, map_item_update item hanodes, List.map_singleton,
      item_update, if_pos rfl]
    rfl
  | sendToFront =>
    rw [EnqueuePolicy.put, List.map_cons, map_item_update item hanodes, item_update, if_pos rfl]
    rfl

theorem enqueue_full (h : Holds s nodes) (item : Mem) (policy : EnqueuePolicy) {a : Nat}
    (ha0 : a ≠ 0) (ha : MallocFits s a) (hle : s.queue.queueLen ≤ nodes.length) :
    ∃ s', enqueue junk s (some item) policy a = (s', .exceedUpperLimit) ∧ Holds s' nodes ∧
      s'.queue = s.queue ∧ nodes.map s'.item = nodes.map s.item := by
  have hfree := h.free
  have hzero : ¬0 < s.queue.queueFree := by omega
  have hfresh := (h.fresh ha).1
  have hanodes : a ∉ nodes := fun hmem => hfresh (List.mem_cons_of_mem _ hmem)
  have hrun : enqueue junk s (some item) policy a = ({ s with
      lk := overwrite (initListHead s.lk a) a (junk (initListHead s.lk a) a)
      data := Function.update s.data a (copyTo (s.data a) 0 item 0 s.queue.itemSize)
      heap := s.heap ++ [.malloc a] ++ [.free a] }, .exceedUpperLimit) := by
    simp only [enqueue, if_neg ha0, if_neg hzero, Sys.free]
  refine ⟨_, hrun, h.reject ?_, rfl, map_item_update item hanodes⟩
  intro x hx
  have hxa : x ≠ a := fun heq => hfresh (heq ▸ hx)
  have hinit : SameAt s.lk (initListHead s.lk a) x := sameAt_initListHead hxa
  generalize initListHead s.lk a = lk at hinit
  have hover : SameAt lk (overwrite lk a (junk lk a)) x := sameAt_overwrite hxa
  exact ⟨hover.1.trans hinit.1, hover.2.trans hinit.2⟩

/-- The state after `tuya_queue_output` has taken out the node `p`. -/
def outputState (junk : Junk) (s : Sys) (p n : Nat) : Sys :=
  { s with
    queue.queueFree := n
    lk := overwrite (tuyaListDel s.lk p) p (junk (tuyaListDel s.lk p) p)
    heap := s.heap ++ [.free p] }

@[simp] theorem outputState_itemSize (p n : Nat) :
    (outputState junk s p n).queue.itemSize = s.queue.itemSize := rfl

@[simp] theorem outputState_queueLen (p n : Nat) :
    (outputState junk s p n).queue.queueLen = s.queue.queueLen := rfl

@[simp] theorem outputState_item (p n x : Nat) :
    (outputState junk s p n).item x = s.item x := rfl

theorem output_empty (h : Holds s []) (item : Option Mem) :
    tuyaQueueOutput junk s item = (s, .notFound, item) := by
  have hfree := h.free
  rw [List.length_nil] at hfree
  rw [tuyaQueueOutput, if_neg (by omega)]

theorem output_cons {p : Nat} (h : Holds s (p :: nodes)) (item : Option Mem) :
    tuyaQueueOutput junk s item = (outputState junk s p (u32 (s.queue.queueFree + 1)), .ok,
      item.map fun buf => storeBytes buf (s.item p)) := by
  have hfree := h.free
  rw [List.length_cons] at hfree
  have hnext : s.lk.next s.queue.head = p := h.circle.1.1
  rw [tuyaQueueOutput, if_pos (by omega)]
  simp only [hnext, copyTo_start]
  rfl

/-- Taking out the first node. -/
theorem holds_output {p n : Nat} (h : Holds s (p :: nodes))
    (hn : n + nodes.length = s.queue.queueLen) : Holds (outputState junk s p n) nodes := by
  obtain ⟨live, hlive, hperm⟩ := h.live
  have hp : p ∉ s.queue.head :: nodes := by
    have hp := (List.Perm.swap p s.queue.head nodes).nodup h.nodup
    exact (List.nodup_cons.mp hp).1
  have hdel : Linked (tuyaListDel s.lk p) s.queue.head ([] ++ nodes) s.queue.head :=
    linked_del h.circle h.nodup
  refine ⟨hdel.congr_same ?_, ?_, hn, h.len_lt, h.node_lt, ⟨live.erase p, ?_, ?_⟩, ?_, ?_, ?_⟩
  · exact fun x hx => sameAt_overwrite fun heq => hp (heq ▸ hx)
  · exact h.nodup.sublist ((List.sublist_cons_self p nodes).cons_cons _)
  · have hmem : p ∈ live := hperm.mem_iff.mpr List.mem_cons_self
    dsimp only [outputState]
    rw [replay_append, hlive, Option.bind_some, replay, if_pos hmem, replay]
  · have := hperm.erase p
    rwa [List.erase_cons_head] at this
  · exact fun h0 => h.nonzero (List.mem_cons_of_mem _ h0)
  · exact fun x hx => h.placed x (List.mem_cons_of_mem _ hx)
  · exact (List.pairwise_cons.mp h.apart).2

theorem output_free {p : Nat} (h : Holds s (p :: nodes)) :
    u32 (s.queue.queueFree + 1) + nodes.length = s.queue.queueLen := by
  have hfree := h.free
  have hlen := h.len_lt
  rw [List.length_cons] at hfree
  rw [u32_of_lt (by omega)]
  omega

/-- The loop of `tuya_queue_delete_batch` takes out the first `count` nodes, if there are so
many, and says whether there were. -/
theorem deleteBatchLoop_eq (h : Holds s nodes) (count : Nat) : ∃ s',
    deleteBatchLoop junk count s .ok = (s', if count ≤ nodes.length then .ok else .notFound) ∧
      Holds s' (nodes.drop count) ∧ s'.queue.itemSize = s.queue.itemSize ∧
      s'.queue.queueLen = s.queue.queueLen ∧ s'.item = s.item := by
  induction count generalizing s nodes with
  | zero => exact ⟨s, rfl, h, rfl, rfl, rfl⟩
  | succ count ih =>
    cases nodes with
    | nil =>
      refine ⟨s, ?_, h, rfl, rfl, rfl⟩
      simp only [deleteBatchLoop, if_true, output_empty junk h]
      cases count <;> rfl
    | cons p nodes =>
      have hstep := output_cons junk h none
      have hn := output_free h
      generalize u32 (s.queue.queueFree + 1) = n at hstep hn
      obtain ⟨s', hrun, h', hsize, hlen, hitem⟩ := ih (holds_output junk h hn)
      refine ⟨s', ?_, h', hsize, hlen, hitem⟩
      simp only [deleteBatchLoop, if_true, hstep, hrun, List.length_cons,
        Nat.add_le_add_iff_right]

theorem clear_eq (h : Holds s nodes) : ∃ s', tuyaQueueClear junk s = some (s', .ok) ∧
    Holds s' [] ∧ s'.queue.itemSize = s.queue.itemSize ∧
      s'.queue.queueLen = s.queue.queueLen := by
  obtain ⟨lk, hloop, hl, -⟩ := forEachSafe_spec (fun _ => false) junk h.circle h.nodup
  obtain ⟨live, hlive, hperm⟩ := h.live
  have hloop' : forEachSafe (s.queue.queueLen + 1) s.lk s.queue.head (fun _ => false) junk =
      some (lk, nodes) := Loop.run_mono hloop (Nat.add_le_add_right h.length_le 1)
  have hnone : nodes.filter (fun _ => false) = [] := List.filter_eq_nil_iff.mpr fun _ _ => nofun
  rw [hnone] at hl
  have hrun : tuyaQueueClear junk s = some ({ s with
      lk := lk, heap := s.heap ++ nodes.map .free, queue.queueFree := s.queue.queueLen }, .ok) := by
    rw [tuyaQueueClear, hloop']
    rfl
  refine ⟨_, hrun, ⟨hl, List.nodup_singleton _, rfl, h.len_lt, h.node_lt, ⟨[], ?_, List.Perm.refl _⟩,
    List.not_mem_nil, nofun, List.Pairwise.nil⟩, rfl, rfl⟩
  dsimp only
  rw [replay_append, hlive]
  exact replay_frees hperm

theorem traverse_eq (h : Holds s nodes) (cb : List (List Byte) → Bool) :
    tuyaQueueTraverse s (some cb) = some (.ok, visitedBy cb [] (nodes.map s.item)) := by
  have hloop := forEach_eq (fun visited p =>
    if !cb (visited ++ [s.item p]) then Pass.exit (visited ++ [s.item p])
    else .again (visited ++ [s.item p])) h.circle h.head_notMem h.nonzero
    (Nat.lt_succ_of_le h.length_le) []
  rw [foldPass_visit] at hloop
  rw [tuyaQueueTraverse, hloop]
  rfl

/-- The passes of `tuya_queue_get_batch` over nodes in front of `start`. -/
theorem foldPass_skip {start index : Nat} (num : Nat) (items : Mem) (front rest : List Nat)
    (hlt : index + front.length < 2 ^ 32) (hle : index + front.length ≤ start) :
    foldPass (getBatchBody s start num) (index, 0, items) (front ++ rest) =
      foldPass (getBatchBody s start num) (index + front.length, 0, items) rest := by
  induction front generalizing index with
  | nil => rfl
  | cons p front ih =>
    rw [List.length_cons] at hle hlt ⊢
    have hbody : getBatchBody s start num (index, 0, items) p = .again (index + 1, 0, items) := by
      simp only [getBatchBody, if_pos (show index < start by omega),
        u32_of_lt (show index + 1 < 2 ^ 32 by omega)]
    have hcomm : index + 1 + front.length = index + (front.length + 1) := by omega
    rw [List.cons_append, foldPass, hbody]
    simp only
    rw [ih (hcomm ▸ hlt) (hcomm ▸ hle), hcomm]

/-- The passes over nodes from `start` on: each copies an item behind those copied so far,
until there are `num`. -/
theorem foldPass_copy (start num : Nat) (items : Mem) {count : Nat} {done : List Byte}
    (hdone : done.length = count * s.queue.itemSize) (hcount : count ≤ num)
    (hbytes : (count + nodes.length) * s.queue.itemSize ≤ 2 ^ 32)
    (hlt : count + nodes.length < 2 ^ 32) (hsize : 0 < s.queue.itemSize) :
    foldPass (getBatchBody s start num) (start, count, storeBytes items done) nodes =
      (start, min num (count + nodes.length),
        storeBytes items (done ++ ((nodes.map s.item).take (num - count)).flatten)) := by
  induction nodes generalizing count done with
  | nil =>
    rw [List.map_nil, List.take_nil, List.flatten_nil, List.append_nil, foldPass, List.length_nil,
      Nat.add_zero, Nat.min_eq_right hcount]
  | cons p nodes ih =>
    rw [List.length_cons] at hbytes hlt ⊢
    by_cases hfull : num ≤ count
    · have hbody : getBatchBody s start num (start, count, storeBytes items done) p =
          .exit (start, count, storeBytes items done) := by
        simp only [getBatchBody, if_neg (Nat.lt_irrefl start), if_pos hfull]
      rw [foldPass, hbody, Nat.sub_eq_zero_of_le hfull, List.take_zero, List.flatten_nil,
        List.append_nil, Nat.min_eq_left (by omega), Nat.le_antisymm hcount hfull]
    · have hoff : u32 (count * s.queue.itemSize) = done.length := by
        rw [hdone]
        apply u32_of_lt
        refine Nat.lt_of_lt_of_le ?_ hbytes
        exact Nat.mul_lt_mul_of_pos_right (by omega) hsize
      have hnext : u32 (count + 1) = count + 1 := u32_of_lt (by omega)
      have hbody : getBatchBody s start num (start, count, storeBytes items done) p =
          .again (start, count + 1, storeBytes items (done ++ s.item p)) := by
        simp only [getBatchBody, if_neg (Nat.lt_irrefl start), if_neg hfull, hoff, hnext,
          copyTo_storeBytes]
        rfl
      have hdone' : (done ++ s.item p).length = (count + 1) * s.queue.itemSize := by
        rw [List.length_append, hdone, Sys.item, length_readBytes, Nat.succ_mul]
      have hmore : num - count = num - (count + 1) + 1 := by omega
      have hcomm : count + 1 + nodes.length = count + (nodes.length + 1) := by omega
      rw [foldPass, hbody]
      simp only
      rw [ih hdone' (by omega) (hcomm ▸ hbytes) (hcomm ▸ hlt), hcomm, hmore, List.map_cons,
        List.take_succ_cons, List.flatten_cons, List.append_assoc]

theorem getBatch_eq (h : Holds s nodes) (hsize : 0 < s.queue.itemSize) (start : Nat)
    (items : Mem) {num : Nat} (hnum : num ≠ 0) : tuyaQueueGetBatch s start (some items) num =
      some (if start + num ≤ nodes.length then .ok else .notFound,
        some (storeBytes items (((nodes.map s.item).drop start).take num).flatten)) := by
  have hlen := h.length_le
  have hlt := h.len_lt
  have hloop := forEach_eq (getBatchBody s start num) h.circle h.head_notMem h.nonzero
    (Nat.lt_succ_of_le h.length_le) (0, 0, items)
  rw [tuyaQueueGetBatch, if_neg hnum, hloop]
  rcases Nat.lt_or_ge nodes.length start with hshort | hle
  · have hfront : 0 + nodes.length ≤ start := by omega
    have hskip := foldPass_skip (s := s) num items nodes [] (by omega) hfront
    rw [List.append_nil, foldPass, Nat.zero_add] at hskip
    rw [hskip, List.drop_eq_nil_of_le (by rw [List.length_map]; omega), List.take_nil,
      List.flatten_nil, storeBytes_nil, if_neg (by omega)]
    simp only [Option.bind_eq_bind, Option.bind_some]
    rw [if_pos (Or.inl (by omega))]
  · have hfront : (nodes.take start).length = start := by
      rw [List.length_take]
      omega
    have hrest : (nodes.drop start).length = nodes.length - start := List.length_drop
    have hfront' : 0 + (nodes.take start).length ≤ start := by omega
    have hskip := foldPass_skip (s := s) num items _ (nodes.drop start) (by omega) hfront'
    have hbytes : (0 + (nodes.drop start).length) * s.queue.itemSize ≤ 2 ^ 32 := by
      refine Nat.le_trans (Nat.mul_le_mul_right _ ?_) h.bytes_le
      omega
    have hnone : ([] : List Byte).length = 0 * s.queue.itemSize := (Nat.zero_mul _).symm
    have hcopy := foldPass_copy start num items hnone (Nat.zero_le _) hbytes (by omega) hsize
    rw [List.take_append_drop, hfront, Nat.zero_add] at hskip
    rw [storeBytes_nil, List.nil_append, Nat.sub_zero, Nat.zero_add, hrest] at hcopy
    rw [hskip, hcopy, List.map_drop]
    simp only [Option.bind_eq_bind, Option.bind_some]
    by_cases hfit : start + num ≤ nodes.length
    · rw [if_pos hfit, if_neg (by omega)]
    · rw [if_neg hfit, if_pos (Or.inr (by omega))]

end Functions

/-! ## Runs -/

/-- The queue stands for the deque `q`. -/
structure Represents (s : Sys) (size cap : Nat) (q : List (List Byte)) : Prop where
  itemSize_eq : s.queue.itemSize = size
  queueLen_eq : s.queue.queueLen = cap
  nodes : ∃ nodes, Holds s nodes ∧ q = nodes.map s.item

section Step

variable {s : Sys} {size cap : Nat} {q : List (List Byte)} (junk : Junk)

theorem enqueue_step (h : Represents s size cap q) (item : Mem) (policy : EnqueuePolicy) {a : Nat}
    (ha0 : a ≠ 0) (ha : MallocFits s a) : ∃ s', enqueue junk s (some item) policy a =
        (s', if q.length < cap then .ok else .exceedUpperLimit) ∧
      Represents s' size cap
        (if q.length < cap then policy.put (readBytes item 0 size) q else q) := by
  obtain ⟨rfl, rfl, nodes, hh, rfl⟩ := h
  rw [List.length_map]
  by_cases hlt : nodes.length < s.queue.queueLen
  · obtain ⟨s', hrun, hh', hsize, hlen, hitems⟩ := enqueue_eq junk hh item policy ha0 ha hlt
    rw [if_pos hlt, if_pos hlt]
    exact ⟨s', hrun, hsize, hlen, _, hh', hitems.symm⟩
  · obtain ⟨s', hrun, hh', hq, hitems⟩ :=
      enqueue_full junk hh item policy ha0 ha (Nat.le_of_not_lt hlt)
    rw [if_neg hlt, if_neg hlt]
    exact ⟨s', hrun, congrArg Queue.itemSize hq, congrArg Queue.queueLen hq, nodes, hh', hitems.symm⟩

theorem input_step (h : Represents s size cap q) (item : Option Mem) (a : Nat)
    (hm : a ≠ 0 → MallocFits s a) :
    (∃ s', step junk s (.input item a) = some (s', (dequeStep size cap q (.input item a)).2) ∧
      Represents s' size cap (dequeStep size cap q (.input item a)).1) ∧
    ∃ s', step junk s (.inputInstant item a) =
        some (s', (dequeStep size cap q (.inputInstant item a)).2) ∧
      Represents s' size cap (dequeStep size cap q (.inputInstant item a)).1 := by
  cases item with
  | none => exact ⟨⟨s, rfl, h⟩, s, rfl, h⟩
  | some item =>
    simp only [step, dequeStep]
    by_cases ha0 : a = 0
    · simp only [enqueue, if_pos ha0]
      exact ⟨⟨s, rfl, h⟩, s, rfl, h⟩
    · obtain ⟨s₁, hrun₁, h₁⟩ := enqueue_step junk h item .sendToBack ha0 (hm ha0)
      obtain ⟨s₂, hrun₂, h₂⟩ := enqueue_step junk h item .sendToFront ha0 (hm ha0)
      simp only [if_neg ha0, hrun₁, hrun₂]
      by_cases hlt : q.length < cap
      · simp only [if_pos hlt] at h₁ h₂ ⊢
        exact ⟨⟨s₁, rfl, h₁⟩, s₂, rfl, h₂⟩
      · simp only [if_neg hlt] at h₁ h₂ ⊢
        exact ⟨⟨s₁, rfl, h₁⟩, s₂, rfl, h₂⟩

theorem output_step (h : Represents s size cap q) (item : Option Mem) :
    ∃ s', step junk s (.output item) = some (s', (dequeStep size cap q (.output item)).2) ∧
      Represents s' size cap (dequeStep size cap q (.output item)).1 := by
  obtain ⟨rfl, rfl, nodes, hh, rfl⟩ := h
  cases nodes with
  | nil =>
    simp only [step, output_empty junk hh]
    exact ⟨s, rfl, rfl, rfl, [], hh, rfl⟩
  | cons p nodes =>
    simp only [step, output_cons junk hh]
    exact ⟨_, rfl, outputState_itemSize _ _ _, outputState_queueLen _ _ _, nodes,
      holds_output junk hh (output_free hh), rfl⟩

theorem peek_step (h : Represents s size cap q) (item : Option Mem) :
    step junk s (.peek item) = some (s, (dequeStep size cap q (.peek item)).2) ∧
      (dequeStep size cap q (.peek item)).1 = q := by
  obtain ⟨rfl, rfl, nodes, hh, rfl⟩ := h
  cases item with
  | none => exact ⟨rfl, rfl⟩
  | some buf =>
    have hfree := hh.free
    cases nodes with
    | nil =>
      rw [List.length_nil] at hfree
      have hno : ¬s.queue.queueFree < s.queue.queueLen := by omega
      simp only [step, tuyaQueuePeek, if_neg hno]
      exact ⟨rfl, rfl⟩
    | cons p nodes =>
      rw [List.length_cons] at hfree
      have hlt : s.queue.queueFree < s.queue.queueLen := by omega
      have hnext : s.lk.next s.queue.head = p := hh.circle.1.1
      simp only [step, tuyaQueuePeek, if_pos hlt, hnext, copyTo_start]
      exact ⟨rfl, rfl⟩

theorem deleteBatch_step (h : Represents s size cap q) (num : Nat) :
    ∃ s', step junk s (.deleteBatch num) =
        some (s', (dequeStep size cap q (.deleteBatch num)).2) ∧
      Represents s' size cap (dequeStep size cap q (.deleteBatch num)).1 := by
  simp only [step, tuyaQueueDeleteBatch, dequeStep]
  by_cases h0 : num = 0
  · simp only [if_pos h0]
    exact ⟨s, rfl, h⟩
  · obtain ⟨rfl, rfl, nodes, hh, rfl⟩ := h
    obtain ⟨s', hrun, hh', hsize, hlen, hitem⟩ := deleteBatchLoop_eq junk hh num
    simp only [if_neg h0, hrun, List.length_map]
    refine ⟨s', rfl, hsize, hlen, _, hh', ?_⟩
    rw [hitem, List.map_drop]

theorem getBatch_step (h : Represents s size cap q) (hsize : 0 < size) (start : Nat)
    (items : Option Mem) (num : Nat) : step junk s (.getBatch start items num) =
        some (s, (dequeStep size cap q (.getBatch start items num)).2) ∧
      (dequeStep size cap q (.getBatch start items num)).1 = q := by
  obtain ⟨rfl, rfl, nodes, hh, rfl⟩ := h
  cases items with
  | none => exact ⟨rfl, rfl⟩
  | some items =>
    simp only [step, dequeStep]
    by_cases h0 : num = 0
    · simp only [tuyaQueueGetBatch, if_pos h0]
      exact ⟨rfl, trivial⟩
    · simp only [getBatch_eq hh hsize start items h0, if_neg h0, List.length_map]
      exact ⟨rfl, trivial⟩

/-- Each call on a queue is the call on the deque it stands for. -/
theorem step_eq (h : Represents s size cap q) (hsize : 0 < size) {call : Call}
    (hm : MallocOk s call) : ∃ s', step junk s call = some (s', (dequeStep size cap q call).2) ∧
      Represents s' size cap (dequeStep size cap q call).1 := by
  cases call with
  | input item a => exact (input_step junk h item a hm).1
  | inputInstant item a => exact (input_step junk h item a hm).2
  | output item => exact output_step junk h item
  | peek item =>
    obtain ⟨hrun, hq⟩ := peek_step junk h item
    exact ⟨s, hrun, hq.symm ▸ h⟩
  | traverse cb =>
    cases cb with
    | none => exact ⟨s, rfl, h⟩
    | some cb =>
      obtain ⟨rfl, rfl, nodes, hh, rfl⟩ := h
      exact ⟨s, congrArg (Option.map _) (traverse_eq hh cb), rfl, rfl, nodes, hh, rfl⟩
  | clear =>
    obtain ⟨rfl, rfl, nodes, hh, rfl⟩ := h
    obtain ⟨s', hrun, hh', hs, hl⟩ := clear_eq junk hh
    exact ⟨s', congrArg (Option.map _) hrun, hs, hl, [], hh', rfl⟩
  | getBatch start items num =>
    obtain ⟨hrun, hq⟩ := getBatch_step junk h hsize start items num
    exact ⟨s, hrun, hq.symm ▸ h⟩
  | deleteBatch num => exact deleteBatch_step junk h num
  | getFreeNum =>
    obtain ⟨rfl, rfl, nodes, hh, rfl⟩ := h
    have hfree := hh.free
    have hnum : s.queue.queueFree = s.queue.queueLen - (nodes.map s.item).length := by
      rw [List.length_map]
      omega
    exact ⟨s, by rw [step, dequeStep, hnum], rfl, rfl, nodes, hh, rfl⟩
  | getUsedNum =>
    obtain ⟨rfl, rfl, nodes, hh, rfl⟩ := h
    have hfree := hh.free
    have hlt := hh.len_lt
    have hnum : sub32 s.queue.queueLen s.queue.queueFree = (nodes.map s.item).length := by
      rw [List.length_map, sub32_of_le (by omega) hlt]
      omega
    exact ⟨s, by rw [step, dequeStep, hnum], rfl, rfl, nodes, hh, rfl⟩
  | getMaxNum =>
    obtain ⟨rfl, rfl, nodes, hh, rfl⟩ := h
    exact ⟨s, rfl, rfl, rfl, nodes, hh, rfl⟩

end Step

/-- A new queue stands for the empty deque. -/
theorem represents_create {queueLen itemSize head : Nat} {lk : Links Nat} {data : Nat → Mem}
    {s : Sys} (hlen : queueLen < 2 ^ 32) (hnode : sizeofQueueItem + itemSize < 2 ^ 32)
    (hs : tuyaQueueCreate queueLen itemSize false true true head lk data = (.ok, some s)) :
    Represents s itemSize queueLen [] := by
  unfold tuyaQueueCreate at hs
  split at hs
  · cases hs
  · cases hs
    refine ⟨rfl, rfl, [], ⟨linked_initListHead lk head, List.nodup_singleton _, rfl, hlen, hnode,
      ⟨[], rfl, List.Perm.refl _⟩, List.not_mem_nil, nofun, List.Pairwise.nil⟩, rfl⟩

/-- After any calls on a new queue, every reply was that of the deque of `queueLen` items;
the items and the free places make up `queueLen`, and of all nodes ever allocated exactly
those of the queue are not freed, and the others were freed once. -/
theorem queue_refines (queueLen itemSize head : Nat) (lk : Links Nat) (data : Nat → Mem)
    (junk : Junk) (s₀ : Sys) (calls : List Call) (hlen : queueLen < 2 ^ 32)
    (hsize : 1 ≤ itemSize) (hnode : sizeofQueueItem + itemSize < 2 ^ 32)
    (hs : tuyaQueueCreate queueLen itemSize false true true head lk data = (.ok, some s₀))
    (hl : Machine.Legal (step junk) MallocOk s₀ calls) :
    ∃ s q replies, Machine.run (step junk) s₀ calls = some (s, replies) ∧
      Machine.run (fun q call => some (dequeStep itemSize queueLen q call)) [] calls =
        some (q, replies) ∧
      q.length + s.queue.queueFree = queueLen ∧ (∀ x ∈ q, x.length = itemSize) ∧
      ∃ nodes live, Linked s.lk s.queue.head nodes s.queue.head ∧ q = nodes.map s.item ∧
        replay s.heap [] = some live ∧ live.Perm nodes := by
  have hstep : ∀ (s : Sys) (q : List (List Byte)) (call : Call),
      Represents s itemSize queueLen q → MallocOk s call →
      ∃ s', step junk s call = some (s', (dequeStep itemSize queueLen q call).2) ∧
        Represents s' itemSize queueLen (dequeStep itemSize queueLen q call).1 :=
    fun s q call hr hm => step_eq junk hr hsize hm
  obtain ⟨s, q, replies, hrun, habs, hr⟩ :=
    Machine.run_simulates hstep (represents_create hlen hnode hs) hl
  obtain ⟨rfl, rfl, nodes, hh, rfl⟩ := hr
  obtain ⟨live, hlive, hperm⟩ := hh.live
  refine ⟨s, _, replies, hrun, habs, ?_, ?_, nodes, live, hh.circle, rfl, hlive, hperm⟩
  · rw [List.length_map, Nat.add_comm]
    exact hh.free
  · intro x hx
    obtain ⟨p, -, rfl⟩ := List.mem_map.mp hx
    exact length_readBytes _ _ _

/-- A queue of two one-byte items: the third is refused, the rest taken out in a batch that
asks for too many. -/
theorem queue_refines_two : ∃ s q replies,
    Machine.run (step fun _ _ => (0, 0)) ⟨⟨1, 2, 2, 100⟩, initListHead ⟨id, id⟩ 100, fun _ _ => 0, []⟩
      [.input (some fun _ => 1) 200, .inputInstant (some fun _ => 2) 300,
        .input (some fun _ => 3) 400, .output (some fun _ => 0), .input (some fun _ => 4) 300,
        .getBatch 0 (some fun _ => 0) 2, .deleteBatch 5] = some (s, replies) ∧
      Machine.run (fun q call => some (dequeStep 1 2 q call)) []
        [.input (some fun _ => 1) 200, .inputInstant (some fun _ => 2) 300,
          .input (some fun _ => 3) 400, .output (some fun _ => 0), .input (some fun _ => 4) 300,
          .getBatch 0 (some fun _ => 0) 2, .deleteBatch 5] = some (q, replies) ∧
      q.length + s.queue.queueFree = 2 ∧ (∀ x ∈ q, x.length = 1) ∧
      ∃ nodes live, Linked s.lk s.queue.head nodes s.queue.head ∧ q = nodes.map s.item ∧
        replay s.heap [] = some live ∧ live.Perm nodes :=
  queue_refines 2 1 100 ⟨id, id⟩ (fun _ _ => 0) _ _ _ (by decide) (by decide) (by decide) rfl
    (Machine.legal_of_check (by decide +kernel))

/-- A batch of no items is refused, although every queue has as many. -/
theorem empty_batch_refused :
    ¬∀ (s : Sys) (size cap : Nat) (q : List (List Byte)), Represents s size cap q →
      (∀ start num items r, tuyaQueueGetBatch s start (some items) num = some r →
        (r.1 = .ok ↔ start + num ≤ q.length)) ∧
      ∀ num junk, (tuyaQueueDeleteBatch junk s num).2 = .ok ↔ num ≤ q.length := by
  intro hclaim
  have hrep : Represents ⟨⟨1, 1, 1, 100⟩, initListHead ⟨id, id⟩ 100, fun _ _ => 0, []⟩ 1 1 [] :=
    represents_create (by decide) (by decide) rfl
  have hget := (hclaim _ _ _ _ hrep).1 0 0 (fun _ => 0) (.invalidParm, some fun _ => 0) rfl
  exact absurd (hget.mpr (Nat.le_refl 0)) (by decide)

end TuyaSdk.TuyaQueue
