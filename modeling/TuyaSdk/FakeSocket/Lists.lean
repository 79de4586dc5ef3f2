import TuyaSdk.FakeSocket.Defs
import TuyaSdk.TuyaList

/-!
# The lists of the fake sockets

`dl_list_add_tail` and `dl_list_add` make the same links as the functions of `tuya_list.c`, and
so does `dl_list_del`, which then clears the node; the theory of circles applies to them.
`Rep mem s` says that the memory holds the elements and messages of the shape `s`, and that no
other block is allocated.
-/

namespace TuyaSdk.FakeSocket

open TuyaSdk.Lib TuyaSdk.TuyaList

/-! ## List functions -/

variable {mem mem' : Memory} {a b p item list : Addr}

theorem next_eq (h : mem.valid a = true) : mem.next a = some (mem.links.next a) := if_pos h

theorem prev_eq (h : mem.valid a = true) : mem.prev a = some (mem.links.prev a) := if_pos h

theorem setNext_eq (h : mem.valid a = true) :
    mem.setNext a b = some { mem with links := mem.links.setNext a b } := if_pos h

theorem setPrev_eq (h : mem.valid a = true) :
    mem.setPrev a b = some { mem with links := mem.links.setPrev a b } := if_pos h

/-- Which nodes are valid depends on the blocks only. -/
theorem valid_links (mem : Memory) (links : Links Addr) (a : Addr) :
    ({ mem with links := links } : Memory).valid a = mem.valid a := by
  cases a <;> rfl

theorem dlListInit_eq (h : mem.valid list = true) :
    dlListInit mem list = some { mem with links := initListHead mem.links list } := by
  rw [dlListInit, setNext_eq h]
  exact setPrev_eq ((valid_links _ _ _).trans h)

theorem setPrev_comm {α : Type} [DecidableEq α] (lk : Links α) {x y : α} (u v : α) (h : x ≠ y) :
    (lk.setPrev x u).setPrev y v = (lk.setPrev y v).setPrev x u := by
  simp only [Links.setPrev, Function.update_comm h]

/-- `dl_list_add` makes the links of `__list_add`. -/
theorem dlListAdd_eq (hp : mem.valid p = true) (hi : mem.valid item = true)
    (hn : mem.valid (mem.links.next p) = true) (hip : item ≠ p) (hin : item ≠ mem.links.next p) :
    dlListAdd mem p item =
      some { mem with links := listAdd mem.links item p (mem.links.next p) } := by
  have hlinks : ((((mem.links.setNext item (mem.links.next p)).setPrev item p).setPrev
      (mem.links.next p) item).setNext p item) = listAdd mem.links item p (mem.links.next p) := by
    rw [setPrev_comm _ _ _ hin]
    rfl
  rw [dlListAdd, next_eq hp]
  simp only [Option.bind_eq_bind, Option.bind_some]
  rw [setNext_eq hi]
  simp only [Option.bind_some]
  rw [setPrev_eq ((valid_links _ _ _).trans hi)]
  simp only [Option.bind_some]
  rw [next_eq ((valid_links _ _ _).trans hp)]
  simp only [Option.bind_some, Links.setPrev_next, Links.setNext_next_of_ne _ _ hip.symm]
  rw [setPrev_eq ((valid_links _ _ _).trans hn)]
  simp only [Option.bind_some]
  rw [setNext_eq ((valid_links _ _ _).trans hp)]
  simp only [hlinks]

theorem dlListAddTail_eq {l : List Addr} (hl : Linked mem.links list l list)
    (hv : ∀ x ∈ list :: l, mem.valid x = true) (hi : mem.valid item = true)
    (hnot : item ∉ list :: l) :
    dlListAddTail mem list item =
      some { mem with links := tuyaListAddTail mem.links item list } := by
  have hprev : mem.links.prev list ∈ list :: l := hl.prev_eq ▸ List.getLastD_mem_cons
  have hnext : mem.links.next (mem.links.prev list) = list := hl.next_prev
  rw [dlListAddTail, prev_eq (hv _ List.mem_cons_self)]
  simp only [Option.bind_eq_bind, Option.bind_some]
  rw [dlListAdd_eq (hv _ hprev) hi]
  · rw [hnext]
    rfl
  · rw [hnext]
    exact hv _ List.mem_cons_self
  · exact fun h => hnot (h ▸ hprev)
  · rw [hnext]
    exact fun h => hnot (h ▸ List.mem_cons_self)

/-- `dl_list_del` takes the node out as `tuya_list_del` does, and clears it. -/
theorem dlListDel_eq {l₁ l₂ : List Addr} (hl : Linked mem.links list (l₁ ++ item :: l₂) list)
    (hv : ∀ x ∈ list :: (l₁ ++ item :: l₂), mem.valid x = true)
    (hnd : (list :: (l₁ ++ item :: l₂)).Nodup) :
    dlListDel mem item =
      some { mem with links := overwrite (tuyaListDel mem.links item) item (.null, .null) } := by
  have hmem : item ∈ list :: (l₁ ++ item :: l₂) := by simp
  have hi : mem.valid item = true := hv _ hmem
  obtain ⟨hl₁, hl₂⟩ := Linked.append.mp hl
  have hrest : item ∉ list :: (l₁ ++ l₂) := by
    have hperm : (list :: (l₁ ++ item :: l₂)).Perm (item :: list :: (l₁ ++ l₂)) :=
      (List.perm_middle.cons list).trans (List.Perm.swap item list _)
    exact (List.nodup_cons.mp (hperm.nodup hnd)).1
  have hsub : ∀ x ∈ list :: (l₁ ++ l₂), x ∈ list :: (l₁ ++ item :: l₂) := fun x hx =>
    ((List.Sublist.refl l₁).append (List.sublist_cons_self item l₂)).cons_cons list |>.subset hx
  have hprev : mem.links.prev item ∈ list :: (l₁ ++ l₂) := by
    rw [hl₁.prev_eq]
    exact List.cons_subset_cons list (List.subset_append_left l₁ l₂) List.getLastD_mem_cons
  have hnext : mem.links.next item ∈ list :: (l₁ ++ l₂) := by
    rw [hl₂.next_eq]
    exact List.cons_subset_cons list (List.subset_append_right l₁ l₂) headD_mem_cons
  have hnp : item ≠ mem.links.next item := fun h => hrest (h ▸ hnext)
  rw [dlListDel, next_eq hi]
  simp only [Option.bind_eq_bind, Option.bind_some]
  rw [prev_eq hi]
  simp only [Option.bind_some]
  rw [setPrev_eq (hv _ (hsub _ hnext))]
  simp only [Option.bind_some]
  rw [prev_eq ((valid_links _ _ _).trans hi), next_eq ((valid_links _ _ _).trans hi)]
  simp only [Option.bind_some, Links.setPrev_prev_of_ne _ _ hnp, Links.setPrev_next]
  rw [setNext_eq ((valid_links _ _ _).trans (hv _ (hsub _ hprev)))]
  simp only [Option.bind_some]
  rw [setNext_eq ((valid_links _ _ _).trans hi)]
  simp only [Option.bind_some]
  rw [setPrev_eq ((valid_links _ _ _).trans hi)]
  rfl

/-- A node on no circle may be overwritten. -/
theorem circles_overwrite {lk : Links Addr} {m : TuyaList.Lists Addr} (hc : Circles lk m) {n : Addr}
    {junk : Addr × Addr} (hn : ∀ h l, m h = some l → n ∉ h :: l) :
    Circles (overwrite lk n junk) m where
  circle h l hm := (hc.circle h l hm).congr_same fun y hy =>
    sameAt_overwrite fun heq => hn h l hm (heq ▸ hy)
  nodup := hc.nodup
  apart := hc.apart

/-! ## Shapes -/

/-- A message: its block, the block of its bytes, and the bytes. -/
structure Msg where
  addr : Nat
  buf : Nat
  bytes : List UInt8

/-- The elements in the order of their list, with their numbers and queues. -/
structure Shape where
  elems : List Nat
  sk : Nat → Int32
  queue : Dir → Nat → List Msg

namespace Shape

/-- The nodes of a queue. -/
def nodes (l : List Msg) : List Addr := l.map fun x => .data x.addr

/-- The members of each list head. -/
def lists (s : Shape) : TuyaList.Lists Addr
  | .skHead => some (s.elems.map .element)
  | .queue d e => if e ∈ s.elems then some (nodes (s.queue d e)) else none
  | _ => none

/-- The message is in one of the queues. -/
def Has (s : Shape) (x : Msg) : Prop := ∃ d, ∃ e ∈ s.elems, x ∈ s.queue d e

def setQueue (s : Shape) (d : Dir) (e : Nat) (l : List Msg) : Shape :=
  { s with queue := fun d' e' => if d' = d ∧ e' = e then l else s.queue d' e' }

theorem setQueue_same (s : Shape) (d : Dir) (e : Nat) (l : List Msg) :
    (s.setQueue d e l).queue d e = l := if_pos ⟨rfl, rfl⟩

theorem setQueue_ne (s : Shape) {d d' : Dir} {e e' : Nat} (l : List Msg) (h : ¬(d' = d ∧ e' = e)) :
    (s.setQueue d e l).queue d' e' = s.queue d' e' := if_neg h

theorem lists_queue (s : Shape) {d : Dir} {e : Nat} (he : e ∈ s.elems) :
    s.lists (.queue d e) = some (nodes (s.queue d e)) := if_pos he

theorem lists_setQueue (s : Shape) {d : Dir} {e : Nat} (l : List Msg) (he : e ∈ s.elems) :
    (s.setQueue d e l).lists = Function.update s.lists (.queue d e) (some (nodes l)) := by
  funext a
  by_cases ha : a = .queue d e
  · subst ha
    rw [Function.update_self]
    have hlists := lists_queue (s.setQueue d e l) (d := d) he
    rwa [setQueue_same] at hlists
  · rw [Function.update_of_ne ha]
    cases a with
    | queue d' e' =>
      have hne : ¬(d' = d ∧ e' = e) := fun h => ha (by rw [h.1, h.2])
      simp only [lists, setQueue_ne s l hne]
      rfl
    | _ => rfl

/-- The pairs of queues of a shape. -/
def sockets (s : Shape) : Sockets := fun sk =>
  (s.elems.find? fun e => s.sk e == sk).map fun e d => (s.queue d e).map (·.bytes)

end Shape

open Shape

/-- The memory holds the shape, and nothing else is allocated. -/
structure Rep (mem : Memory) (s : Shape) : Prop where
  circles : Circles mem.links s.lists
  socket : ∀ e ∈ s.elems, mem.heap.block e = some (.socket (s.sk e))
  msg : ∀ x, s.Has x → mem.heap.block x.addr = some (.msg (some x.buf) x.bytes.length) ∧
    mem.heap.block x.buf = some (.buf x.bytes) ∧ x.bytes ≠ []
  bufs : ∀ x y, s.Has x → s.Has y → x.buf = y.buf → x.addr = y.addr
  owned : ∀ p, mem.heap.Live p → p ∈ s.elems ∨ ∃ x, s.Has x ∧ (p = x.addr ∨ p = x.buf)
  numbers : ∀ e ∈ s.elems, ∀ e' ∈ s.elems, s.sk e = s.sk e' → e = e'

namespace Rep

variable {s : Shape} {d : Dir} {e : Nat} {x y : Msg}

theorem valid_queue (h : Rep mem s) (he : e ∈ s.elems) : mem.valid (.queue d e) = true := by
  simp only [Memory.valid, h.socket e he]
  rfl

theorem valid_element (h : Rep mem s) (he : e ∈ s.elems) : mem.valid (.element e) = true := by
  simp only [Memory.valid, h.socket e he]
  rfl

theorem valid_data (h : Rep mem s) (hx : s.Has x) : mem.valid (.data x.addr) = true := by
  simp only [Memory.valid, (h.msg x hx).1]
  rfl

/-- The heads and members of all lists are valid nodes. -/
theorem valid_list (h : Rep mem s) {a : Addr} {l : List Addr} (hl : s.lists a = some l) :
    ∀ y ∈ a :: l, mem.valid y = true := by
  cases a with
  | skHead =>
    cases hl
    intro y hy
    rcases List.mem_cons.mp hy with rfl | hy
    · rfl
    · obtain ⟨e, he, rfl⟩ := List.mem_map.mp hy
      exact h.valid_element he
  | queue d e =>
    simp only [lists] at hl
    split at hl
    · rename_i he
      cases hl
      intro y hy
      rcases List.mem_cons.mp hy with rfl | hy
      · exact h.valid_queue he
      · obtain ⟨x, hx, rfl⟩ := List.mem_map.mp hy
        exact h.valid_data ⟨d, e, he, hx⟩
    · cases hl
  | null => cases hl
  | element p => cases hl
  | data p => cases hl

theorem linked_queue (h : Rep mem s) (he : e ∈ s.elems) :
    Linked mem.links (.queue d e) (nodes (s.queue d e)) (.queue d e) :=
  h.circles.circle _ _ (lists_queue s he)

theorem nodup_queue (h : Rep mem s) (he : e ∈ s.elems) :
    (Addr.queue d e :: nodes (s.queue d e)).Nodup :=
  h.circles.nodup _ _ (lists_queue s he)

/-- A message is in one queue only. -/
theorem queue_unique (h : Rep mem s) {d' : Dir} {e' : Nat} (he : e ∈ s.elems) (he' : e' ∈ s.elems)
    (hx : x ∈ s.queue d e) (hy : y ∈ s.queue d' e') (hxy : x.addr = y.addr) :
    d' = d ∧ e' = e := by
  by_contra hne
  have hheads : Addr.queue d e ≠ Addr.queue d' e' := by
    intro heq
    cases heq
    exact hne ⟨rfl, rfl⟩
  have hmem : Addr.data x.addr ∈ nodes (s.queue d e) := List.mem_map_of_mem hx
  have hmem' : Addr.data x.addr ∈ nodes (s.queue d' e') :=
    List.mem_map.mpr ⟨y, hy, by rw [hxy]⟩
  exact h.circles.apart _ _ _ _ (lists_queue s he) (lists_queue s he') hheads _
    (List.mem_cons_of_mem _ hmem) (List.mem_cons_of_mem _ hmem')

theorem live_of_block {b : Block} {q : Nat} (h : mem.heap.block q = some b) : mem.heap.Live q :=
  Heap.live_iff.mpr ⟨b, h⟩

/-- Elements, messages and their bytes are in blocks of their own. -/
theorem ne_of_kind {b c : Block} {q r : Nat} (hq : mem.heap.block q = some b)
    (hr : mem.heap.block r = some c) (hbc : b ≠ c) : q ≠ r := by
  rintro rfl
  exact hbc (Option.some.inj (hq.symm.trans hr))

end Rep

end TuyaSdk.FakeSocket
