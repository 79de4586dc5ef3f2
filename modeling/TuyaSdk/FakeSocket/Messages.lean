import TuyaSdk.FakeSocket.Lists

/-!
# The messages of the fake sockets

What the loops of the functions do, and what they do to a shape: a message appended to a queue
(`Rep.skAppend`), the oldest message received (`Rep.skRecv`), and a queue emptied when its
socket is closed (`Rep.closeQueue`).
-/

namespace TuyaSdk.FakeSocket

open TuyaSdk.Lib TuyaSdk.TuyaList Shape

variable {mem mem' : Memory} {s : Shape} {d : Dir} {e : Nat} {x y : Msg}

/-! ## Loops -/

section Loops

variable {ρ : Type} {body : Memory → Addr → Option (Memory × Option ρ)} {list : Addr}

theorem forEachSafeFrom_done (n : Nat) (mem : Memory) (a : Addr) :
    forEachSafeFrom body list (n + 1) mem list a = some (mem, none) := if_pos rfl

theorem forEachSafeFrom_break {n : Nat} {item a : Addr} {r : ρ} (hne : item ≠ list)
    (hbody : body mem item = some (mem', some r)) :
    forEachSafeFrom body list (n + 1) mem item a = some (mem', some r) := by
  simp only [forEachSafeFrom, if_neg hne, hbody, Option.bind_eq_bind, Option.bind_some]

theorem forEachSafeFrom_again {n : Nat} {item a : Addr} (hne : item ≠ list)
    (hbody : body mem item = some (mem', none)) (hv : mem'.valid a = true) :
    forEachSafeFrom body list (n + 1) mem item a =
      forEachSafeFrom body list n mem' a (mem'.links.next a) := by
  simp only [forEachSafeFrom, if_neg hne, hbody, Option.bind_eq_bind, Option.bind_some,
    next_eq hv]

/-- The loop from its start. -/
theorem forEachSafe_eq {l : List Addr} (hl : Linked mem.links list l list)
    (hv : ∀ x ∈ list :: l, mem.valid x = true) :
    forEachSafe body mem list = forEachSafeFrom body list (mem.heap.next + 1) mem (l.headD list)
      (mem.links.next (l.headD list)) := by
  rw [forEachSafe, next_eq (hv _ List.mem_cons_self), hl.next_eq]
  simp only [Option.bind_eq_bind, Option.bind_some]
  rw [next_eq (hv _ headD_mem_cons)]
  rfl

/-- A loop that breaks off at its first member. -/
theorem forEachSafe_first {l : List Addr} (hl : Linked mem.links list l list)
    (hv : ∀ x ∈ list :: l, mem.valid x = true) (hnd : (list :: l).Nodup) {a : Addr}
    {rest : List Addr} (hcons : l = a :: rest) {r : ρ} (hbody : body mem a = some (mem', some r)) :
    forEachSafe body mem list = some (mem', some r) := by
  subst hcons
  rw [forEachSafe_eq hl hv]
  refine forEachSafeFrom_break ?_ hbody
  exact fun h => (List.nodup_cons.mp hnd).1 (h ▸ List.mem_cons_self)

theorem forEachSafe_nil (hl : Linked mem.links list [] list) (hv : mem.valid list = true) :
    forEachSafe body mem list = some (mem, none) := by
  rw [forEachSafe_eq hl fun x hx => List.mem_singleton.mp hx ▸ hv]
  exact forEachSafeFrom_done _ _ _

end Loops

/-- Blocks that are allocated are no more than there were allocations. -/
theorem length_le_next {l : List Nat} (hnd : l.Nodup) (hl : ∀ p ∈ l, mem.heap.Live p) :
    l.length ≤ mem.heap.next := by
  have hsub : l ⊆ List.range mem.heap.next := fun p hp => List.mem_range.mpr (hl p hp).lt
  have hle := (hnd.subperm hsub).length_le
  rwa [List.length_range] at hle

theorem nodup_of_map {β γ : Type} {f : β → γ} {l : List β} (h : (l.map f).Nodup) : l.Nodup :=
  h.of_map f

/-! ## Finding an element -/

theorem Rep.find_from (h : Rep mem s) (sk : Int32) (rest : List Nat) :
    ∀ (done : List Nat) (fuel : Nat), s.elems = done ++ rest → rest.length < fuel →
      forEachSafeFrom (getBody sk) .skHead fuel mem ((rest.map Addr.element).headD .skHead)
        (mem.links.next ((rest.map Addr.element).headD .skHead)) =
      some (mem, rest.find? fun e => s.sk e == sk) := by
  induction rest with
  | nil =>
    intro done fuel _ hfuel
    obtain ⟨fuel, rfl⟩ : ∃ k, fuel = k + 1 := ⟨fuel - 1, by omega⟩
    exact forEachSafeFrom_done _ _ _
  | cons e rest ih =>
    intro done fuel helems hfuel
    obtain ⟨fuel, rfl⟩ : ∃ k, fuel = k + 1 := ⟨fuel - 1, by omega⟩
    have he : e ∈ s.elems := by rw [helems]; simp
    have hl : Linked mem.links .skHead (s.elems.map .element) .skHead :=
      h.circles.circle .skHead _ rfl
    rw [helems, List.map_append, List.map_cons] at hl
    have hnext : mem.links.next (.element e) = (rest.map Addr.element).headD .skHead :=
      (Linked.append.mp hl).2.next_eq
    have hbody :
        getBody sk mem (.element e) = some (mem, if sk = s.sk e then some e else none) := by
      simp only [getBody, h.socket e he]
    change forEachSafeFrom (getBody sk) .skHead (fuel + 1) mem (.element e)
      (mem.links.next (.element e)) = _
    by_cases hsk : sk = s.sk e
    · rw [if_pos hsk] at hbody
      rw [forEachSafeFrom_break (by exact nofun) hbody, List.find?_cons_of_pos (by simp [hsk])]
    · rw [if_neg hsk] at hbody
      have hv : mem.valid ((rest.map Addr.element).headD .skHead) = true := by
        apply h.valid_list (rfl : s.lists .skHead = some (s.elems.map .element))
        cases rest with
        | nil => exact List.mem_cons_self
        | cons e' rest => rw [helems]; simp
      rw [hnext, forEachSafeFrom_again (by exact nofun) hbody hv,
        List.find?_cons_of_neg (by simpa using Ne.symm hsk)]
      exact ih (done ++ [e]) fuel (by rw [helems, List.append_assoc]; rfl)
        (by simpa using hfuel)

theorem Rep.find (h : Rep mem s) (sk : Int32) :
    skGetSkElement mem sk = some (s.elems.find? fun e => s.sk e == sk) := by
  have hl : Linked mem.links .skHead (s.elems.map .element) .skHead :=
    h.circles.circle .skHead _ rfl
  have hnd := h.circles.nodup .skHead _ rfl
  have hlen : s.elems.length ≤ mem.heap.next :=
    length_le_next (nodup_of_map (List.nodup_cons.mp hnd).2)
      fun p hp => Rep.live_of_block (h.socket p hp)
  rw [skGetSkElement, forEachSafe_eq hl (h.valid_list rfl),
    h.find_from sk s.elems [] _ rfl (by omega)]
  rfl

/-! ## A message is appended -/

/-- A node that is not in an allocated block of its kind is in no list. -/
theorem Rep.unlinked (h : Rep mem s) {a : Addr} (ha : mem.valid a = false) :
    TuyaList.Lists.Unlinked s.lists a := by
  have hnot : ∀ a' l, s.lists a' = some l → a ∉ a' :: l := by
    intro a' l hl hmem
    have hv := h.valid_list hl a hmem
    rw [ha] at hv
    cases hv
  constructor
  · cases hl : s.lists a with
    | none => rfl
    | some l => exact absurd List.mem_cons_self (hnot a l hl)
  · intro a'
    cases hl : s.lists a' with
    | none => rfl
    | some l => exact decide_eq_true fun hmem => hnot a' l hl (List.mem_cons_of_mem _ hmem)

theorem block_of_not_live {p : Nat} (hp : ¬mem.heap.Live p) : mem.heap.block p = none :=
  Option.not_isSome_iff_eq_none.mp hp

theorem data_invalid {p : Nat} (hp : ¬mem.heap.Live p) : mem.valid (.data p) = false := by
  simp only [Memory.valid, block_of_not_live hp]
  rfl

theorem Shape.has_append {l : List Msg} (he : e ∈ s.elems) (hl : s.queue d e = l) :
    (s.setQueue d e (l ++ [x])).Has y ↔ y = x ∨ s.Has y := by
  constructor
  · intro ⟨d', e', he', hy⟩
    by_cases hde : d' = d ∧ e' = e
    · rw [hde.1, hde.2, setQueue_same] at hy
      rcases List.mem_append.mp hy with hy | hy
      · exact Or.inr ⟨d, e, he, hl ▸ hy⟩
      · exact Or.inl (List.mem_singleton.mp hy)
    · rw [setQueue_ne s _ hde] at hy
      exact Or.inr ⟨d', e', he', hy⟩
  · rintro (rfl | ⟨d', e', he', hy⟩)
    · exact ⟨d, e, he, by rw [setQueue_same]; simp⟩
    · refine ⟨d', e', he', ?_⟩
      by_cases hde : d' = d ∧ e' = e
      · rw [hde.1, hde.2] at hy ⊢
        rw [setQueue_same]
        exact List.mem_append_left _ (hl ▸ hy)
      · rwa [setQueue_ne s _ hde]

theorem Rep.append (h : Rep mem s) (he : e ∈ s.elems)
    (hblock : ∀ r, mem'.heap.block r = if r = x.buf then some (.buf x.bytes)
      else if r = x.addr then some (.msg (some x.buf) x.bytes.length) else mem.heap.block r)
    (haddr : ¬mem.heap.Live x.addr) (hbuf : ¬mem.heap.Live x.buf) (hne : x.addr ≠ x.buf)
    (hbytes : x.bytes ≠ [])
    (hlinks : mem'.links = tuyaListAddTail mem.links (.data x.addr) (.queue d e)) :
    Rep mem' (s.setQueue d e (s.queue d e ++ [x])) := by
  have hold : ∀ r b, mem.heap.block r = some b → mem'.heap.block r = some b := by
    intro r b hb
    have hlive := live_of_block hb
    have hrb : r ≠ x.buf := fun hr => hbuf (hr ▸ hlive)
    have hra : r ≠ x.addr := fun hr => haddr (hr ▸ hlive)
    rw [hblock, if_neg hrb, if_neg hra, hb]
  constructor
  · have hlq : s.lists (.queue d e) = some (nodes (s.queue d e)) := lists_queue s he
    have hnot : Addr.data x.addr ∉ Addr.queue d e :: nodes (s.queue d e) :=
      Circles.not_mem_of_unlinked (h.unlinked (data_invalid haddr)) hlq nofun
    have hne : Addr.data x.addr ≠ Addr.queue d e := nofun
    have hins := h.circles.insert (h.unlinked (data_invalid haddr)) hne hlq
      (List.perm_append_singleton _ _) (linked_addTail (h.linked_queue he) (h.nodup_queue he) hnot)
      fun z hz hzl => sameAt_addTail (h.linked_queue he) hz hzl
    have hforget : Function.update s.lists (.data x.addr) none = s.lists :=
      Function.update_eq_self (Addr.data x.addr) s.lists
    rw [hforget] at hins
    rw [hlinks, lists_setQueue s _ he, nodes, List.map_append]
    exact hins
  · exact fun e' he' => hold _ _ (h.socket e' he')
  · intro y hy
    rcases (has_append he rfl).mp hy with rfl | hy
    · exact ⟨by rw [hblock, if_neg hne, if_pos rfl], by rw [hblock, if_pos rfl], hbytes⟩
    · obtain ⟨h₁, h₂, h₃⟩ := h.msg y hy
      exact ⟨hold _ _ h₁, hold _ _ h₂, h₃⟩
  · intro y z hy hz hyz
    rcases (has_append he rfl).mp hy with hyx | hy'
    · rcases (has_append he rfl).mp hz with hzx | hz'
      · rw [hyx, hzx]
      · exact absurd (live_of_block (h.msg z hz').2.1) (hyz ▸ hyx ▸ hbuf)
    · rcases (has_append he rfl).mp hz with hzx | hz'
      · exact absurd (live_of_block (h.msg y hy').2.1) (hyz ▸ hzx ▸ hbuf)
      · exact h.bufs y z hy' hz' hyz
  · intro r hr
    obtain ⟨b, hb⟩ := Heap.live_iff.mp hr
    by_cases hrb : r = x.buf
    · exact Or.inr ⟨x, (has_append he rfl).mpr (Or.inl rfl), Or.inr hrb⟩
    · by_cases hra : r = x.addr
      · exact Or.inr ⟨x, (has_append he rfl).mpr (Or.inl rfl), Or.inl hra⟩
      · rw [hblock, if_neg hrb, if_neg hra] at hb
        rcases h.owned r (live_of_block hb) with hr | ⟨y, hy, hr⟩
        · exact Or.inl hr
        · exact Or.inr ⟨y, (has_append he rfl).mpr (Or.inr hy), hr⟩
  · exact h.numbers

/-- Blocks that come and go again leave the shape alone. -/
theorem Rep.same_blocks (h : Rep mem s) (hblock : ∀ r, mem'.heap.block r = mem.heap.block r)
    (hlinks : mem'.links = mem.links) : Rep mem' s where
  circles := hlinks ▸ h.circles
  socket e he := (hblock e).trans (h.socket e he)
  msg x hx := by
    rw [hblock, hblock]
    exact h.msg x hx
  bufs := h.bufs
  owned r hr := by
    rw [Heap.Live, hblock] at hr
    exact h.owned r hr
  numbers := h.numbers

/-- Nodes stay valid while their blocks keep their kinds. -/
theorem valid_of_kinds {heap : Heap Block}
    (hkind : ∀ r b, mem.heap.block r = some b → b.isSocket = true ∨ b.isMsg = true →
      ∃ b', heap.block r = some b' ∧ b'.isSocket = b.isSocket ∧ b'.isMsg = b.isMsg) {a : Addr}
    (ha : mem.valid a = true) : ({ mem with heap := heap } : Memory).valid a = true := by
  have hsocket {r : Nat} (hr : (mem.heap.block r).any Block.isSocket = true) :
      (heap.block r).any Block.isSocket = true := by
    obtain ⟨b, hb, hp⟩ := (Option.any_eq_true _ _).mp hr
    obtain ⟨b', hb', hs, -⟩ := hkind r b hb (Or.inl hp)
    rw [hb']
    exact hs.trans hp
  have hmsg {r : Nat} (hr : (mem.heap.block r).any Block.isMsg = true) :
      (heap.block r).any Block.isMsg = true := by
    obtain ⟨b, hb, hp⟩ := (Option.any_eq_true _ _).mp hr
    obtain ⟨b', hb', -, hm⟩ := hkind r b hb (Or.inr hp)
    rw [hb']
    exact hm.trans hp
  cases a with
  | null => exact ha
  | skHead => rfl
  | element p => exact hsocket ha
  | queue d p => exact hsocket ha
  | data p => exact hmsg ha

theorem store_eq {q : Nat} {b : Block} (hq : mem.heap.Live q) :
    ∃ heap, mem.heap.store q b = some heap ∧ mem.store q b = some { mem with heap := heap } := by
  obtain ⟨heap, hheap⟩ := Option.isSome_iff_exists.mp (Heap.store_isSome.mpr hq)
  exact ⟨heap, hheap, by rw [Memory.store, hheap]; rfl⟩

theorem free_eq {q : Nat} (hq : mem.heap.Live q) :
    ∃ heap, mem.heap.free q = some heap ∧ mem.free q = some { mem with heap := heap } := by
  obtain ⟨heap, hheap⟩ := Option.isSome_iff_exists.mp (Heap.free_isSome.mpr hq)
  exact ⟨heap, hheap, by rw [Memory.free, hheap]; rfl⟩

theorem skAppend_eq {buf : List UInt8} {mem₃ mem₄ mem₅ : Memory}
    (h₃ : ((mem.malloc (.msg none 0)).malloc (.buf [])).store mem.heap.next
      (.msg (some (mem.heap.next + 1)) buf.length) = some mem₃)
    (h₄ : mem₃.store (mem.heap.next + 1) (.buf buf) = some mem₄)
    (h₅ : dlListAddTail mem₄ (.queue d e) (.data mem.heap.next) = some mem₅) :
    skAppend d mem e buf true true = some (mem₅, true) := by
  have hnext : (mem.malloc (.msg none 0)).heap.next = mem.heap.next + 1 := rfl
  simp only [skAppend, if_true, Option.bind_eq_bind, hnext, h₃, h₄, h₅, Option.bind_some]

/-- An append that fails for want of a block leaves no block behind. -/
theorem Rep.skAppend_failed (h : Rep mem s) (d : Dir) (e : Nat) (buf : List UInt8)
    {msgOk bufOk : Bool} (hok : (msgOk && bufOk) = false) :
    ∃ mem', skAppend d mem e buf msgOk bufOk = some (mem', false) ∧ Rep mem' s ∧
      mem'.notified = mem.notified := by
  cases msgOk with
  | false => exact ⟨mem, rfl, h, rfl⟩
  | true =>
    cases bufOk with
    | true => cases hok
    | false =>
      let mem₁ : Memory := mem.malloc (.msg none 0)
      have hlive : mem₁.heap.Live mem.heap.next := Heap.live_malloc.mpr (Or.inl rfl)
      obtain ⟨heap, hheap, hfree⟩ := free_eq hlive
      refine ⟨{ mem₁ with heap := heap }, ?_, h.same_blocks ?_ rfl, rfl⟩
      · simp only [skAppend, if_true, Bool.false_eq_true, if_false, Option.bind_eq_bind]
        rw [hfree]
        rfl
      · intro r
        change heap.block r = _
        rw [Heap.block_free hheap]
        by_cases hr : r = mem.heap.next
        · rw [if_pos hr, hr, mem.heap.fresh _ (Nat.le_refl _)]
        · rw [if_neg hr]
          exact Heap.block_malloc_ne hr

theorem Rep.skAppend (h : Rep mem s) (he : e ∈ s.elems) {buf : List UInt8} (hbuf : buf ≠ []) :
    ∃ mem' x, skAppend d mem e buf true true = some (mem', true) ∧ x.bytes = buf ∧
      Rep mem' (s.setQueue d e (s.queue d e ++ [x])) ∧ mem'.notified = mem.notified := by
  have hfresh : ¬mem.heap.Live mem.heap.next := fun hl => Nat.lt_irrefl _ hl.lt
  have hfresh' : ¬mem.heap.Live (mem.heap.next + 1) := fun hl =>
    Nat.not_lt.mpr (Nat.le_succ _) hl.lt
  have hne : mem.heap.next ≠ mem.heap.next + 1 := Nat.ne_of_lt (Nat.lt_succ_self _)
  let mem₂ : Memory := (mem.malloc (.msg none 0)).malloc (.buf [])
  have hlive : mem₂.heap.Live mem.heap.next :=
    Heap.live_malloc.mpr (Or.inr (Heap.live_malloc.mpr (Or.inl rfl)))
  obtain ⟨heap₃, hheap₃, hstore₃⟩ :
    ∃ heap, mem₂.heap.store mem.heap.next (.msg (some (mem.heap.next + 1)) buf.length) = some heap ∧
      mem₂.store mem.heap.next (.msg (some (mem.heap.next + 1)) buf.length) =
        some { mem₂ with heap := heap } := store_eq hlive
  let mem₃ : Memory := { mem₂ with heap := heap₃ }
  have hlive' : mem₃.heap.Live (mem.heap.next + 1) :=
    (Heap.live_store hheap₃).mpr (Heap.live_malloc.mpr (Or.inl rfl))
  obtain ⟨heap₄, hheap₄, hstore₄⟩ :
    ∃ heap, mem₃.heap.store (mem.heap.next + 1) (.buf buf) = some heap ∧
      mem₃.store (mem.heap.next + 1) (.buf buf) = some { mem₃ with heap := heap } :=
    store_eq hlive'
  let mem₄ : Memory := { mem with heap := heap₄ }
  have hblock : ∀ r, mem₄.heap.block r = if r = mem.heap.next + 1 then some (.buf buf)
      else if r = mem.heap.next then some (.msg (some (mem.heap.next + 1)) buf.length)
      else mem.heap.block r := by
    intro r
    change heap₄.block r = _
    rw [Heap.block_store hheap₄, Heap.block_store hheap₃]
    by_cases hrq : r = mem.heap.next + 1
    · rw [if_pos hrq, if_pos hrq]
    · rw [if_neg hrq, if_neg hrq]
      by_cases hrp : r = mem.heap.next
      · rw [if_pos hrp, if_pos hrp]
      · rw [if_neg hrp, if_neg hrp]
        exact (Heap.block_malloc_ne hrq).trans (Heap.block_malloc_ne hrp)
  have hold : ∀ r b, mem.heap.block r = some b → heap₄.block r = some b := by
    intro r b hb
    have hrq : r ≠ mem.heap.next + 1 := fun hr => hfresh' (hr ▸ live_of_block hb)
    have hrp : r ≠ mem.heap.next := fun hr => hfresh (hr ▸ live_of_block hb)
    have hr := hblock r
    rw [if_neg hrq, if_neg hrp] at hr
    exact hr.trans hb
  have hitem : mem₄.valid (.data mem.heap.next) = true := by
    simp only [Memory.valid, hblock, if_neg hne, if_true]
    rfl
  have hlinked : Linked mem₄.links (.queue d e) (nodes (s.queue d e)) (.queue d e) :=
    h.linked_queue he
  have hadd := dlListAddTail_eq hlinked
    (fun a ha => valid_of_kinds (fun r b hb _ => ⟨b, hold r b hb, rfl, rfl⟩)
      (h.valid_list (lists_queue s he) a ha)) hitem
    (Circles.not_mem_of_unlinked (h.unlinked (data_invalid hfresh)) (lists_queue s he) (by rintro ⟨⟩))
  let x : Msg := ⟨mem.heap.next, mem.heap.next + 1, buf⟩
  exact ⟨_, x, skAppend_eq hstore₃ hstore₄ hadd, rfl,
    h.append he hblock hfresh hfresh' hne hbuf rfl, rfl⟩

/-! ## The oldest message is removed -/

theorem Rep.has_remove {rest : List Msg} (h : Rep mem s) (he : e ∈ s.elems)
    (hq : s.queue d e = x :: rest) :
    (s.setQueue d e rest).Has y ↔ s.Has y ∧ y.addr ≠ x.addr := by
  have hx : x ∈ s.queue d e := hq ▸ List.mem_cons_self
  have hnot : Addr.data x.addr ∉ nodes rest := by
    have hnd := (List.nodup_cons.mp (h.nodup_queue (d := d) he)).2
    rw [hq] at hnd
    exact (List.nodup_cons.mp hnd).1
  constructor
  · intro ⟨d', e', he', hy⟩
    by_cases hde : d' = d ∧ e' = e
    · rw [hde.1, hde.2, setQueue_same] at hy
      refine ⟨⟨d, e, he, hq ▸ List.mem_cons_of_mem _ hy⟩, fun heq => hnot ?_⟩
      exact List.mem_map.mpr ⟨y, hy, by rw [heq]⟩
    · rw [setQueue_ne s _ hde] at hy
      exact ⟨⟨d', e', he', hy⟩, fun heq => hde (h.queue_unique he he' hx hy heq.symm)⟩
  · rintro ⟨⟨d', e', he', hy⟩, hne⟩
    refine ⟨d', e', he', ?_⟩
    by_cases hde : d' = d ∧ e' = e
    · rw [hde.1, hde.2] at hy ⊢
      rw [hq] at hy
      rw [setQueue_same]
      exact (List.mem_cons.mp hy).resolve_left fun heq => hne (heq ▸ rfl)
    · rwa [setQueue_ne s _ hde]

/-- Messages in one block are the same. -/
theorem Rep.buf_eq (h : Rep mem s) (hx : s.Has x) (hy : s.Has y) (hxy : x.addr = y.addr) :
    x.buf = y.buf := by
  have hbx := (h.msg x hx).1
  rw [hxy, (h.msg y hy).1] at hbx
  simp only [Option.some.injEq, Block.msg.injEq] at hbx
  exact hbx.1.symm

/-- The links with a node out of its list and cleared. -/
def unlink (lk : Links Addr) (a : Addr) : Links Addr :=
  overwrite (tuyaListDel lk a) a (.null, .null)

theorem Rep.remove {rest : List Msg} (h : Rep mem s) (he : e ∈ s.elems)
    (hq : s.queue d e = x :: rest)
    (hblock : ∀ r, mem'.heap.block r =
      if r = x.addr ∨ r = x.buf then none else mem.heap.block r)
    (hlinks : mem'.links = unlink mem.links (.data x.addr)) :
    Rep mem' (s.setQueue d e rest) := by
  have hlq : s.lists (.queue d e) = some (nodes (s.queue d e)) := lists_queue s he
  have hhas : s.Has x := ⟨d, e, he, hq ▸ List.mem_cons_self⟩
  obtain ⟨haddr, hbuf, -⟩ := h.msg x hhas
  have hmem : Addr.data x.addr ∈ nodes (s.queue d e) := by
    rw [hq]
    exact List.mem_cons_self
  have herase : (nodes (s.queue d e)).erase (.data x.addr) = nodes rest := by
    rw [hq]
    exact List.erase_cons_head _ _
  -- the blocks of the elements and of the other messages stay
  have hold : ∀ r b, mem.heap.block r = some b → r ≠ x.addr → r ≠ x.buf →
      mem'.heap.block r = some b := by
    intro r b hb h₁ h₂
    rw [hblock, if_neg (not_or.mpr ⟨h₁, h₂⟩), hb]
  constructor
  · have hdel := h.circles.del hlq hmem
    have hfree := h.circles.unlinked_erase hlq hmem
    rw [herase] at hdel hfree
    have hover : Circles (unlink mem.links (.data x.addr)) _ :=
      circles_overwrite hdel fun a l hl => Circles.not_mem_of_unlinked hfree hl fun heq => by
        subst heq
        rw [Function.update_of_ne (by exact nofun)] at hl
        cases hl
    rw [hlinks, lists_setQueue s _ he]
    exact hover
  · intro e' he'
    have hb := h.socket e' he'
    exact hold _ _ hb (ne_of_kind hb haddr nofun) (ne_of_kind hb hbuf nofun)
  · intro y hy
    obtain ⟨hy, hne⟩ := (h.has_remove he hq).mp hy
    obtain ⟨h₁, h₂, h₃⟩ := h.msg y hy
    refine ⟨hold _ _ h₁ hne (ne_of_kind h₁ hbuf nofun),
      hold _ _ h₂ (ne_of_kind h₂ haddr nofun) fun heq => hne (h.bufs y x hy hhas heq), h₃⟩
  · intro y z hy hz
    exact h.bufs y z ((h.has_remove he hq).mp hy).1 ((h.has_remove he hq).mp hz).1
  · intro r hr
    obtain ⟨b, hb⟩ := Heap.live_iff.mp hr
    rw [hblock] at hb
    split at hb
    · cases hb
    · rename_i hne
      refine (h.owned r (live_of_block hb)).imp_right fun ⟨y, hy, hry⟩ => ?_
      refine ⟨y, (h.has_remove he hq).mpr ⟨hy, fun heq => hne ?_⟩, hry⟩
      rw [← heq, ← h.buf_eq hy hhas heq]
      exact hry
  · exact h.numbers

/-- The two blocks of a message are given back; its bytes first, and then its link is still a
node of its list. -/
theorem Rep.release (h : Rep mem s) (hx : s.Has x) :
    ∃ heap₁ heap₂ heap₃, mem.heap.free x.buf = some heap₁ ∧
      heap₁.store x.addr (.msg none 0) = some heap₂ ∧ heap₂.free x.addr = some heap₃ ∧
      (∀ a, mem.valid a = true → ({ mem with heap := heap₂ } : Memory).valid a = true) ∧
      heap₃.next = mem.heap.next ∧
      ∀ r, heap₃.block r = if r = x.addr ∨ r = x.buf then none else mem.heap.block r := by
  obtain ⟨haddr, hbuf, -⟩ := h.msg x hx
  have hne : x.addr ≠ x.buf := ne_of_kind haddr hbuf nofun
  obtain ⟨heap₁, h₁⟩ := Option.isSome_iff_exists.mp (Heap.free_isSome.mpr (live_of_block hbuf))
  have hlive₁ : heap₁.Live x.addr := (Heap.live_free h₁).mpr ⟨hne, live_of_block haddr⟩
  obtain ⟨heap₂, h₂⟩ := Option.isSome_iff_exists.mp
    (Heap.store_isSome.mpr hlive₁ : (heap₁.store x.addr (.msg none 0)).isSome)
  obtain ⟨heap₃, h₃⟩ :=
    Option.isSome_iff_exists.mp (Heap.free_isSome.mpr ((Heap.live_store h₂).mpr hlive₁))
  refine ⟨heap₁, heap₂, heap₃, h₁, h₂, h₃, fun a ha => valid_of_kinds ?_ ha, ?_, fun r => ?_⟩
  · intro r b hb hkind
    rw [Heap.block_store h₂, Heap.block_free h₁]
    by_cases hra : r = x.addr
    · rw [hra, haddr] at hb
      cases hb
      exact ⟨_, if_pos hra, rfl, rfl⟩
    · have hrb : r ≠ x.buf := by
        rintro rfl
        rw [hbuf] at hb
        cases hb
        rcases hkind with hk | hk <;> cases hk
      exact ⟨b, by rw [if_neg hra, if_neg hrb, hb], rfl, rfl⟩
  · rw [Heap.next_free h₃, Heap.next_store h₂, Heap.next_free h₁]
  · rw [Heap.block_free h₃, Heap.block_store h₂, Heap.block_free h₁]
    by_cases hra : r = x.addr
    · rw [if_pos hra, if_pos (Or.inl hra)]
    · rw [if_neg hra, if_neg hra]
      by_cases hrb : r = x.buf
      · rw [if_pos hrb, if_pos (Or.inr hrb)]
      · rw [if_neg hrb, if_neg (not_or.mpr ⟨hra, hrb⟩)]

/-- The link of the oldest message is taken out of its list. -/
theorem Rep.del {rest : List Msg} {heap : Heap Block} (h : Rep mem s) (he : e ∈ s.elems)
    (hq : s.queue d e = x :: rest)
    (hvalid : ∀ a, mem.valid a = true → ({ mem with heap := heap } : Memory).valid a = true) :
    dlListDel { mem with heap := heap } (.data x.addr) =
      some ⟨heap, unlink mem.links (.data x.addr), mem.notified⟩ := by
  have hlq : s.lists (.queue d e) = some (nodes (s.queue d e)) := lists_queue s he
  rw [hq] at hlq
  have hl : Linked ({ mem with heap := heap } : Memory).links (.queue d e)
      ([] ++ .data x.addr :: nodes rest) (.queue d e) := h.circles.circle _ _ hlq
  exact dlListDel_eq hl (fun a ha => hvalid a (h.valid_list hlq a ha)) (h.circles.nodup _ _ hlq)

/-- The oldest message is received. -/
theorem Rep.recvBody {rest : List Msg} {len : Nat} (h : Rep mem s) (he : e ∈ s.elems)
    (hq : s.queue d e = x :: rest) (hlen : len ≠ 0) :
    ∃ mem', recvBody len mem (.data x.addr) =
        some (mem', some (x.bytes.take (min x.bytes.length len))) ∧
      Rep mem' (s.setQueue d e rest) ∧ mem'.notified = mem.notified := by
  have hhas : s.Has x := ⟨d, e, he, hq ▸ List.mem_cons_self⟩
  obtain ⟨haddr, hbuf, hbytes⟩ := h.msg x hhas
  obtain ⟨heap₁, heap₂, heap₃, h₁, h₂, h₃, hvalid, -, hblock⟩ := h.release hhas
  have hdel := h.del he hq hvalid
  have hcount : min x.bytes.length len ≠ 0 := by
    have := List.length_pos_iff.mpr hbytes
    omega
  refine ⟨⟨heap₃, unlink mem.links (.data x.addr), mem.notified⟩, ?_,
    h.remove he hq hblock rfl, rfl⟩
  simp only [FakeSocket.recvBody, Memory.readMsg, haddr, Memory.readBuf, hbuf, if_neg hcount,
    Option.bind_eq_bind, Option.bind_some, Memory.free, h₁, Option.map_some, Memory.store, h₂,
    hdel, h₃]

/-- A message is freed by `fsocket_close`. -/
theorem Rep.closeBody {rest : List Msg} (h : Rep mem s) (he : e ∈ s.elems)
    (hq : s.queue d e = x :: rest) :
    ∃ mem', closeBody mem (.data x.addr) = some (mem', none) ∧
      Rep mem' (s.setQueue d e rest) ∧ mem'.notified = mem.notified ∧
      mem'.heap.next = mem.heap.next := by
  have hhas : s.Has x := ⟨d, e, he, hq ▸ List.mem_cons_self⟩
  obtain ⟨haddr, -, -⟩ := h.msg x hhas
  obtain ⟨heap₁, heap₂, heap₃, h₁, h₂, h₃, -, hnext, hblock⟩ := h.release hhas
  have hdel : dlListDel mem (.data x.addr) =
    some ⟨mem.heap, unlink mem.links (.data x.addr), mem.notified⟩ := h.del he hq fun a ha => ha
  refine ⟨⟨heap₃, unlink mem.links (.data x.addr), mem.notified⟩, ?_,
    h.remove he hq hblock rfl, rfl, hnext⟩
  simp only [FakeSocket.closeBody, hdel, Memory.readMsg, haddr, Option.bind_eq_bind,
    Option.bind_some, Memory.free, h₁, Option.map_some, Memory.store, h₂, h₃]

/-! ## A queue is emptied -/

theorem Shape.setQueue_self (s : Shape) {l : List Msg} (h : s.queue d e = l) :
    s.setQueue d e l = s := by
  have hqueue : (fun d' e' => if d' = d ∧ e' = e then l else s.queue d' e') = s.queue := by
    funext d' e'
    by_cases hde : d' = d ∧ e' = e
    · rw [if_pos hde, hde.1, hde.2, h]
    · rw [if_neg hde]
  rw [setQueue, hqueue]

theorem Shape.setQueue_setQueue (s : Shape) (l l' : List Msg) :
    (s.setQueue d e l).setQueue d e l' = s.setQueue d e l' := by
  simp only [setQueue, Shape.mk.injEq, true_and]
  funext d' e'
  by_cases hde : d' = d ∧ e' = e
  · rw [if_pos hde, if_pos hde]
  · rw [if_neg hde, if_neg hde, if_neg hde]

theorem Rep.closeQueue_from (l : List Msg) :
    ∀ (mem : Memory) (s : Shape) (fuel : Nat), Rep mem s → e ∈ s.elems → s.queue d e = l →
      l.length < fuel →
      ∃ mem', forEachSafeFrom FakeSocket.closeBody (.queue d e) fuel mem
          ((nodes l).headD (.queue d e)) (mem.links.next ((nodes l).headD (.queue d e))) =
          some (mem', none) ∧
        Rep mem' (s.setQueue d e []) ∧ mem'.notified = mem.notified := by
  induction l with
  | nil =>
    intro mem s fuel h he hq hfuel
    obtain ⟨fuel, rfl⟩ := Nat.exists_eq_add_one.mpr hfuel
    exact ⟨mem, forEachSafeFrom_done _ _ _, by rwa [s.setQueue_self hq], rfl⟩
  | cons x rest ih =>
    intro mem s fuel h he hq hfuel
    obtain ⟨fuel, rfl⟩ : ∃ k, fuel = k + 1 := ⟨fuel - 1, by omega⟩
    have hl := h.linked_queue (d := d) he
    rw [hq] at hl
    have hnext : mem.links.next (.data x.addr) = (nodes rest).headD (.queue d e) := hl.2.next_eq
    obtain ⟨mem₁, hbody, hrep, hnot, -⟩ := h.closeBody he hq
    have hrest : (s.setQueue d e rest).queue d e = rest := setQueue_same s d e rest
    have hlq := lists_queue (s.setQueue d e rest) (d := d) he
    rw [hrest] at hlq
    have hv : mem₁.valid ((nodes rest).headD (.queue d e)) = true :=
      hrep.valid_list hlq _ headD_mem_cons
    obtain ⟨mem', hrun, hrep', hnot'⟩ := ih mem₁ _ fuel hrep he hrest (Nat.lt_of_succ_lt_succ hfuel)
    refine ⟨mem', ?_, s.setQueue_setQueue rest [] ▸ hrep', hnot'.trans hnot⟩
    change forEachSafeFrom _ _ (fuel + 1) mem (.data x.addr) (mem.links.next (.data x.addr)) = _
    rw [hnext, forEachSafeFrom_again (by exact nofun) hbody hv]
    exact hrun

theorem Rep.closeQueue (h : Rep mem s) (he : e ∈ s.elems) :
    ∃ mem', forEachSafe FakeSocket.closeBody mem (.queue d e) = some (mem', none) ∧
      Rep mem' (s.setQueue d e []) ∧ mem'.notified = mem.notified := by
  have hlen : (s.queue d e).length ≤ mem.heap.next := by
    have hnd : ((s.queue d e).map Msg.addr).Nodup := by
      have hnodes := (List.nodup_cons.mp (h.nodup_queue (d := d) he)).2
      have hmap : nodes (s.queue d e) = ((s.queue d e).map Msg.addr).map Addr.data := by
        rw [List.map_map]
        rfl
      rw [hmap] at hnodes
      exact nodup_of_map hnodes
    have hle := length_le_next hnd fun p hp => by
      obtain ⟨x, hx, rfl⟩ := List.mem_map.mp hp
      exact live_of_block (h.msg x ⟨d, e, he, hx⟩).1
    rwa [List.length_map] at hle
  rw [forEachSafe_eq (h.linked_queue he) (h.valid_list (lists_queue s he))]
  exact Rep.closeQueue_from _ mem s _ h he rfl (by omega)

/-! ## Receiving and peeking -/

theorem find_some {sk : Int32} (hfind : s.elems.find? (fun e => s.sk e == sk) = some e) :
    e ∈ s.elems ∧ s.sk e = sk := by
  have hsk := List.find?_some hfind
  exact ⟨List.mem_of_find?_eq_some hfind, eq_of_beq hsk⟩

/-- The loop of the receive functions. -/
theorem Rep.recvQueue {len : Nat} (h : Rep mem s) (he : e ∈ s.elems) (hlen : len ≠ 0) :
    ∃ mem', forEachSafe (FakeSocket.recvBody len) mem (.queue d e) =
        some (mem', (s.queue d e).head?.map fun x => x.bytes.take (min x.bytes.length len)) ∧
      Rep mem' (s.setQueue d e (s.queue d e).tail) ∧ mem'.notified = mem.notified := by
  cases hq : s.queue d e with
  | nil =>
    have hl := h.linked_queue (d := d) he
    rw [hq] at hl
    exact ⟨mem, forEachSafe_nil hl (h.valid_queue he), by rwa [List.tail_nil, s.setQueue_self hq],
      rfl⟩
  | cons x rest =>
    obtain ⟨mem', hbody, hrep, hnot⟩ := h.recvBody he hq hlen
    refine ⟨mem', ?_, hrep, hnot⟩
    exact forEachSafe_first (h.linked_queue he) (h.valid_list (lists_queue s he))
      (h.nodup_queue he) (by rw [hq]; rfl) hbody

/-- The loop of the peek functions. -/
theorem Rep.peekQueue (h : Rep mem s) (he : e ∈ s.elems) :
    forEachSafe peekBody mem (.queue d e) =
      some (mem, (s.queue d e).head?.map fun x => x.bytes.length) := by
  cases hq : s.queue d e with
  | nil =>
    have hl := h.linked_queue (d := d) he
    rw [hq] at hl
    exact forEachSafe_nil hl (h.valid_queue he)
  | cons x rest =>
    have hbody : peekBody mem (.data x.addr) = some (mem, some x.bytes.length) := by
      have hx := (h.msg x ⟨d, e, he, hq ▸ List.mem_cons_self⟩).1
      simp only [peekBody, Memory.readMsg, hx, Option.bind_eq_bind, Option.bind_some]
    exact forEachSafe_first (h.linked_queue he) (h.valid_list (lists_queue s he))
      (h.nodup_queue he) (by rw [hq]; rfl) hbody

end TuyaSdk.FakeSocket
