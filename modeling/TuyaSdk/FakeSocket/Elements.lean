import TuyaSdk.FakeSocket.Messages

/-!
# The elements of the fake sockets

A new element is put at the front of the list of elements, with two empty queues, and
`fsocket_close` takes an element out whose queues it has emptied.
-/

namespace TuyaSdk.FakeSocket

open TuyaSdk.Lib TuyaSdk.TuyaList Shape

variable {mem mem' : Memory} {s : Shape} {e p : Nat} {sk : Int32}

/-! ## A new element -/

/-- The shape with a new element. -/
def Shape.add (s : Shape) (p : Nat) (sk : Int32) : Shape where
  elems := p :: s.elems
  sk := Function.update s.sk p sk
  queue := fun d e => if e = p then [] else s.queue d e

namespace Shape

theorem add_queue_same (d : Dir) : (s.add p sk).queue d p = [] := if_pos rfl

theorem add_queue_ne (d : Dir) (he : e ≠ p) : (s.add p sk).queue d e = s.queue d e := if_neg he

theorem add_sk_same : (s.add p sk).sk p = sk := Function.update_self _ _ _

theorem add_sk_ne (he : e ≠ p) : (s.add p sk).sk e = s.sk e := Function.update_of_ne he _ _

theorem has_add {x : Msg} (hp : p ∉ s.elems) : (s.add p sk).Has x ↔ s.Has x := by
  constructor
  · intro ⟨d, e, he, hx⟩
    by_cases hep : e = p
    · rw [hep, add_queue_same] at hx
      cases hx
    · rw [add_queue_ne d hep] at hx
      exact ⟨d, e, (List.mem_cons.mp he).resolve_left hep, hx⟩
  · intro ⟨d, e, he, hx⟩
    have hep : e ≠ p := fun heq => hp (heq ▸ he)
    exact ⟨d, e, List.mem_cons_of_mem _ he, by rwa [add_queue_ne d hep]⟩

end Shape

theorem unlinked_update {m : TuyaList.Lists Addr} {a b : Addr} (ha : m.Unlinked a) (hab : a ≠ b) :
    TuyaList.Lists.Unlinked (Function.update m b (some [])) a := by
  constructor
  · rw [Function.update_of_ne hab]
    exact ha.1
  · intro a'
    by_cases hb : a' = b
    · rw [hb, Function.update_self]
      rfl
    · rw [Function.update_of_ne hb]
      exact ha.2 a'

/-- The links after the two queues of a new element are made. -/
def queueLinks (lk : Links Addr) (p : Nat) : Links Addr :=
  initListHead (initListHead lk (.queue .rx p)) (.queue .tx p)

/-- The lists with the two empty queues of a new element. -/
def withQueues (m : TuyaList.Lists Addr) (p : Nat) : TuyaList.Lists Addr :=
  Function.update (Function.update m (.queue .rx p) (some [])) (.queue .tx p) (some [])

theorem Rep.circles_queueLinks (h : Rep mem s) (hp : ¬mem.heap.Live p) :
    Circles (queueLinks mem.links p) (withQueues s.lists p) := by
  have hinvalid : ∀ d, mem.valid (.queue d p) = false := by
    intro d
    simp only [Memory.valid, block_of_not_live hp]
    rfl
  have htx : Addr.queue .tx p ≠ Addr.queue .rx p := by rintro ⟨⟩
  exact (h.circles.init (h.unlinked (hinvalid .rx))).init
    (unlinked_update (h.unlinked (hinvalid .tx)) htx)

theorem Rep.unlinked_element (h : Rep mem s) (hp : ¬mem.heap.Live p) :
    TuyaList.Lists.Unlinked (withQueues s.lists p) (.element p) := by
  have hinvalid : mem.valid (.element p) = false := by
    simp only [Memory.valid, block_of_not_live hp]
    rfl
  exact unlinked_update (unlinked_update (h.unlinked hinvalid) (by rintro ⟨⟩)) (by rintro ⟨⟩)

theorem lists_add (s : Shape) {p : Nat} (hp : p ∉ s.elems) {a : Addr} {l : List Addr}
    (hl : (s.add p sk).lists a = some l) :
    Function.update (Function.update (withQueues s.lists p) (.element p) none) .skHead
      (some (.element p :: s.elems.map .element)) a = some l := by
  cases a with
  | skHead =>
    rw [Function.update_self]
    exact hl
  | queue d e =>
    rw [Function.update_of_ne (by rintro ⟨⟩), Function.update_of_ne (by rintro ⟨⟩), withQueues]
    by_cases hep : e = p
    · subst hep
      have hnil : l = [] := by
        simp only [lists, add, List.mem_cons_self, if_true] at hl
        cases hl
        rfl
      cases d with
      | tx => rw [Function.update_self, hnil]
      | rx => rw [Function.update_of_ne (by rintro ⟨⟩), Function.update_self, hnil]
    · have hne : ∀ d', Addr.queue d e ≠ Addr.queue d' p := by
        intro d' heq
        cases heq
        exact hep rfl
      rw [Function.update_of_ne (hne .tx), Function.update_of_ne (hne .rx)]
      simp only [lists, add, List.mem_cons, hep, false_or] at hl ⊢
      exact hl
  | null => cases hl
  | element q => cases hl
  | data q => cases hl

theorem Rep.add (h : Rep mem s) (hp : ¬mem.heap.Live p) (hnew : ∀ e ∈ s.elems, s.sk e ≠ sk)
    (hblock : ∀ r, mem'.heap.block r = if r = p then some (.socket sk) else mem.heap.block r)
    (hlinks : mem'.links = tuyaListAdd (queueLinks mem.links p) (.element p) .skHead) :
    Rep mem' (s.add p sk) := by
  have hpe : p ∉ s.elems := fun hmem => hp (live_of_block (h.socket p hmem))
  have hold : ∀ r b, mem.heap.block r = some b → mem'.heap.block r = some b := by
    intro r b hb
    have hrp : r ≠ p := fun heq => hp (heq ▸ live_of_block hb)
    rw [hblock, if_neg hrp, hb]
  have hsk : ∀ e ∈ s.elems, (s.add p sk).sk e = s.sk e := by
    intro e he
    exact add_sk_ne fun heq => hpe (heq ▸ he)
  constructor
  · have hc := h.circles_queueLinks hp
    have hhead : withQueues s.lists p .skHead = some (s.elems.map .element) := rfl
    have hnot := Circles.not_mem_of_unlinked (h.unlinked_element hp) hhead nofun
    have hl := hc.circle _ _ hhead
    have hins := hc.insert (h.unlinked_element hp) (by exact nofun) hhead (List.Perm.refl _)
      (linked_add hl (hc.nodup _ _ hhead) hnot) fun x hx hxl => sameAt_add hl hx hxl
    rw [hlinks]
    exact hins.mono fun a l => lists_add s hpe
  · intro e he
    rcases List.mem_cons.mp he with heq | he
    · rw [heq, hblock, if_pos rfl, add_sk_same]
    · rw [hsk e he]
      exact hold _ _ (h.socket e he)
  · intro x hx
    obtain ⟨h₁, h₂, h₃⟩ := h.msg x ((has_add hpe).mp hx)
    exact ⟨hold _ _ h₁, hold _ _ h₂, h₃⟩
  · exact fun x y hx hy => h.bufs x y ((has_add hpe).mp hx) ((has_add hpe).mp hy)
  · intro r hr
    obtain ⟨b, hb⟩ := Heap.live_iff.mp hr
    rw [hblock] at hb
    by_cases hrp : r = p
    · exact Or.inl (hrp ▸ List.mem_cons_self)
    · rw [if_neg hrp] at hb
      rcases h.owned r (live_of_block hb) with hr | ⟨x, hx, hrx⟩
      · exact Or.inl (List.mem_cons_of_mem _ hr)
      · exact Or.inr ⟨x, (has_add hpe).mpr hx, hrx⟩
  · intro e he e' he' heq
    rcases List.mem_cons.mp he with hep | he
    · rcases List.mem_cons.mp he' with hep' | he'
      · rw [hep, hep']
      · rw [hep, add_sk_same, hsk e' he'] at heq
        exact absurd heq.symm (hnew e' he')
    · rcases List.mem_cons.mp he' with hep' | he'
      · rw [hep', add_sk_same, hsk e he] at heq
        exact absurd heq (hnew e he)
      · rw [hsk e he, hsk e' he'] at heq
        exact h.numbers e he e' he' heq

/-- What `fsocket_init` does when it gets a block. -/
theorem Rep.newElement (h : Rep mem s) (hnew : ∀ e ∈ s.elems, s.sk e ≠ sk) :
    ∃ mem₁ mem₂ mem₃, dlListInit (mem.malloc (.socket sk)) (.queue .rx mem.heap.next) = some mem₁ ∧
      dlListInit mem₁ (.queue .tx mem.heap.next) = some mem₂ ∧
      dlListAdd mem₂ .skHead (.element mem.heap.next) = some mem₃ ∧
      Rep mem₃ (s.add mem.heap.next sk) ∧ mem₃.notified = mem.notified := by
  have hp : ¬mem.heap.Live mem.heap.next := fun hl => Nat.lt_irrefl _ hl.lt
  have hself : (mem.heap.malloc (.socket sk)).block mem.heap.next = some (.socket sk) :=
    Heap.block_malloc_same
  have hblock : ∀ r, (mem.heap.malloc (.socket sk)).block r =
      if r = mem.heap.next then some (.socket sk) else mem.heap.block r := fun _ => rfl
  have hqueue (lk : Links Addr) (d : Dir) :
      (⟨mem.heap.malloc (.socket sk), lk, mem.notified⟩ : Memory).valid
        (.queue d mem.heap.next) = true := by
    simp only [Memory.valid, hself]
    rfl
  have helement (lk : Links Addr) :
      (⟨mem.heap.malloc (.socket sk), lk, mem.notified⟩ : Memory).valid
        (.element mem.heap.next) = true := by
    simp only [Memory.valid, hself]
    rfl
  have hold (lk : Links Addr) {a : Addr} (ha : mem.valid a = true) :
      (⟨mem.heap.malloc (.socket sk), lk, mem.notified⟩ : Memory).valid a = true := by
    rw [valid_links ⟨mem.heap.malloc (.socket sk), mem.links, mem.notified⟩ lk a]
    refine valid_of_kinds (fun r b hb _ => ⟨b, ?_, rfl, rfl⟩) ha
    rw [Heap.block_malloc_live (live_of_block hb), hb]
  have hc := h.circles_queueLinks hp
  have hhead : withQueues s.lists mem.heap.next .skHead = some (s.elems.map .element) := rfl
  have hl := hc.circle _ _ hhead
  have hnot := Circles.not_mem_of_unlinked (h.unlinked_element hp) hhead (by rintro ⟨⟩)
  have hnext : (queueLinks mem.links mem.heap.next).next .skHead ∈
      Addr.skHead :: s.elems.map .element := by
    rw [hl.next_eq]
    exact headD_mem_cons
  let mem₂ : Memory :=
    ⟨mem.heap.malloc (.socket sk), queueLinks mem.links mem.heap.next, mem.notified⟩
  have hadd : dlListAdd mem₂ .skHead (.element mem.heap.next) = some
      { mem₂ with links := tuyaListAdd mem₂.links (.element mem.heap.next) .skHead } := by
    refine dlListAdd_eq rfl (helement _) (hold _ (h.valid_list rfl _ hnext))
      (by rintro ⟨⟩) fun heq => ?_
    exact hnot (heq ▸ hnext)
  exact ⟨_, mem₂, _, dlListInit_eq (hqueue _ _), dlListInit_eq (hqueue _ _), hadd,
    h.add hp hnew hblock rfl, rfl⟩

/-! ## An element is closed -/

/-- The shape without an element. -/
def Shape.erase (s : Shape) (e : Nat) : Shape := { s with elems := s.elems.erase e }

theorem Rep.nodup_elems (h : Rep mem s) : s.elems.Nodup :=
  nodup_of_map (List.nodup_cons.mp (h.circles.nodup .skHead _ rfl)).2

theorem Rep.mem_erase (h : Rep mem s) {e' : Nat} :
    e' ∈ (s.erase e).elems ↔ e' ≠ e ∧ e' ∈ s.elems := h.nodup_elems.mem_erase_iff

theorem Rep.has_erase (h : Rep mem s) (hempty : ∀ d, s.queue d e = []) {x : Msg} :
    (s.erase e).Has x ↔ s.Has x := by
  constructor
  · exact fun ⟨d, e', he', hx⟩ => ⟨d, e', (h.mem_erase.mp he').2, hx⟩
  · intro ⟨d, e', he', hx⟩
    refine ⟨d, e', h.mem_erase.mpr ⟨?_, he'⟩, hx⟩
    rintro rfl
    rw [hempty] at hx
    cases hx

theorem Rep.erase (h : Rep mem s) (he : e ∈ s.elems) (hempty : ∀ d, s.queue d e = [])
    (hblock : ∀ r, mem'.heap.block r = if r = e then none else mem.heap.block r)
    (hlinks : mem'.links = unlink mem.links (.element e)) : Rep mem' (s.erase e) := by
  have hsocket := h.socket e he
  have hhead : s.lists .skHead = some (s.elems.map .element) := rfl
  have hmem : Addr.element e ∈ s.elems.map Addr.element := List.mem_map_of_mem he
  have hold : ∀ r b, mem.heap.block r = some b → r ≠ e → mem'.heap.block r = some b := by
    intro r b hb hre
    rw [hblock, if_neg hre, hb]
  constructor
  · have hdel := h.circles.del hhead hmem
    have hfree := h.circles.unlinked_erase hhead hmem
    have hover : Circles (unlink mem.links (.element e)) _ :=
      circles_overwrite hdel fun a l hl => Circles.not_mem_of_unlinked hfree hl fun heq => by
        subst heq
        rw [Function.update_of_ne (by rintro ⟨⟩)] at hl
        cases hl
    rw [hlinks]
    refine hover.mono fun a l hl => ?_
    cases a with
    | skHead =>
      have hinj : Function.Injective Addr.element := fun _ _ heq => Addr.element.inj heq
      rw [Function.update_self, ← List.map_erase hinj]
      exact hl
    | queue d e' =>
      rw [Function.update_of_ne (by rintro ⟨⟩)]
      simp only [lists] at hl ⊢
      split at hl
      · rename_i he'
        rw [if_pos (h.mem_erase.mp he').2]
        exact hl
      · cases hl
    | null => cases hl
    | element q => cases hl
    | data q => cases hl
  · exact fun e' he' => hold _ _ (h.socket e' (h.mem_erase.mp he').2) (h.mem_erase.mp he').1
  · intro x hx
    obtain ⟨h₁, h₂, h₃⟩ := h.msg x ((h.has_erase hempty).mp hx)
    exact ⟨hold _ _ h₁ (ne_of_kind h₁ hsocket (by rintro ⟨⟩)),
      hold _ _ h₂ (ne_of_kind h₂ hsocket (by rintro ⟨⟩)), h₃⟩
  · exact fun x y hx hy => h.bufs x y ((h.has_erase hempty).mp hx) ((h.has_erase hempty).mp hy)
  · intro r hr
    obtain ⟨b, hb⟩ := Heap.live_iff.mp hr
    rw [hblock] at hb
    split at hb
    · cases hb
    · rename_i hre
      rcases h.owned r (live_of_block hb) with hr | ⟨x, hx, hrx⟩
      · exact Or.inl (h.mem_erase.mpr ⟨hre, hr⟩)
      · exact Or.inr ⟨x, (h.has_erase hempty).mpr hx, hrx⟩
  · exact fun e' he' e'' he'' =>
      h.numbers e' (h.mem_erase.mp he').2 e'' (h.mem_erase.mp he'').2

/-- The end of `fsocket_close`. -/
theorem Rep.freeElement (h : Rep mem s) (he : e ∈ s.elems) (hempty : ∀ d, s.queue d e = []) :
    ∃ mem₁ mem₂, dlListDel mem (.element e) = some mem₁ ∧ mem₁.free e = some mem₂ ∧
      Rep mem₂ (s.erase e) ∧ mem₂.notified = mem.notified := by
  have hhead : s.lists .skHead = some (s.elems.map .element) := rfl
  have hmem : Addr.element e ∈ s.elems.map Addr.element := List.mem_map_of_mem he
  obtain ⟨l₁, l₂, hsplit⟩ := List.append_of_mem hmem
  rw [hsplit] at hhead
  have hdel := dlListDel_eq (h.circles.circle _ _ hhead) (h.valid_list hhead)
    (h.circles.nodup _ _ hhead)
  obtain ⟨heap, hheap⟩ :=
    Option.isSome_iff_exists.mp (Heap.free_isSome.mpr (live_of_block (h.socket e he)))
  have hblock : ∀ r, heap.block r = if r = e then none else mem.heap.block r := fun r =>
    Heap.block_free hheap
  exact ⟨⟨mem.heap, unlink mem.links (.element e), mem.notified⟩,
    ⟨heap, unlink mem.links (.element e), mem.notified⟩, hdel,
    by simp only [Memory.free, hheap, Option.map_some], h.erase he hempty hblock rfl, rfl⟩

end TuyaSdk.FakeSocket
