import TuyaSdk.FakeSocket.Elements

/-!
# Fake sockets are pairs of message queues

`Refines mem t` relates the memory to the pairs of queues: some shape is in the memory, with
these queues, and nothing else is allocated. Every call on the memory does what the call on
the pairs of queues does, with the same result.
-/

namespace TuyaSdk.FakeSocket

open TuyaSdk.Lib Shape

variable {mem : Memory} {s : Shape} {t : Sockets} {d : Dir} {e : Nat} {sk : Int32}

/-! ## The queues of a shape -/

namespace Shape

/-- The queues of an element. -/
def queues (s : Shape) (e : Nat) : Queues := fun d => (s.queue d e).map (·.bytes)

theorem sockets_of_find (hfind : s.elems.find? (fun e => s.sk e == sk) = some e) :
    s.sockets sk = some (s.queues e) := by
  rw [sockets, hfind]
  rfl

theorem sockets_of_mem (hnum : ∀ e ∈ s.elems, ∀ e' ∈ s.elems, s.sk e = s.sk e' → e = e')
    (he : e ∈ s.elems) : s.sockets (s.sk e) = some (s.queues e) := by
  cases hfind : s.elems.find? fun e' => s.sk e' == s.sk e with
  | none => exact absurd (beq_self_eq_true _) (List.find?_eq_none.mp hfind e he)
  | some e' =>
    obtain ⟨he', hsk⟩ := find_some hfind
    rw [sockets_of_find hfind, hnum e' he' e he hsk]

theorem sockets_eq_none : s.sockets sk = none ↔ ∀ e ∈ s.elems, s.sk e ≠ sk := by
  rw [sockets, Option.map_eq_none_iff, List.find?_eq_none]
  simp only [beq_iff_eq, ne_eq]

theorem sockets_init (s : Shape) (h : s.elems = []) : s.sockets = fun _ => none := by
  funext sk
  refine sockets_eq_none.mpr fun e he => ?_
  rw [h] at he
  cases he

theorem sockets_setQueue (hnum : ∀ e ∈ s.elems, ∀ e' ∈ s.elems, s.sk e = s.sk e' → e = e')
    (he : e ∈ s.elems) (l : List Msg) :
    (s.setQueue d e l).sockets =
      s.sockets.set (s.sk e) (some (Function.update (s.queues e) d (l.map (·.bytes)))) := by
  funext sk
  by_cases hsk : sk = s.sk e
  · have hnew : (s.setQueue d e l).sockets (s.sk e) = some ((s.setQueue d e l).queues e) :=
      sockets_of_mem hnum he
    rw [hsk, Sockets.set, Function.update_self, hnew]
    refine congrArg some (funext fun d' => ?_)
    by_cases hd : d' = d
    · rw [hd, Function.update_self, queues, setQueue_same]
    · rw [Function.update_of_ne hd, queues, setQueue_ne s l fun h => hd h.1]
      rfl
  · rw [Sockets.set, Function.update_of_ne hsk]
    by_cases hex : ∃ e' ∈ s.elems, s.sk e' = sk
    · obtain ⟨e', he', rfl⟩ := hex
      have hnew : (s.setQueue d e l).sockets (s.sk e') = some ((s.setQueue d e l).queues e') :=
        sockets_of_mem hnum he'
      rw [hnew, sockets_of_mem hnum he']
      refine congrArg some (funext fun d' => ?_)
      rw [queues, setQueue_ne s l fun hde : d' = d ∧ e' = e => hsk (congrArg s.sk hde.2)]
      rfl
    · have hall : ∀ e' ∈ s.elems, s.sk e' ≠ sk := fun e' he' heq => hex ⟨e', he', heq⟩
      have hnew : (s.setQueue d e l).sockets sk = none := sockets_eq_none.mpr hall
      rw [hnew, sockets_eq_none.mpr hall]

theorem sockets_add {p : Nat} (hp : p ∉ s.elems)
    (hnum : ∀ e ∈ s.elems, ∀ e' ∈ s.elems, s.sk e = s.sk e' → e = e')
    (hnum' : ∀ e ∈ (s.add p sk).elems, ∀ e' ∈ (s.add p sk).elems,
      (s.add p sk).sk e = (s.add p sk).sk e' → e = e') :
    (s.add p sk).sockets = s.sockets.set sk (some fun _ => []) := by
  funext sk'
  by_cases hsk : sk' = sk
  · have hself := sockets_of_mem hnum' (List.mem_cons_self : p ∈ p :: s.elems)
    rw [add_sk_same] at hself
    rw [hsk, Sockets.set, Function.update_self, hself]
    refine congrArg some (funext fun d => ?_)
    rw [queues, add_queue_same]
    rfl
  · rw [Sockets.set, Function.update_of_ne hsk]
    by_cases hex : ∃ e' ∈ s.elems, s.sk e' = sk'
    · obtain ⟨e', he', rfl⟩ := hex
      have hne : e' ≠ p := fun heq => hp (heq ▸ he')
      have hother := sockets_of_mem hnum' (List.mem_cons_of_mem p he')
      rw [add_sk_ne hne] at hother
      rw [hother, sockets_of_mem hnum he']
      refine congrArg some (funext fun d => ?_)
      rw [queues, add_queue_ne d hne]
      rfl
    · rw [sockets_eq_none.mpr fun e' he' heq => hex ⟨e', he', heq⟩]
      refine sockets_eq_none.mpr fun e' he' heq => ?_
      rcases List.mem_cons.mp he' with hep | he'
      · rw [hep, add_sk_same] at heq
        exact hsk heq.symm
      · rw [add_sk_ne fun hep : e' = p => hp (hep ▸ he')] at heq
        exact hex ⟨e', he', heq⟩

theorem sockets_erase (hnd : s.elems.Nodup)
    (hnum : ∀ e ∈ s.elems, ∀ e' ∈ s.elems, s.sk e = s.sk e' → e = e') (he : e ∈ s.elems) :
    (s.erase e).sockets = s.sockets.set (s.sk e) none := by
  have hmem : ∀ e', e' ∈ (s.erase e).elems ↔ e' ≠ e ∧ e' ∈ s.elems := fun e' =>
    hnd.mem_erase_iff
  funext sk
  by_cases hsk : sk = s.sk e
  · rw [hsk, Sockets.set, Function.update_self]
    refine sockets_eq_none.mpr fun e' he' heq => ?_
    obtain ⟨hne, he'⟩ := (hmem e').mp he'
    exact hne (hnum e' he' e he heq)
  · rw [Sockets.set, Function.update_of_ne hsk]
    by_cases hex : ∃ e' ∈ s.elems, s.sk e' = sk
    · obtain ⟨e', he', rfl⟩ := hex
      have hne : e' ≠ e := fun heq => hsk (heq ▸ rfl)
      have hnew : (s.erase e).sockets (s.sk e') = some ((s.erase e).queues e') :=
        sockets_of_mem
          (fun a ha b hb => hnum a ((hmem a).mp ha).2 b ((hmem b).mp hb).2)
          ((hmem e').mpr ⟨hne, he'⟩)
      rw [hnew, sockets_of_mem hnum he']
      rfl
    · rw [sockets_eq_none.mpr fun e' he' heq => hex ⟨e', he', heq⟩]
      exact sockets_eq_none.mpr fun e' he' heq => hex ⟨e', ((hmem e').mp he').2, heq⟩

end Shape

/-! ## Calls -/

/-- The memory holds these pairs of queues, and nothing else is allocated. -/
def Refines (mem : Memory) (t : Sockets) : Prop := ∃ s, Rep mem s ∧ s.sockets = t

theorem refines_init : Refines Memory.init fun _ => none := by
  let s : Shape := ⟨[], fun _ => 0, fun _ _ => []⟩
  have hlists : ∀ a l, s.lists a = some l → a = .skHead ∧ l = [] := by
    intro a l hl
    cases a with
    | skHead =>
      cases hl
      exact ⟨rfl, rfl⟩
    | queue d e => cases hl
    | null => cases hl
    | element p => cases hl
    | data p => cases hl
  refine ⟨s, ⟨⟨?_, ?_, ?_⟩, nofun, nofun, nofun, ?_, nofun⟩, s.sockets_init rfl⟩
  · intro a l hl
    obtain ⟨rfl, rfl⟩ := hlists a l hl
    exact ⟨rfl, rfl⟩
  · intro a l hl
    obtain ⟨rfl, rfl⟩ := hlists a l hl
    exact List.nodup_singleton _
  · intro a l a' l' hl hl' hne
    exact absurd ((hlists a l hl).1.trans (hlists a' l' hl').1.symm) hne
  · exact fun p hp => absurd hp (Heap.not_live_empty p)

/-- The element of a socket, if there is one. -/
theorem Refines.find (h : Refines mem t) (sk : Int32) :
    (skGetSkElement mem sk = some none ∧ t sk = none) ∨
      ∃ s e, Rep mem s ∧ s.sockets = t ∧ skGetSkElement mem sk = some (some e) ∧ e ∈ s.elems ∧
        s.sk e = sk ∧ t sk = some (s.queues e) := by
  obtain ⟨s, hs, rfl⟩ := h
  have hget := hs.find sk
  cases hfind : s.elems.find? fun e => s.sk e == sk with
  | none =>
    rw [hfind] at hget
    exact Or.inl ⟨hget, by rw [sockets, hfind]; rfl⟩
  | some e =>
    rw [hfind] at hget
    obtain ⟨he, hsk⟩ := find_some hfind
    exact Or.inr ⟨s, e, hs, rfl, hget, he, hsk, sockets_of_find hfind⟩

/-- A message put into a queue of an element. -/
theorem Rep.send (h : Rep mem s) (he : e ∈ s.elems) (hsk : s.sk e = sk) {buf : List UInt8}
    (hbuf : buf ≠ []) (msgOk bufOk : Bool) :
    ∃ mem', FakeSocket.skAppend d mem e buf msgOk bufOk = some (mem', msgOk && bufOk) ∧
      Refines mem' (s.sockets.send d sk buf (msgOk && bufOk)).1 ∧ mem'.notified = mem.notified := by
  have hsome : s.sockets sk = some (s.queues e) := hsk ▸ sockets_of_mem h.numbers he
  cases hok : msgOk && bufOk with
  | false =>
    obtain ⟨mem', hrun, hrep, hnot⟩ := h.skAppend_failed d e buf hok
    refine ⟨mem', hrun, ⟨s, hrep, ?_⟩, hnot⟩
    simp only [Sockets.send, hsome, Bool.false_eq_true, if_false]
  | true =>
    obtain ⟨rfl, rfl⟩ : msgOk = true ∧ bufOk = true := by simpa using hok
    obtain ⟨mem', x, hrun, rfl, hrep, hnot⟩ := h.skAppend (d := d) he hbuf
    refine ⟨mem', hrun, ⟨_, hrep, ?_⟩, hnot⟩
    rw [sockets_setQueue h.numbers he, hsk]
    simp only [Sockets.send, hsome, if_true, List.map_append, List.map_cons, List.map_nil]
    rfl

theorem Refines.keSkSend (h : Refines mem t) (sk : Int32) {buf : List UInt8} (hbuf : buf ≠ [])
    (msgOk bufOk : Bool) :
    ∃ mem', keSkSend mem sk buf msgOk bufOk =
        some (mem', (t.send .rx sk buf (msgOk && bufOk)).2) ∧
      Refines mem' (t.send .rx sk buf (msgOk && bufOk)).1 := by
  rcases h.find sk with ⟨hget, hnone⟩ | ⟨s, e, hs, rfl, hget, he, hsk, hsome⟩
  · refine ⟨mem, ?_, ?_⟩
    · simp only [FakeSocket.keSkSend, hget, Sockets.send, hnone, Option.bind_eq_bind,
        Option.bind_some]
    · simpa only [Sockets.send, hnone] using h
  · obtain ⟨mem', hrun, href, -⟩ := hs.send (d := .rx) he hsk hbuf msgOk bufOk
    refine ⟨mem', ?_, href⟩
    simp only [FakeSocket.keSkSend, hget, hrun, Sockets.send, hsome, Option.bind_eq_bind,
      Option.bind_some]
    cases msgOk && bufOk <;> rfl

/-- A message that is sent is notified. -/
theorem Refines.fsocketSend (h : Refines mem t) (sk : Int32) {buf : List UInt8} (hbuf : buf ≠ [])
    (type : Nat) (msgOk bufOk : Bool) :
    ∃ mem', fsocketSend mem sk buf type msgOk bufOk =
        some (mem', (t.send .tx sk buf (msgOk && bufOk)).2) ∧
      Refines mem' (t.send .tx sk buf (msgOk && bufOk)).1 ∧
      mem'.notified = mem.notified ++
        if (t.send .tx sk buf (msgOk && bufOk)).2 = 0 then [] else [type] := by
  rcases h.find sk with ⟨hget, hnone⟩ | ⟨s, e, hs, rfl, hget, he, hsk, hsome⟩
  · refine ⟨mem, ?_, ?_, ?_⟩
    · simp only [FakeSocket.fsocketSend, hget, Sockets.send, hnone, Option.bind_eq_bind,
        Option.bind_some]
    · simpa only [Sockets.send, hnone] using h
    · simp only [Sockets.send, hnone, if_true, List.append_nil]
  · obtain ⟨mem', hrun, href, hnot⟩ := hs.send (d := .tx) he hsk hbuf msgOk bufOk
    cases hok : msgOk && bufOk with
    | false =>
      rw [hok] at hrun href
      refine ⟨mem', ?_, href, ?_⟩
      · simp only [FakeSocket.fsocketSend, hget, hrun, Sockets.send, hsome, Option.bind_eq_bind,
          Option.bind_some, Bool.false_eq_true, if_false]
      · simp only [Sockets.send, hsome, Bool.false_eq_true, if_false, if_true, List.append_nil, hnot]
    | true =>
      rw [hok] at hrun href
      refine ⟨{ mem' with notified := mem'.notified ++ [type] }, ?_, ?_, ?_⟩
      · simp only [FakeSocket.fsocketSend, hget, hrun, Sockets.send, hsome, Option.bind_eq_bind,
          Option.bind_some, if_true]
      · obtain ⟨s', hs', hsockets⟩ := href
        exact ⟨s', hs'.same_blocks (fun _ => rfl) rfl, hsockets⟩
      · have hlen : buf.length ≠ 0 := fun hzero => hbuf (List.eq_nil_of_length_eq_zero hzero)
        simp only [Sockets.send, hsome, if_true, if_neg hlen, hnot]

theorem Refines.skRecv (h : Refines mem t) (d : Dir) (sk : Int32) {len : Nat} (hlen : len ≠ 0) :
    ∃ mem', skRecv d mem sk len = some (mem', (t.recv d sk len).2) ∧
      Refines mem' (t.recv d sk len).1 ∧ mem'.notified = mem.notified := by
  rcases h.find sk with ⟨hget, hnone⟩ | ⟨s, e, hs, rfl, hget, he, hsk, hsome⟩
  · refine ⟨mem, ?_, ?_, rfl⟩
    · simp only [FakeSocket.skRecv, hget, Sockets.recv, hnone, Option.bind_eq_bind,
        Option.bind_some]
    · simpa only [Sockets.recv, hnone] using h
  · obtain ⟨mem', hrun, hrep, hnot⟩ := hs.recvQueue (d := d) he hlen
    have hset := sockets_setQueue (d := d) hs.numbers he (s.queue d e).tail
    refine ⟨mem', ?_, ⟨_, hrep, ?_⟩, hnot⟩
    · simp only [FakeSocket.skRecv, hget, hrun, Sockets.recv, hsome, Option.bind_eq_bind,
        Option.bind_some, queues]
      cases s.queue d e <;> rfl
    · rw [hset, hsk]
      cases hq : s.queue d e with
      | nil =>
        have hself : Function.update (s.queues e) d [] = s.queues e := by
          refine Function.update_eq_self_iff.mpr ?_
          rw [queues, hq]
          rfl
        rw [List.tail_nil, List.map_nil, hself]
        simp only [Sockets.recv, hsome, queues, hq, List.map_nil]
        exact Function.update_eq_self_iff.mpr hsome.symm
      | cons x rest => simp only [Sockets.recv, hsome, queues, hq, List.map_cons, List.tail_cons]

theorem Refines.skPeek (h : Refines mem t) (d : Dir) (sk : Int32) :
    skPeek d mem sk = some (t.peek d sk) := by
  rcases h.find sk with ⟨hget, hnone⟩ | ⟨s, e, hs, rfl, hget, he, hsk, hsome⟩
  · simp only [FakeSocket.skPeek, hget, Sockets.peek, hnone, Option.bind_eq_bind, Option.bind_some]
  · simp only [FakeSocket.skPeek, hget, hs.peekQueue he, Sockets.peek, hsome, queues,
      Option.bind_eq_bind, Option.bind_some, List.head?_map, Option.map_map]
    rfl

theorem Refines.fsocketInit (h : Refines mem t) (af type protocol : Int32) (ok : Bool) :
    ∃ mem' sk, fsocketInit mem af type protocol ok = some (mem', sk) ∧
      (t.step (.fsocketInit af type protocol ok)).2 = .socket sk ∧
      Refines mem' (t.step (.fsocketInit af type protocol ok)).1 ∧
      mem'.notified = mem.notified := by
  rcases h.find (af + type + protocol) with ⟨hget, hnone⟩ | ⟨s, e, hs, rfl, hget, -, -, hsome⟩
  · cases ok with
    | false =>
      refine ⟨mem, 0, ?_, ?_, ?_, rfl⟩
      · simp only [FakeSocket.fsocketInit, hget, Option.bind_eq_bind, Option.bind_some,
          Bool.false_eq_true, if_false]
      · simp only [Sockets.step, hnone, Bool.false_eq_true, if_false, Option.isSome_none]
      · simpa only [Sockets.step, hnone, Option.isSome_none, Bool.false_eq_true, if_false] using h
    | true =>
      obtain ⟨s, hs, rfl⟩ := h
      have hnew := sockets_eq_none.mp hnone
      obtain ⟨mem₁, mem₂, mem₃, h₁, h₂, h₃, hrep, hnot⟩ := hs.newElement hnew
      refine ⟨mem₃, af + type + protocol, ?_, ?_,
        ⟨s.add mem.heap.next (af + type + protocol), hrep, ?_⟩, hnot⟩
      · simp only [FakeSocket.fsocketInit, hget, Option.bind_eq_bind, Option.bind_some, if_true, h₁,
          h₂, h₃]
      · simp only [Sockets.step, hnone, if_true, Option.isSome_none, Bool.false_eq_true, if_false]
      · have hp : mem.heap.next ∉ s.elems := fun hmem =>
          Nat.lt_irrefl _ (Rep.live_of_block (hs.socket _ hmem)).lt
        rw [sockets_add hp hs.numbers hrep.numbers]
        simp only [Sockets.step, hnone, Option.isSome_none, Bool.false_eq_true, if_false, if_true]
  · refine ⟨mem, af + type + protocol, ?_, ?_, ?_, rfl⟩
    · simp only [FakeSocket.fsocketInit, hget, Option.bind_eq_bind, Option.bind_some]
    · simp only [Sockets.step, hsome, Option.isSome_some, if_true]
    · simpa only [Sockets.step, hsome, Option.isSome_some, if_true] using h

/-- The element and all its messages are freed. -/
theorem Refines.fsocketClose (h : Refines mem t) (sk : Int32) :
    ∃ mem', fsocketClose mem sk = some mem' ∧ Refines mem' (t.set sk none) := by
  rcases h.find sk with ⟨hget, hnone⟩ | ⟨s, e, hs, rfl, hget, he, rfl, -⟩
  · refine ⟨mem, ?_, ?_⟩
    · simp only [FakeSocket.fsocketClose, hget, Option.bind_eq_bind, Option.bind_some]
    · rwa [Sockets.set, Function.update_eq_self_iff.mpr hnone.symm]
  · obtain ⟨mem₁, h₁, hs₁, -⟩ := hs.closeQueue (d := .tx) he
    obtain ⟨mem₂, h₂, hs₂, -⟩ := hs₁.closeQueue (d := .rx) he
    have hempty : ∀ d, ((s.setQueue .tx e []).setQueue .rx e []).queue d e = [] := by
      intro d
      cases d with
      | tx =>
        rw [setQueue_ne _ _ (fun h => absurd h.1 (by rintro ⟨⟩)), setQueue_same]
      | rx => exact setQueue_same _ _ _ _
    obtain ⟨mem₃, mem₄, h₃, h₄, hs₄, -⟩ := hs₂.freeElement he hempty
    refine ⟨mem₄, ?_, _, hs₄, ?_⟩
    · simp only [FakeSocket.fsocketClose, hget, Option.bind_eq_bind, Option.bind_some, h₁, h₂, h₃,
        h₄]
    · rw [sockets_erase hs₂.nodup_elems hs₂.numbers he, sockets_setQueue hs₁.numbers he,
        sockets_setQueue hs.numbers he]
      simp only [Sockets.set]
      exact (Function.update_idem _ _ _).trans (Function.update_idem _ _ _)

theorem Refines.step {call : Call} (h : Refines mem t) (hpre : call.Pre) :
    ∃ mem', FakeSocket.step mem call = some (mem', (t.step call).2) ∧
      Refines mem' (t.step call).1 := by
  cases call with
  | fsocketInit af type protocol ok =>
    obtain ⟨mem', sk, hrun, hres, href, -⟩ := h.fsocketInit af type protocol ok
    exact ⟨mem', by rw [FakeSocket.step, hrun, hres]; rfl, href⟩
  | fsocketSend sk buf type msgOk bufOk =>
    obtain ⟨mem', hrun, href, -⟩ := h.fsocketSend sk hpre type msgOk bufOk
    exact ⟨mem', by rw [FakeSocket.step, hrun]; rfl, href⟩
  | fsocketRecv sk len =>
    obtain ⟨mem', hrun, href, -⟩ := h.skRecv .rx sk hpre
    exact ⟨mem', by rw [FakeSocket.step, fsocketRecv, hrun]; rfl, href⟩
  | keSkSend sk buf msgOk bufOk =>
    obtain ⟨mem', hrun, href⟩ := h.keSkSend sk hpre msgOk bufOk
    exact ⟨mem', by rw [FakeSocket.step, hrun]; rfl, href⟩
  | keSkRecv sk len =>
    obtain ⟨mem', hrun, href, -⟩ := h.skRecv .tx sk hpre
    exact ⟨mem', by rw [FakeSocket.step, FakeSocket.keSkRecv, hrun]; rfl, href⟩
  | keSkRecvPeek sk =>
    exact ⟨mem, by rw [FakeSocket.step, keSkRecvPeekNextPayloadSize, h.skPeek]; rfl, h⟩
  | keSkSendPeek sk =>
    exact ⟨mem, by rw [FakeSocket.step, keSkSendPeekNextPayloadSize, h.skPeek]; rfl, h⟩
  | fsocketPeekRecv sk =>
    exact ⟨mem, by rw [FakeSocket.step, fsocketPeekRecvNextPayloadSize, h.skPeek]; rfl, h⟩
  | fsocketClose sk =>
    obtain ⟨mem', hrun, href⟩ := h.fsocketClose sk
    exact ⟨mem', by rw [FakeSocket.step, hrun]; rfl, href⟩

/-- Every run of calls returns with the results of the calls on pairs of queues; the memory then
holds these queues and no other block, and no block was freed twice or used after its free. -/
theorem run_refines {calls : List Call}
    (hpre : Machine.Legal FakeSocket.step (fun _ call => call.Pre) Memory.init calls) :
    ∃ mem t results, Machine.run FakeSocket.step Memory.init calls = some (mem, results) ∧
      Machine.run (fun t call => some (Sockets.step t call)) (fun _ => none) calls =
        some (t, results) ∧
      Refines mem t :=
  Machine.run_simulates (fun _ _ _ href hpre => href.step hpre) refines_init hpre

/-- Two messages, one received in part, one closed with its socket; a send without memory. -/
def sendCalls : List Call :=
  [.fsocketInit 17 3 8 true, .fsocketSend 28 [1, 2, 3] 7 true true,
    .fsocketSend 28 [4] 8 true false, .fsocketSend 28 [5, 6] 9 true true, .keSkRecvPeek 28,
    .keSkRecv 28 2, .keSkSend 28 [7] true true, .fsocketClose 28, .fsocketRecv 28 1]

theorem run_refines_sendCalls : ∃ mem t results,
    Machine.run FakeSocket.step Memory.init sendCalls = some (mem, results) ∧
      Machine.run (fun t call => some (Sockets.step t call)) (fun _ => none) sendCalls =
        some (t, results) ∧
      Refines mem t :=
  run_refines (by decide +kernel)

end TuyaSdk.FakeSocket
