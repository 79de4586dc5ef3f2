import TuyaSdk.SktTx.Order

/-!
# Steps of the hand-over

One lemma for each step of `fsocket_send`, of `bmsg_skt_tx_sender` and of the core thread, and
from them what every run does.
-/

namespace TuyaSdk.SktTx

open TuyaSdk.Lib TuyaSdk.FakeSocket

variable {s : State} {events : List Event} {t : Sockets} {done rest : List Frame}

theorem mem_queuedRecords_concat {p : Nat} (e : Event) (h : p ∈ queuedRecords events) :
    p ∈ queuedRecords (events ++ [e]) := by
  rw [queuedRecords_concat]
  exact List.mem_append_left _ h

theorem refines_notified {mem : Memory} (h : Refines mem t) (notified : List Nat) :
    Refines { mem with notified := notified } t := by
  obtain ⟨shape, hrep, hsockets⟩ := h
  exact ⟨shape, hrep.same_blocks (fun _ => rfl) rfl, hsockets⟩

/-- The handler hands a frame over as it should, or drops it for want of a message. -/
theorem keRxFrame_eq {mem mem' : Memory} {f : Frame} (hfits : Fits f.t f.buf)
    (hrecv : keSkRecv mem f.t.socketNum f.buf.length = some (mem', f.buf)) (kmsgOk : Bool) :
    ∃ handed, keRxFrame mem f.t f.buf.length true kmsgOk = some (mem', handed) ∧
      (handed = none ∨ handed = some f.handed) := by
  simp only [keRxFrame, if_true, hrecv, Option.bind_eq_bind, Option.bind_some, Frame.handed]
  have hmgmt : f.t.type ≠ .data → f.buf.length % 2 ^ 16 = f.buf.length := fun hne =>
    Nat.mod_eq_of_lt (hfits.2.resolve_left hne)
  cases hty : f.t.type with
  | data => exact ⟨_, rfl, Or.inr rfl⟩
  | mgmt =>
    rw [hmgmt (by rw [hty]; rintro ⟨⟩)]
    cases kmsgOk
    · exact ⟨none, rfl, Or.inl rfl⟩
    · exact ⟨_, rfl, Or.inr rfl⟩
  | mgmtRobust =>
    rw [hmgmt (by rw [hty]; rintro ⟨⟩)]
    cases kmsgOk
    · exact ⟨none, rfl, Or.inl rfl⟩
    · exact ⟨_, rfl, Or.inr rfl⟩

namespace OnTheWay

theorem fsocketInit (h : OnTheWay s events t done rest) (af type protocol : Int32) (ok : Bool) :
    ∃ s' e t', step s (.fsocketInit af type protocol ok) = some (s', e) ∧
      OnTheWay s' (events ++ [e]) t' done rest := by
  obtain ⟨mem', sk, hrun, -, href, hnot⟩ := h.refines.fsocketInit af type protocol ok
  let s' : State := { s with mem := mem' }
  have hway : s'.onTheWay = s.onTheWay := by
    simp only [s', State.onTheWay, hnot]
  have h' : OnTheWay s' events (t.step (.fsocketInit af type protocol ok)).1 done rest :=
    { h with
      refines := href
      records := h.records.trans hway.symm
      live := fun p hp => hway.symm ▸ h.live p hp
      queue := fun sk => (txQueue_init t af type protocol ok sk).trans (h.queue sk) }
  exact ⟨s', .socket sk, _, by rw [step, hrun]; rfl, h'.silent rfl rfl rfl⟩

/-- A frame is put into the queue of its socket. -/
theorem fsocketSend (h : OnTheWay s events t done rest) {ty : SType} {buf : List UInt8}
    (hfits : Fits ty buf) (hsk : skGetSkElement s.mem ty.socketNum ≠ some none) :
    ∃ s' e t' rest', step s (.fsocketSend ty buf true true) = some (s', e) ∧
      OnTheWay s' (events ++ [e]) t' done rest' := by
  by_cases hnot : s.mem.notified = []
  · have hsome : (t ty.socketNum).isSome := by
      rcases h.refines.find ty.socketNum with ⟨hget, -⟩ | ⟨_, _, _, _, _, _, _, hsome⟩
      · exact absurd hget hsk
      · rw [hsome]
        rfl
    obtain ⟨q, hq⟩ := Option.isSome_iff_exists.mp hsome
    obtain ⟨mem', hrun, href, hnot'⟩ :=
      h.refines.fsocketSend ty.socketNum hfits.1 s.types.next true true
    have hret : (t.send .tx ty.socketNum buf (true && true)).2 = buf.length := by
      simp only [Sockets.send, hq, Bool.and_self, if_true]
    have hlen : buf.length ≠ 0 := fun hzero => hfits.1 (List.eq_nil_of_length_eq_zero hzero)
    rw [hret, if_neg hlen, hnot, List.nil_append] at hnot'
    rw [hret] at hrun
    let f : Frame := ⟨s.types.next, ty, buf⟩
    let s' : State := { s with mem := mem', types := s.types.malloc ty }
    have hway : s'.onTheWay = s.onTheWay ++ [f.p] := by
      simp only [s', State.onTheWay, hnot, hnot', List.append_nil]
      rfl
    have hfresh : f.p ∉ rest.map Frame.p := by
      intro hmem
      obtain ⟨g, hg, hgp⟩ := List.mem_map.mp hmem
      have hlive : s.types.Live g.p := Heap.live_iff.mpr ⟨g.t, (h.block g hg).1⟩
      exact Nat.lt_irrefl _ (hgp ▸ hlive.lt)
    refine ⟨s', .sent s.types.next ty buf buf.length,
      (t.send .tx ty.socketNum buf (true && true)).1, rest ++ [f], ?_, ?_⟩
    · simp only [step, if_pos hnot, hrun, Option.map_some, s']
    · exact
        { refines := href
          records := by rw [hway, List.map_append, h.records]; rfl
          nodup := by
            have hnd := h.nodup.concat hfresh
            rw [List.concat_eq_append] at hnd
            rw [List.map_append]
            exact hnd
          block := by
            intro g hg
            rcases List.mem_append.mp hg with hg | hg
            · obtain ⟨hb, hgfits⟩ := h.block g hg
              exact ⟨(Heap.block_malloc_live (Heap.live_iff.mpr ⟨_, hb⟩)).trans hb, hgfits⟩
            · rw [List.mem_singleton.mp hg]
              exact ⟨Heap.block_malloc_same, hfits⟩
          live := by
            intro p hp
            rw [hway]
            rcases Heap.live_malloc.mp hp with rfl | hp
            · exact List.mem_append_right _ (List.mem_singleton_self _)
            · exact List.mem_append_left _ (h.live p hp)
          queue := by
            intro sk
            rw [payloads_append, Bool.and_self, txQueue_send hsome, h.queue, h.queue]
          size := by
            intro p size hcore g hg
            cases rest with
            | nil =>
              have hrec := h.records
              have hcore' : s.core = some (p, size) := hcore
              rw [State.onTheWay, hcore'] at hrec
              cases hrec
            | cons g' rest => exact h.size p size hcore g hg
          sent := by
            rw [sentFrames_concat, h.sent, List.append_assoc]
            simp only [sentFrames, List.filterMap_cons, if_true, List.filterMap_nil]
            rfl
          queued := fun g hg => mem_queuedRecords_concat _ (h.queued g hg)
          inQueue := fun p hp => mem_queuedRecords_concat _ (h.inQueue p hp)
          handed := by rw [handedFrames_concat]; exact (List.append_nil _).symm ▸ h.handed }
  · exact ⟨s, .blocked, t, rest, by rw [step, if_neg hnot], h.blocked⟩

/-- A record is queued. -/
theorem pushToQueue (h : OnTheWay s events t done rest) :
    ∃ s' e, step s (.pushToQueue true) = some (s', e) ∧
      OnTheWay s' (events ++ [e]) t done rest := by
  cases hnot : s.mem.notified with
  | nil => exact ⟨s, .blocked, by simp only [step, hnot], h.blocked⟩
  | cons p notified =>
    let s' : State :=
      { s with mem := { s.mem with notified := notified }, ioQueue := s.ioQueue ++ [p] }
    have hway : s'.onTheWay = s.onTheWay := by
      simp only [s', State.onTheWay, hnot, List.append_assoc, List.singleton_append]
    refine ⟨s', .pushed p true, by simp only [step, hnot, if_true]; rfl, ?_⟩
    exact
      { h with
        refines := refines_notified h.refines notified
        records := h.records.trans hway.symm
        live := fun q hq => hway.symm ▸ h.live q hq
        sent := by rw [sentFrames_concat, h.sent]; exact List.append_nil _
        queued := fun f hf => mem_queuedRecords_concat _ (h.queued f hf)
        inQueue := by
          intro q hq
          rw [← List.append_assoc] at hq
          rcases List.mem_append.mp hq with hq | hq
          · exact mem_queuedRecords_concat _ (h.inQueue q hq)
          · rw [List.mem_singleton.mp hq, queuedRecords_concat]
            exact List.mem_append_right _ (List.mem_singleton_self _)
        handed := by rw [handedFrames_concat]; exact (List.append_nil _).symm ▸ h.handed }

/-- The frame of the record that is handled next. -/
theorem head_queue {f : Frame} (h : OnTheWay s events t done (f :: rest)) :
    txQueue t f.t.socketNum = f.buf :: payloads rest f.t.socketNum := by
  rw [h.queue, payloads_cons_self]

/-- The core thread takes a record, and sees the size of its frame. -/
theorem popFromQueue (h : OnTheWay s events t done rest) :
    ∃ s' e, step s .popFromQueue = some (s', e) ∧ OnTheWay s' (events ++ [e]) t done rest := by
  cases hcore : s.core with
  | some c => exact ⟨s, .blocked, by simp only [step, hcore], h.blocked⟩
  | none =>
    cases hio : s.ioQueue with
    | nil => exact ⟨s, .blocked, by simp only [step, hcore, hio], h.blocked⟩
    | cons p ioQueue =>
      have hrec := h.records
      simp only [State.onTheWay, hcore, hio] at hrec
      cases hrest : rest with
      | nil =>
        rw [hrest] at hrec
        cases hrec
      | cons f rest' =>
        rw [hrest] at h hrec
        have hfp : f.p = p := (List.cons.inj hrec).1
        subst hfp
        obtain ⟨hb, hfits⟩ := h.block f List.mem_cons_self
        have hlen : f.buf.length ≠ 0 := fun hzero => hfits.1 (List.eq_nil_of_length_eq_zero hzero)
        have hpeek : keRxPeek s.mem f.t = some f.buf.length := by
          rw [keRxPeek, keSkRecvPeekNextPayloadSize, h.refines.skPeek, peek_eq, h.head_queue]
          cases hty : f.t.type <;>
            simp only [Option.bind_eq_bind, Option.bind_some, List.head?_cons, Option.map_some,
              Option.getD_some, if_neg hlen]
        let s' : State := { s with ioQueue := ioQueue, core := some (f.p, f.buf.length) }
        have hway : s'.onTheWay = s.onTheWay := by
          simp only [s', State.onTheWay, hcore, hio]
          rfl
        have h' : OnTheWay s' events t done (f :: rest') :=
          { h with
            records := h.records.trans hway.symm
            live := fun q hq => hway.symm ▸ h.live q hq
            size := by
              intro q size hq g hg
              cases hq
              cases hg
              rfl
            inQueue := by
              intro q hq
              refine h.inQueue q ?_
              rw [hcore, hio]
              exact hq }
        refine ⟨s', .popped f.p, ?_, h'.silent rfl rfl rfl⟩
        simp only [step, hcore, hio, Option.bind_eq_bind, hb, Option.bind_some, hpeek, s']

/-- The core thread hands the frame over, or drops it, and frees its record. -/
theorem keRxHandle (h : OnTheWay s events t done rest) (kmsgOk : Bool) :
    ∃ s' e t' done' rest', step s (.keRxHandle true kmsgOk) = some (s', e) ∧
      OnTheWay s' (events ++ [e]) t' done' rest' := by
  cases hcore : s.core with
  | none => exact ⟨s, .blocked, t, done, rest, by simp only [step, hcore], h.blocked⟩
  | some c =>
    obtain ⟨p, size⟩ := c
    have hrec := h.records
    simp only [State.onTheWay, hcore] at hrec
    cases hrest : rest with
    | nil =>
      rw [hrest] at hrec
      cases hrec
    | cons f rest' =>
      rw [hrest] at h hrec
      have hfp : f.p = p := (List.cons.inj hrec).1
      have hrec' := (List.cons.inj hrec).2
      subst hfp
      obtain ⟨hb, hfits⟩ := h.block f List.mem_cons_self
      have hsize : size = f.buf.length := h.size f.p size hcore f rfl
      subst hsize
      have hlen : f.buf.length ≠ 0 := fun hzero => hfits.1 (List.eq_nil_of_length_eq_zero hzero)
      obtain ⟨mem', hrecv, href, hnot⟩ := h.refines.skRecv .tx f.t.socketNum hlen
      obtain ⟨hbytes, hqueue⟩ := txQueue_recv h.head_queue f.buf.length
      rw [hbytes, Nat.min_self, List.take_length] at hrecv
      obtain ⟨handed, hframe, hhanded⟩ := keRxFrame_eq hfits hrecv kmsgOk
      obtain ⟨types, hfree⟩ :=
        Option.isSome_iff_exists.mp (Heap.free_isSome.mpr (Heap.live_iff.mpr ⟨_, hb⟩))
      let s' : State := { s with mem := mem', types := types, core := none }
      have hway : s'.onTheWay = rest'.map Frame.p := by
        simp only [s', State.onTheWay, hnot]
        exact hrec'.symm
      have hnd := List.nodup_cons.mp h.nodup
      refine ⟨s', .handled f.p handed, (t.recv .tx f.t.socketNum f.buf.length).1, done ++ [f], rest',
        ?_, ?_⟩
      · simp only [step, hcore, Option.bind_eq_bind]
        rw [hb, Option.bind_some, hframe, Option.bind_some, hfree]
        rfl
      · exact
          { refines := href
            records := hway.symm
            nodup := hnd.2
            block := by
              intro g hg
              obtain ⟨hgb, hgfits⟩ := h.block g (List.mem_cons_of_mem _ hg)
              have hne : g.p ≠ f.p := fun heq => hnd.1 (heq ▸ List.mem_map_of_mem hg)
              exact ⟨by rw [Heap.block_free hfree, if_neg hne, hgb], hgfits⟩
            live := by
              intro q hq
              obtain ⟨hne, hq⟩ := (Heap.live_free hfree).mp hq
              have hmem := h.live q hq
              rw [← h.records] at hmem
              rw [hway]
              exact (List.mem_cons.mp hmem).resolve_left hne
            queue := by
              intro sk
              rw [hqueue]
              by_cases hsk : sk = f.t.socketNum
              · rw [if_pos hsk, hsk]
              · rw [if_neg hsk, h.queue, payloads_cons_ne _ hsk]
            size := nofun
            sent := by
              have hnone : sentFrames [.handled f.p handed] = [] := rfl
              rw [sentFrames_concat, h.sent, hnone, List.append_nil, List.append_assoc]
              rfl
            queued := by
              intro g hg
              refine mem_queuedRecords_concat _ ?_
              rcases List.mem_append.mp hg with hg | hg
              · exact h.queued g hg
              · rw [List.mem_singleton.mp hg]
                refine h.inQueue f.p ?_
                rw [hcore]
                exact List.mem_cons_self
            inQueue := by
              intro q hq
              refine mem_queuedRecords_concat _ (h.inQueue q ?_)
              rw [hcore]
              exact List.mem_cons_of_mem _ hq
            handed := by
              rw [handedFrames_concat, List.map_append]
              refine h.handed.append ?_
              rcases hhanded with rfl | rfl
              · exact List.nil_sublist _
              · exact List.Sublist.refl _ }

theorem step (h : OnTheWay s events t done rest) {input : Input} (hserved : Served s input) :
    ∃ s' e, SktTx.step s input = some (s', e) ∧
      ∃ t' done' rest', OnTheWay s' (events ++ [e]) t' done' rest' := by
  cases input with
  | fsocketInit af type protocol ok =>
    obtain ⟨s', e, t', hstep, h'⟩ := h.fsocketInit af type protocol ok
    exact ⟨s', e, hstep, t', done, rest, h'⟩
  | fsocketSend ty buf msgOk bufOk =>
    obtain ⟨hfits, rfl, rfl, hsk⟩ := hserved
    obtain ⟨s', e, t', rest', hstep, h'⟩ := h.fsocketSend hfits hsk
    exact ⟨s', e, hstep, t', done, rest', h'⟩
  | pushToQueue ok =>
    have hok : ok = true := hserved
    subst hok
    obtain ⟨s', e, hstep, h'⟩ := h.pushToQueue
    exact ⟨s', e, hstep, t, done, rest, h'⟩
  | popFromQueue =>
    obtain ⟨s', e, hstep, h'⟩ := h.popFromQueue
    exact ⟨s', e, hstep, t, done, rest, h'⟩
  | keRxHandle bufOk kmsgOk =>
    have hok : bufOk = true := hserved
    subst hok
    obtain ⟨s', e, t', done', rest', hstep, h'⟩ := h.keRxHandle kmsgOk
    exact ⟨s', e, hstep, t', done', rest', h'⟩

end OnTheWay

/-! ## Runs -/

/-- In every order of steps in which each send finds its socket, its blocks and a place in
`io_queue`, and each handler its buffer: the MAC gets the frames in order, each at most once and
with its own record, and the records are freed once they are handled. -/
theorem frames_handed_over {inputs : List Input}
    (hserved : Machine.Legal SktTx.step Served State.init inputs) :
    ∃ s events, Machine.run SktTx.step State.init inputs = some (s, events) ∧
      HandedInOrder events ∧ RecordsFreed s := by
  obtain ⟨s, events, hrun, t, done, rest, h⟩ := Machine.run_total
    (I := fun s events => ∃ t done rest, OnTheWay s events t done rest)
    (fun _ _ _ ⟨_, _, _, h⟩ hserved => h.step hserved) ⟨_, [], [], OnTheWay.init⟩ hserved
  exact ⟨s, events, hrun, h.handedInOrder, h.recordsFreed⟩

/-- A management frame and a data frame, of which the first has no message to the MAC. -/
def servedInputs : List Input :=
  [.fsocketInit 17 3 3 true, .fsocketInit 17 3 0x888E true,
    .fsocketSend ⟨.mgmt, 0, 2412, 0, 0⟩ [1, 2] true true, .pushToQueue true, .popFromQueue,
    .fsocketSend ⟨.data, 0, 0, 5, 1⟩ [3] true true, .keRxHandle true false, .pushToQueue true,
    .popFromQueue, .keRxHandle true true]

theorem frames_handed_over_servedInputs :
    ∃ s events, Machine.run SktTx.step State.init servedInputs = some (s, events) ∧
      HandedInOrder events ∧ RecordsFreed s :=
  frames_handed_over (by decide +kernel)

/-! ## A lost record -/

/-- The record of the first frame is not queued: its payload is sent with the second record. -/
def lostInputs : List Input :=
  [.fsocketInit 17 3 3 true, .fsocketSend ⟨.mgmt, 0, 2412, 0, 0⟩ [1] true true,
    .pushToQueue false, .fsocketSend ⟨.mgmt, 0, 2437, 0, 0⟩ [2] true true, .pushToQueue true,
    .popFromQueue, .keRxHandle true true]

theorem not_forall_frames_handed_over :
    ¬∀ inputs : List Input, (∀ ty buf msgOk bufOk,
        .fsocketSend ty buf msgOk bufOk ∈ inputs → buf ≠ []) →
      ∃ s events, Machine.run SktTx.step State.init inputs = some (s, events) ∧
        HandedInOrder events ∧ RecordsFreed s := by
  intro h
  obtain ⟨s, events, hrun, horder, -⟩ := h lostInputs (by
    intro ty buf msgOk bufOk hmem
    simp only [lostInputs, List.mem_cons, reduceCtorEq, Input.fsocketSend.injEq, List.not_mem_nil,
      false_or, or_false] at hmem
    rcases hmem with ⟨-, rfl, -⟩ | ⟨-, rfl, -⟩ <;> exact nofun)
  have hevents : (Machine.run SktTx.step State.init lostInputs).any (fun r =>
      (handedFrames r.2).filter (fun h => h.socketNum = 23) =
          [.meMgmtTxReq [1] 1 false 0 2437] ∧
        ((sentFrames r.2).filter fun f =>
          f.p ∈ queuedRecords r.2 ∧ f.t.socketNum = 23) = [⟨1, ⟨.mgmt, 0, 2437, 0, 0⟩, [2]⟩]) =
      true := by decide +kernel
  rw [hrun] at hevents
  obtain ⟨hhanded, hsent⟩ := of_decide_eq_true hevents
  have hsub := horder 23
  rw [hhanded, hsent] at hsub
  exact absurd hsub (by decide)

end TuyaSdk.SktTx
