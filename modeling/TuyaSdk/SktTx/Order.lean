import TuyaSdk.SktTx.Defs

/-!
# Frames are handed over in order

As long as every frame finds its blocks and every record its place in `io_queue`, the payloads
in the queue of a socket are those of the records on their way, in their order (`OnTheWay`). A
record that is lost, or a payload that is left behind, shifts all later pairs.
-/

namespace TuyaSdk.SktTx

open TuyaSdk.Lib TuyaSdk.FakeSocket

variable {s : State} {events : List Event} {t : Sockets} {sk : Int32}

/-! ## The queues to the MAC -/

/-- The payloads in the `tx` queue of a socket. -/
def txQueue (t : Sockets) (sk : Int32) : List (List UInt8) :=
  match t sk with
  | some q => q .tx
  | none => []

theorem peek_eq (t : Sockets) (sk : Int32) :
    t.peek .tx sk = ((txQueue t sk).head?.map List.length).getD 0 := by
  rw [Sockets.peek, txQueue]
  cases t sk <;> rfl

theorem txQueue_set (t : Sockets) (sk sk' : Int32) (q : Queues) :
    txQueue (t.set sk (some q)) sk' = if sk' = sk then q .tx else txQueue t sk' := by
  by_cases h : sk' = sk
  · rw [if_pos h, txQueue, Sockets.set, h, Function.update_self]
  · rw [if_neg h, txQueue, Sockets.set, Function.update_of_ne h]
    rfl

theorem txQueue_init (t : Sockets) (af type protocol : Int32) (ok : Bool) (sk : Int32) :
    txQueue (t.step (.fsocketInit af type protocol ok)).1 sk = txQueue t sk := by
  simp only [Sockets.step]
  cases hsk : t (af + type + protocol) with
  | some q => rfl
  | none =>
    cases ok with
    | false => rfl
    | true =>
      simp only [Option.isSome_none, Bool.false_eq_true, if_false, if_true]
      rw [txQueue_set]
      split
      · rename_i heq
        rw [txQueue, heq, hsk]
      · rfl

theorem txQueue_send {buf : List UInt8} (hsk : (t sk).isSome) (sk' : Int32) :
    txQueue (t.send .tx sk buf true).1 sk' =
      if sk' = sk then txQueue t sk ++ [buf] else txQueue t sk' := by
  obtain ⟨q, hq⟩ := Option.isSome_iff_exists.mp hsk
  have hqueue : txQueue t sk = q .tx := by rw [txQueue, hq]
  simp only [Sockets.send, hq, if_true, txQueue_set, Function.update_self, hqueue]

theorem txQueue_recv {b : List UInt8} {rest : List (List UInt8)} (hq : txQueue t sk = b :: rest)
    (len : Nat) :
    (t.recv .tx sk len).2 = b.take (min b.length len) ∧
      ∀ sk', txQueue (t.recv .tx sk len).1 sk' = if sk' = sk then rest else txQueue t sk' := by
  cases hsk : t sk with
  | none =>
    rw [txQueue, hsk] at hq
    cases hq
  | some q =>
    rw [txQueue, hsk] at hq
    simp only [Sockets.recv, hsk, hq, txQueue_set, Function.update_self, implies_true, and_self]

/-! ## Events -/

theorem sentFrames_concat (events : List Event) (e : Event) :
    sentFrames (events ++ [e]) = sentFrames events ++ sentFrames [e] :=
  List.filterMap_append

theorem queuedRecords_concat (events : List Event) (e : Event) :
    queuedRecords (events ++ [e]) = queuedRecords events ++ queuedRecords [e] :=
  List.filterMap_append

theorem handedFrames_concat (events : List Event) (e : Event) :
    handedFrames (events ++ [e]) = handedFrames events ++ handedFrames [e] :=
  List.filterMap_append

/-! ## Frames on their way -/

/-- The payloads of the frames of a socket. -/
def payloads (frames : List Frame) (sk : Int32) : List (List UInt8) :=
  (frames.filter fun f => f.t.socketNum = sk).map Frame.buf

theorem payloads_append (l : List Frame) (f : Frame) (sk : Int32) :
    payloads (l ++ [f]) sk =
      if sk = f.t.socketNum then payloads l f.t.socketNum ++ [f.buf] else payloads l sk := by
  simp only [payloads, List.filter_append, List.map_append]
  by_cases h : sk = f.t.socketNum
  · subst h
    simp
  · simp [h, Ne.symm h]

theorem payloads_cons_self (f : Frame) (l : List Frame) :
    payloads (f :: l) f.t.socketNum = f.buf :: payloads l f.t.socketNum := by
  simp [payloads]

theorem payloads_cons_ne {f : Frame} (l : List Frame) (h : sk ≠ f.t.socketNum) :
    payloads (f :: l) sk = payloads l sk := by
  simp [payloads, Ne.symm h]

/-- The condition on a frame: bytes, whose number fits into the `len` of `ME_MGMT_TX_REQ` if it
is for that message. -/
def Fits (t : SType) (buf : List UInt8) : Prop :=
  buf ≠ [] ∧ (t.type = .data ∨ buf.length < 2 ^ 16)

instance (t : SType) (buf : List UInt8) : Decidable (Fits t buf) :=
  inferInstanceAs (Decidable (_ ∧ _))

/-- Of the frames that were sent, `done` have been handled and `rest` are on their way. -/
structure OnTheWay (s : State) (events : List Event) (t : Sockets) (done rest : List Frame) :
    Prop where
  refines : Refines s.mem t
  records : rest.map Frame.p = s.onTheWay
  nodup : (rest.map Frame.p).Nodup
  block : ∀ f ∈ rest, s.types.block f.p = some f.t ∧ Fits f.t f.buf
  live : ∀ p, s.types.Live p → p ∈ s.onTheWay
  queue : ∀ sk, txQueue t sk = payloads rest sk
  size : ∀ p size, s.core = some (p, size) → ∀ f ∈ rest.head?, size = f.buf.length
  sent : sentFrames events = done ++ rest
  queued : ∀ f ∈ done, f.p ∈ queuedRecords events
  inQueue : ∀ p ∈ (s.core.map Prod.fst).toList ++ s.ioQueue, p ∈ queuedRecords events
  handed : (handedFrames events).Sublist (done.map Frame.handed)

/-- The condition under which frames are handed over: the socket exists, every allocation but
that of the message to the MAC succeeds, and so does every push. -/
def Served (s : State) : Input → Prop
  | .fsocketSend t buf msgOk bufOk =>
    Fits t buf ∧ msgOk = true ∧ bufOk = true ∧ skGetSkElement s.mem t.socketNum ≠ some none
  | .pushToQueue ok => ok = true
  | .keRxHandle bufOk _ => bufOk = true
  | _ => True

instance (s : State) : (input : Input) → Decidable (Served s input)
  | .fsocketSend t buf msgOk bufOk =>
    inferInstanceAs (Decidable (Fits t buf ∧ msgOk = true ∧ bufOk = true ∧
      skGetSkElement s.mem t.socketNum ≠ some none))
  | .pushToQueue ok => inferInstanceAs (Decidable (ok = true))
  | .keRxHandle bufOk _ => inferInstanceAs (Decidable (bufOk = true))
  | .fsocketInit _ _ _ _ | .popFromQueue => inferInstanceAs (Decidable True)

namespace OnTheWay

variable {done rest : List Frame}

theorem init : OnTheWay State.init [] (fun _ => none) [] [] where
  refines := refines_init
  records := rfl
  nodup := List.nodup_nil
  block := nofun
  live p hp := absurd hp (Heap.not_live_empty p)
  queue _ := rfl
  size := nofun
  sent := rfl
  queued := nofun
  inQueue := nofun
  handed := List.Sublist.refl _

/-- An event that says nothing of frames. -/
theorem silent {e : Event} (h : OnTheWay s events t done rest) (hs : sentFrames [e] = [])
    (hq : queuedRecords [e] = []) (hh : handedFrames [e] = []) :
    OnTheWay s (events ++ [e]) t done rest where
  refines := h.refines
  records := h.records
  nodup := h.nodup
  block := h.block
  live := h.live
  queue := h.queue
  size := h.size
  sent := by rw [sentFrames_concat, hs, List.append_nil, h.sent]
  queued f hf := by rw [queuedRecords_concat, hq, List.append_nil]; exact h.queued f hf
  inQueue p hp := by rw [queuedRecords_concat, hq, List.append_nil]; exact h.inQueue p hp
  handed := by rw [handedFrames_concat, hh, List.append_nil]; exact h.handed

theorem blocked (h : OnTheWay s events t done rest) :
    OnTheWay s (events ++ [.blocked]) t done rest :=
  h.silent rfl rfl rfl

theorem handedInOrder (h : OnTheWay s events t done rest) : HandedInOrder events := by
  intro sk
  have hsock : ∀ f : Frame, f.handed.socketNum = f.t.socketNum := by
    intro f
    rw [Frame.handed, SType.socketNum]
    cases f.t.type <;> rfl
  have hdone : (done.filter fun f => f.p ∈ queuedRecords events ∧ f.t.socketNum = sk) =
      done.filter fun f => f.t.socketNum = sk := by
    refine List.filter_congr fun f hf => ?_
    simp only [h.queued f hf, true_and]
  have hfilter := h.handed.filter fun h => h.socketNum = sk
  have hmap : ((done.map Frame.handed).filter fun h => h.socketNum = sk) =
      (done.filter fun f => f.t.socketNum = sk).map Frame.handed := by
    rw [List.filter_map]
    refine congrArg (List.map Frame.handed) (List.filter_congr fun f _ => ?_)
    simp only [Function.comp, hsock]
  rw [hmap, ← hdone] at hfilter
  refine hfilter.trans (List.Sublist.map _ ?_)
  rw [h.sent, List.filter_append]
  exact List.sublist_append_left _ _

theorem recordsFreed (h : OnTheWay s events t done rest) : RecordsFreed s := by
  intro p
  refine ⟨h.live p, fun hp => ?_⟩
  rw [← h.records] at hp
  obtain ⟨f, hf, rfl⟩ := List.mem_map.mp hp
  exact Heap.live_iff.mpr ⟨f.t, (h.block f hf).1⟩

end OnTheWay

end TuyaSdk.SktTx
