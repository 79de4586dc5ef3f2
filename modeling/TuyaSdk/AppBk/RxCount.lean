import TuyaSdk.Lib.Machine

/-!
# The count of receive notifications

`bmsg_rx_sender`, `bmsg_rx_handler` and the loop of `core_thread_main` of `app/app_bk.c`. A sender
counts its message in one critical section and pushes it afterwards; the core thread pops it and
counts it down in another. `pushing` are the messages that were counted and not yet pushed.

A push that finds the queue full does not count its message down again (`rx_count_iff`): after
two of them no receive notification is sent any more.
-/

namespace TuyaSdk.AppBk

open TuyaSdk.Lib

inductive BmsgType where
  | null
  | rx
  | tx
  | ioctl
  | sktTx
  | media
  | txing
  | staPs
  | txRaw
  | txRawCb
  | txBcn
  deriving DecidableEq

/-- The type and the argument of a `BUS_MSG_T`. -/
structure BusMsg where
  type : BmsgType
  arg : UInt32
  deriving DecidableEq

def BusMsg.isRx (msg : BusMsg) : Bool := msg.type == .rx

def coreQitemCount : Nat := 64

structure State where
  bmsgRxCount : Int
  pushing : List BusMsg
  ioQueue : List BusMsg
  /-- the message that the core thread has popped and not yet handled -/
  popped : Option BusMsg
  deriving DecidableEq

def State.init : State := ⟨0, [], [], none⟩

/-- `rtos_push_to_queue` with `BEKEN_NO_WAIT`. -/
def rtosPushToQueue (msg : BusMsg) (s : State) : State :=
  if s.ioQueue.length < coreQitemCount then { s with ioQueue := s.ioQueue ++ [msg] } else s

/-- The critical section of `bmsg_rx_sender`. -/
def bmsgRxSender (arg : UInt32) (s : State) : State :=
  if s.bmsgRxCount ≥ 2 then s
  else { s with bmsgRxCount := s.bmsgRxCount + 1, pushing := s.pushing ++ [⟨.rx, arg⟩] }

/-- The critical section of `bmsg_rx_handler`. -/
def bmsgRxHandler (s : State) : State :=
  { s with bmsgRxCount := if s.bmsgRxCount > 0 then s.bmsgRxCount - 1 else s.bmsgRxCount }

inductive Action where
  /-- a call of `bmsg_rx_sender`, up to the end of its critical section -/
  | rxSender (arg : UInt32)
  /-- the push of the sender whose message is the `i`th of `pushing` -/
  | rxPush (i : Nat)
  /-- the push of a sender of other messages -/
  | push (type : BmsgType) (arg : UInt32)
  | pop
  | handle
  deriving DecidableEq

/-- One step of a sender or of the core thread. -/
def step : Machine State Action Unit := fun s action =>
  some
    (match action with
      | .rxSender arg => bmsgRxSender arg s
      | .rxPush i =>
        match s.pushing[i]? with
        | none => s
        | some msg => rtosPushToQueue msg { s with pushing := s.pushing.eraseIdx i }
      | .push type arg => if type = .rx then s else rtosPushToQueue ⟨type, arg⟩ s
      | .pop =>
        match s.popped, s.ioQueue with
        | none, msg :: rest => { s with ioQueue := rest, popped := some msg }
        | _, _ => s
      | .handle =>
        match s.popped with
        | none => s
        | some msg =>
          if msg.isRx then bmsgRxHandler { s with popped := none } else { s with popped := none },
      ())

/-- The receive notifications that were counted and not yet counted down: about to be pushed, in
the queue, or popped. -/
def State.outstanding (s : State) : Nat :=
  s.pushing.length + s.ioQueue.countP BusMsg.isRx + s.popped.toList.countP BusMsg.isRx

/-- The count is that of the outstanding notifications, so there are at most two, and when there
is none the next sender goes on to its push. -/
structure Counted (s : State) : Prop where
  rx : ∀ msg ∈ s.pushing, msg.isRx = true
  count : s.bmsgRxCount = s.outstanding
  bound : 0 ≤ s.bmsgRxCount ∧ s.bmsgRxCount ≤ 2
  attempts : s.outstanding = 0 → ∀ arg, (bmsgRxSender arg s).pushing = s.pushing ++ [⟨.rx, arg⟩]

/-- The step is not the push of a receive notification into a full queue. -/
def Room (s : State) : Action → Prop
  | .rxPush i => i < s.pushing.length → s.ioQueue.length < coreQitemCount
  | _ => True

instance (s : State) : (action : Action) → Decidable (Room s action)
  | .rxPush i => inferInstanceAs (Decidable (i < s.pushing.length → _ < coreQitemCount))
  | .rxSender _ | .push _ _ | .pop | .handle => inferInstanceAs (Decidable True)

/-- The count and its upper bound give the rest. -/
theorem Counted.of_count {s : State} (hrx : ∀ msg ∈ s.pushing, msg.isRx = true)
    (hcount : s.bmsgRxCount = s.outstanding) (hle : s.bmsgRxCount ≤ 2) : Counted s := by
  refine ⟨hrx, hcount, ⟨by omega, hle⟩, fun h arg => ?_⟩
  rw [bmsgRxSender, if_neg (by omega)]

theorem rtosPushToQueue_full {msg : BusMsg} {s : State} (h : ¬s.ioQueue.length < coreQitemCount) :
    rtosPushToQueue msg s = s := if_neg h

theorem rtosPushToQueue_room {msg : BusMsg} {s : State} (h : s.ioQueue.length < coreQitemCount) :
    rtosPushToQueue msg s = { s with ioQueue := s.ioQueue ++ [msg] } := if_pos h

theorem outstanding_append (s : State) (msg : BusMsg) :
    ({ s with ioQueue := s.ioQueue ++ [msg] } : State).outstanding =
      s.outstanding + [msg].countP BusMsg.isRx := by
  simp only [State.outstanding, List.countP_append]
  omega

/-- The sender's critical section counts the message it is going to push. -/
theorem Counted.rxSender {s : State} (h : Counted s) (arg : UInt32) :
    Counted (bmsgRxSender arg s) := by
  unfold bmsgRxSender
  split
  · exact h
  · rename_i hlt
    have hcount := h.count
    refine .of_count ?_ ?_ ?_
    · intro msg hmsg
      rcases List.mem_append.mp hmsg with hmsg | hmsg
      · exact h.rx msg hmsg
      · rw [List.mem_singleton.mp hmsg]
        rfl
    · simp only [State.outstanding, List.length_append, List.length_singleton] at hcount ⊢
      omega
    · simp only
      omega

/-- A push keeps the count exactly when there is room. -/
theorem Counted.rxPush_iff {s : State} (h : Counted s) {i : Nat} {msg : BusMsg}
    (hi : s.pushing[i]? = some msg) :
    Counted (rtosPushToQueue msg { s with pushing := s.pushing.eraseIdx i }) ↔
      s.ioQueue.length < coreQitemCount := by
  have hlt : i < s.pushing.length := (List.getElem?_eq_some_iff.mp hi).1
  have hlen := List.length_eraseIdx_of_lt hlt
  have hcount := h.count
  have hle := h.bound.2
  have hrx : ∀ msg ∈ s.pushing.eraseIdx i, msg.isRx = true :=
    fun msg hmsg => h.rx msg (List.mem_of_mem_eraseIdx hmsg)
  by_cases hroom : s.ioQueue.length < coreQitemCount
  · have hone : [msg].countP BusMsg.isRx = 1 := by
      rw [List.countP_singleton, if_pos (h.rx msg (List.mem_of_getElem? hi))]
    have hpush : rtosPushToQueue msg { s with pushing := s.pushing.eraseIdx i } =
        { s with pushing := s.pushing.eraseIdx i, ioQueue := s.ioQueue ++ [msg] } :=
      rtosPushToQueue_room hroom
    rw [hpush]
    refine iff_of_true (.of_count hrx ?_ hle) hroom
    simp only [State.outstanding, hlen, List.countP_append, hone] at hcount ⊢
    omega
  · have hpush : rtosPushToQueue msg { s with pushing := s.pushing.eraseIdx i } =
        { s with pushing := s.pushing.eraseIdx i } := rtosPushToQueue_full hroom
    rw [hpush]
    refine iff_of_false (fun hbad => ?_) hroom
    have hbad := hbad.count
    simp only [State.outstanding, hlen] at hcount hbad
    omega

theorem Counted.push {s : State} (h : Counted s) {msg : BusMsg} (hmsg : msg.isRx = false) :
    Counted (rtosPushToQueue msg s) := by
  by_cases hroom : s.ioQueue.length < coreQitemCount
  · have hzero : [msg].countP BusMsg.isRx = 0 := by
      rw [List.countP_singleton, hmsg]
      rfl
    rw [rtosPushToQueue_room hroom]
    refine .of_count h.rx ?_ h.bound.2
    rw [outstanding_append, hzero]
    exact h.count
  · rw [rtosPushToQueue_full hroom]
    exact h

theorem Counted.pop {s : State} (h : Counted s) {msg : BusMsg} {rest : List BusMsg}
    (hp : s.popped = none) (hq : s.ioQueue = msg :: rest) :
    Counted { s with ioQueue := rest, popped := some msg } := by
  refine .of_count h.rx ?_ h.bound.2
  have hcount := h.count
  simp only [State.outstanding, hp, hq, Option.toList_none, List.countP_nil, List.countP_cons,
    Option.toList_some] at hcount ⊢
  omega

/-- The handler counts down the message that was popped. -/
theorem Counted.handle {s : State} (h : Counted s) {msg : BusMsg} (hp : s.popped = some msg) :
    Counted (if msg.isRx then bmsgRxHandler { s with popped := none }
      else { s with popped := none }) := by
  have hcount := h.count
  have hle := h.bound.2
  simp only [State.outstanding, hp, Option.toList_some, List.countP_singleton] at hcount
  split
  · rename_i hrx
    rw [if_pos hrx] at hcount
    have hpos : s.bmsgRxCount > 0 := by omega
    refine .of_count h.rx ?_ ?_
    · simp only [bmsgRxHandler, if_pos hpos, State.outstanding, Option.toList_none, List.countP_nil]
      omega
    · simp only [bmsgRxHandler, if_pos hpos]
      omega
  · rename_i hrx
    rw [if_neg hrx] at hcount
    refine .of_count h.rx ?_ hle
    simp only [State.outstanding, Option.toList_none, List.countP_nil]
    omega

theorem step_counted_iff {s : State} (h : Counted s) (action : Action) :
    ∃ s' o, step s action = some (s', o) ∧ (Counted s' ↔ Room s action) := by
  refine ⟨_, (), rfl, ?_⟩
  cases action with
  | rxSender arg => exact iff_of_true (h.rxSender arg) trivial
  | rxPush i =>
    cases hi : s.pushing[i]? with
    | none =>
      have hlen : s.pushing.length ≤ i := List.getElem?_eq_none_iff.mp hi
      simp only [hi, Room]
      exact iff_of_true h fun hlt => absurd hlt (Nat.not_lt.mpr hlen)
    | some msg =>
      have hlt : i < s.pushing.length := (List.getElem?_eq_some_iff.mp hi).1
      simp only [hi, Room]
      rw [h.rxPush_iff hi]
      exact ⟨fun hroom _ => hroom, fun hroom => hroom hlt⟩
  | push type arg =>
    refine iff_of_true ?_ trivial
    simp only
    split
    · exact h
    · rename_i htype
      exact h.push (by simpa [BusMsg.isRx] using htype)
  | pop =>
    refine iff_of_true ?_ trivial
    simp only
    split
    · rename_i hp hq
      exact h.pop hp hq
    · exact h
  | handle =>
    refine iff_of_true ?_ trivial
    simp only
    split
    · exact h
    · rename_i msg hp
      exact h.handle hp

theorem counted_init : Counted State.init := .of_count nofun rfl (by decide)

/-- In every state of a run the count is right exactly when no receive notification of the run
is pushed into a full queue. -/
theorem rx_count_iff (actions : List Action) :
    (∀ n s os, Machine.run step State.init (actions.take n) = some (s, os) → Counted s) ↔
      Machine.Legal step Room State.init actions :=
  Machine.always_iff_legal (fun _ action hs => step_counted_iff hs action) counted_init

/-- Another sender has filled the queue when two receive notifications are pushed. -/
def fullQueueRun : List Action :=
  List.replicate coreQitemCount (Action.push .tx 0) ++
    [Action.rxSender 0, Action.rxPush 0, Action.rxSender 0, Action.rxPush 0]

/-- Nothing is outstanding after it, and no receive notification is sent any more. -/
theorem not_forall_counted :
    ¬∀ (actions : List Action) (n : Nat) (s : State) (os : List Unit),
      Machine.run step State.init (actions.take n) = some (s, os) → Counted s := by
  intro h
  have hfinal : ((Machine.run step State.init (fullQueueRun.take fullQueueRun.length)).any fun r =>
      decide (r.1.bmsgRxCount = 2 ∧ r.1.outstanding = 0)) = true := by decide +kernel
  obtain ⟨⟨s, os⟩, hrun, hs⟩ := (Option.any_eq_true _ _).mp hfinal
  obtain ⟨hcount, hout⟩ := of_decide_eq_true hs
  have hbad := (h fullQueueRun _ s os hrun).count
  rw [hcount, hout] at hbad
  cases hbad

end TuyaSdk.AppBk
