import TuyaSdk.Lib.Machine

/-!
# Requests to the MAC and their confirms

`rw_msg_send` of `func/rwnx_intf/rw_msg_tx.c`, with `mr_kmsg_fwd` and `rwnx_recv_msg` of
`rw_msg_rx.c`. Any number of calls of `rw_msg_send` run beside the MAC's thread, which forwards
messages, and the receiver, which matches them with the requests that are pending. Every
critical section, every step through a list, the copy into the confirm buffer and the semaphore
set are steps of their own.

A call is known by its number, and so is its request node, which it allocates at most once; a
message is known by the number of its forwarding. An access of a node that is not allocated is
`none`. The list functions of the `ip` library are not in the repository: `CoList` is what their
documentation says.
-/

namespace TuyaSdk.RwMsg

open TuyaSdk.Lib

/-! ## Lists -/

/-- The functions of `co_list.h` on the addresses in a list. The link of a node that is in no
list is not known. -/
structure CoList where
  pushBack : List Nat → Nat → List Nat
  popFront : List Nat → Option (Nat × List Nat)
  extract : List Nat → Nat → List Nat
  next : List Nat → Nat → Option Nat
  pushBack_eq : ∀ l t, pushBack l t = l ++ [t]
  popFront_nil : popFront [] = none
  popFront_cons : ∀ t l, popFront (t :: l) = some (t, l)
  extract_eq : ∀ l t, extract l t = l.erase t
  next_eq : ∀ l₁ t l₂, t ∉ l₁ → next (l₁ ++ t :: l₂) t = l₂.head?

def nextIn : List Nat → Nat → Option Nat
  | [], _ => none
  | u :: l, t => if u = t then l.head? else nextIn l t

theorem nextIn_append (l₁ : List Nat) (t : Nat) (l₂ : List Nat) (h : t ∉ l₁) :
    nextIn (l₁ ++ t :: l₂) t = l₂.head? := by
  induction l₁ with
  | nil => exact if_pos rfl
  | cons u l₁ ih =>
    rw [List.mem_cons, not_or] at h
    rw [List.cons_append, nextIn, if_neg (Ne.symm h.1)]
    exact ih h.2

/-- Lists whose nodes are unlinked when they are extracted. -/
def CoList.unlinked : CoList where
  pushBack l t := l ++ [t]
  popFront
    | [] => none
    | t :: l => some (t, l)
  extract l t := l.erase t
  next := nextIn
  pushBack_eq _ _ := rfl
  popFront_nil := rfl
  popFront_cons _ _ := rfl
  extract_eq _ _ := rfl
  next_eq := nextIn_append

/-! ## Calls and messages -/

/-- The arguments of a call of `rw_msg_send`; NULL is `0`. -/
structure SendArgs where
  msgParams : Nat
  reqid : UInt16
  cfm : Nat

/-- What the receiver reads of a `struct ke_msg`; `param_len` is the length of `param`. -/
structure KeMsg where
  id : UInt16
  param : List UInt8

/-- `MSG_SND_NODE_ST`, without its link; `semaphore` says that the semaphore is set. -/
structure MsgSndNode where
  msg : Nat
  reqid : UInt16
  cfm : Nat
  semaphore : Bool

/-- `offsetof(struct ke_msg, param)` on the 32-bit target. -/
def keMsgParamOffset : Nat := 12

/-- `ke_param2msg`. -/
def keParam2msg (paramPtr : Nat) : Nat := if paramPtr = 0 then 0 else paramPtr - keMsgParamOffset

/-- Where a call of `rw_msg_send` stands. -/
inductive SendPc where
  /-- before the allocation of the node -/
  | enter
  /-- before the critical section that puts the node into the list -/
  | push
  /-- before `bmsg_ioctl_sender` -/
  | queue
  /-- the message could not be queued: before the node is freed -/
  | failed
  /-- before `rtos_get_semaphore` returns -/
  | wait
  /-- the semaphore was taken: before the node is freed -/
  | confirmed
  /-- the wait timed out: before the critical section that takes the node out of the list -/
  | timedOut
  /-- the node is out of the list: before it is freed -/
  | extracted
  | returned (ret : Int)
  deriving DecidableEq

/-- Where `rwnx_recv_msg` stands. The requests that were pending when the node was taken out of
the list are kept for the record. -/
inductive RecvPc where
  /-- before the next message is popped -/
  | pop
  /-- before the first request is picked -/
  | pick (rxMsg : Nat)
  /-- before the loop condition and the comparison -/
  | compare (rxMsg : Nat) (txNode : Option Nat)
  /-- before the step to the next request -/
  | next (rxMsg : Nat) (txNode : Nat)
  /-- `find` is set: before both are taken out of their lists -/
  | extract (rxMsg : Nat) (txNode : Nat)
  /-- before the copy -/
  | copy (rxMsg : Nat) (txNode : Nat) (pending : List Nat)
  /-- before the semaphore is set -/
  | set (rxMsg : Nat) (txNode : Nat) (pending : List Nat)
  /-- before `ke_msg_free` -/
  | free (rxMsg : Nat)
  deriving DecidableEq

/-- A message was delivered to a request, out of those that were pending. -/
structure Delivery where
  msg : Nat
  call : Nat
  pending : List Nat
  deriving DecidableEq

/-- The state of the calls, the lists and the receiver. `pushed` are the requests in the order in
which they were put into the list, `written` are the copies into confirm
buffers; `delivered`, `handled` and `freed` are what became of the messages, and `released` the
addresses that calls gave to `os_free` for their messages, with the call. -/
structure State where
  pc : Nat → SendPc
  node : Nat → Option MsgSndNode
  queued : Nat → Option Bool
  txHead : List Nat
  pushed : List Nat
  rxHead : List Nat
  forwarded : Nat
  rx : RecvPc
  written : List (Nat × List UInt8)
  delivered : List Delivery
  handled : List Nat
  freed : List Nat
  released : List (Nat × Nat)

def State.init : State where
  pc := fun _ => .enter
  node := fun _ => none
  queued := fun _ => none
  txHead := []
  pushed := []
  rxHead := []
  forwarded := 0
  rx := .pop
  written := []
  delivered := []
  handled := []
  freed := []
  released := []

def set {α : Type} (f : Nat → α) (t : Nat) (v : α) : Nat → α := fun u => if u = t then v else f u

/-- What happens next: the MAC forwards a message, a call of `rw_msg_send` makes a step with the
outcome of what it calls, or the receiver makes a step. -/
inductive Action where
  | forward
  | send (t : Nat) (ok : Bool)
  | recv
  deriving DecidableEq

section
variable (co : CoList) (args : Nat → SendArgs) (msgs : Nat → KeMsg)

/-- `mr_kmsg_fwd`. -/
def mrKmsgFwd (s : State) : State :=
  { s with rxHead := co.pushBack s.rxHead s.forwarded, forwarded := s.forwarded + 1 }

/-- The node of the call is freed, and the call returns. -/
def finish (s : State) (t : Nat) (ret : Int) : Option State :=
  (s.node t).map fun _ => { s with node := set s.node t none, pc := set s.pc t (.returned ret) }

/-- One step of `rw_msg_send`. `ok` is the outcome of `os_malloc`, of `bmsg_ioctl_sender`, and of
a wait for a semaphore that is not set: without it the wait goes on. -/
def rwMsgSend (s : State) (t : Nat) (ok : Bool) : Option State :=
  let a := args t
  match s.pc t with
  | .enter =>
    if a.cfm = 0 then some { s with pc := set s.pc t .queue }
    else if ok then
      some
        { s with
          node := set s.node t (some ⟨keParam2msg a.msgParams, a.reqid, a.cfm, false⟩)
          pc := set s.pc t .push }
    else some { s with pc := set s.pc t (.returned (-1)) }
  | .push =>
    some
      { s with
        txHead := co.pushBack s.txHead t
        pushed := s.pushed ++ [t]
        pc := set s.pc t .queue }
  | .queue =>
    if ok then
      some
        { s with
          queued := set s.queued t (some true)
          pc := set s.pc t (if a.cfm = 0 then .returned 0 else .wait) }
    else
      some
        { s with
          queued := set s.queued t (some false)
          released := s.released ++ [(t, a.msgParams)]
          pc := set s.pc t (if a.cfm = 0 then .returned (-1) else .failed) }
  | .failed => finish s t (-1)
  | .wait =>
    (s.node t).map fun n =>
      if n.semaphore then
        { s with
          node := set s.node t (some { n with semaphore := false })
          pc := set s.pc t .confirmed }
      else if ok then s
      else { s with pc := set s.pc t .timedOut }
  | .confirmed => finish s t 0
  | .timedOut => some { s with txHead := co.extract s.txHead t, pc := set s.pc t .extracted }
  | .extracted => finish s t (-1)
  | .returned _ => some s

/-- One step of `rwnx_recv_msg`, called again when it has returned. -/
def rwnxRecvMsg (s : State) : Option State :=
  match s.rx with
  | .pop =>
    match co.popFront s.rxHead with
    | none => some s
    | some (m, rest) => some { s with rxHead := rest, rx := .pick m }
  | .pick m => some { s with rx := .compare m s.txHead.head? }
  | .compare m none => some { s with handled := s.handled ++ [m], rx := .free m }
  | .compare m (some t) =>
    (s.node t).map fun n =>
      { s with rx := if (msgs m).id = n.reqid then .extract m t else .next m t }
  | .next m t => (s.node t).map fun _ => { s with rx := .compare m (co.next s.txHead t) }
  | .extract m t =>
    some
      { s with
        rxHead := co.extract s.rxHead m
        txHead := co.extract s.txHead t
        rx := .copy m t s.txHead }
  | .copy m t pending =>
    (s.node t).map fun n =>
      { s with
        written :=
          if n.cfm ≠ 0 ∧ (msgs m).param ≠ [] then s.written ++ [(n.cfm, (msgs m).param)]
          else s.written
        rx := .set m t pending }
  | .set m t pending =>
    (s.node t).map fun n =>
      { s with
        node := set s.node t (some { n with semaphore := true })
        delivered := s.delivered ++ [⟨m, t, pending⟩]
        rx := .free m }
  | .free m => some { s with freed := s.freed ++ [m], rx := .pop }

def step : Machine State Action Unit := fun s action =>
  match action with
  | .forward => some (mrKmsgFwd co s, ())
  | .send t ok => (rwMsgSend co args s t ok).map (·, ())
  | .recv => (rwnxRecvMsg co msgs s).map (·, ())

end

/-! ## Where the receiver and a sender may meet -/

/-- The receiver holds the node of the call: it has picked it and not yet gone on from it. -/
def RecvPc.stands : RecvPc → Nat → Bool
  | .compare _ (some u), t => u == t
  | .next _ u, t => u == t
  | .extract _ u, t => u == t
  | .copy _ u _, t => u == t
  | .set _ u _, t => u == t
  | _, _ => false

/-- The receiver has found that its message answers the call. -/
def RecvPc.chosen : RecvPc → Nat → Bool
  | .extract _ u, t => u == t
  | .copy _ u _, t => u == t
  | .set _ u _, t => u == t
  | _, _ => false

/-- The next step of a call is not one that meets the receiver: the allocation of a node and the
queueing of a message with a node succeed, the wait does not time out when the receiver has chosen
the node, and a node is not taken out of the list under the receiver. -/
def SendPc.Apart (a : SendArgs) (rx : RecvPc) (t : Nat) (ok : Bool) : SendPc → Prop
  | .enter => a.cfm ≠ 0 → ok = true
  | .queue => a.cfm ≠ 0 → ok = true
  | .wait => ok = false → rx.chosen t = false
  | .timedOut => rx.stands t = false
  | _ => True

instance (a : SendArgs) (rx : RecvPc) (t : Nat) (ok : Bool) :
    (pc : SendPc) → Decidable (pc.Apart a rx t ok)
  | .enter => inferInstanceAs (Decidable (a.cfm ≠ 0 → ok = true))
  | .queue => inferInstanceAs (Decidable (a.cfm ≠ 0 → ok = true))
  | .wait => inferInstanceAs (Decidable (ok = false → rx.chosen t = false))
  | .timedOut => inferInstanceAs (Decidable (rx.stands t = false))
  | .push | .failed | .confirmed | .extracted | .returned _ => inferInstanceAs (Decidable True)

/-- The receiver does not choose a request whose wait has timed out. -/
def RecvPc.Apart (args : Nat → SendArgs) (msgs : Nat → KeMsg) (pc : Nat → SendPc) : RecvPc → Prop
  | .compare m (some t) => (msgs m).id = (args t).reqid → pc t ≠ .timedOut
  | _ => True

instance (args : Nat → SendArgs) (msgs : Nat → KeMsg) (pc : Nat → SendPc) :
    (rx : RecvPc) → Decidable (rx.Apart args msgs pc)
  | .compare m (some t) =>
    inferInstanceAs (Decidable ((msgs m).id = (args t).reqid → pc t ≠ .timedOut))
  | .compare _ none | .pop | .pick _ | .next _ _ | .extract _ _ | .copy _ _ _ | .set _ _ _ |
    .free _ => inferInstanceAs (Decidable True)

/-- The steps that keep senders and the receiver apart. -/
def Apart (args : Nat → SendArgs) (msgs : Nat → KeMsg) (s : State) : Action → Prop
  | .forward => True
  | .send t ok => (s.pc t).Apart (args t) s.rx t ok
  | .recv => s.rx.Apart args msgs s.pc

instance (args : Nat → SendArgs) (msgs : Nat → KeMsg) (s : State) :
    (action : Action) → Decidable (Apart args msgs s action)
  | .forward => inferInstanceAs (Decidable True)
  | .send t ok => inferInstanceAs (Decidable ((s.pc t).Apart (args t) s.rx t ok))
  | .recv => inferInstanceAs (Decidable (s.rx.Apart args msgs s.pc))

end TuyaSdk.RwMsg
