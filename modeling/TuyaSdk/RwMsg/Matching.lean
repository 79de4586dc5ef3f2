import TuyaSdk.RwMsg.Calls

/-!
# Every message finds its request

While the receiver stands on a request, the request is in the list, and those before it do not
ask for the message in hand; so the request it finds is the first one that does. `Inv` holds in
every run whose steps keep senders and the receiver apart.
-/

namespace TuyaSdk.RwMsg

open TuyaSdk.Lib

/-- The message in the receiver's hands. -/
def RecvPc.msg : RecvPc → Option Nat
  | .pop => none
  | .pick m => some m
  | .compare m _ => some m
  | .next m _ => some m
  | .extract m _ => some m
  | .copy m _ _ => some m
  | .set m _ _ => some m
  | .free m => some m

/-- The message that was delivered or handled, and is not yet freed. -/
def RecvPc.done : RecvPc → Option Nat
  | .free m => some m
  | _ => none

section
variable (args : Nat → SendArgs) (msgs : Nat → KeMsg)

/-- The request is in the list, and no request before it asks for the message. -/
def Stands (s : State) (m t : Nat) : Prop :=
  ∃ l₁ l₂, s.txHead = l₁ ++ t :: l₂ ∧ ∀ u ∈ l₁, (args u).reqid ≠ (msgs m).id

/-- The request is the oldest of the pending ones that asks for the message. -/
def Oldest (pushed : List Nat) (m t : Nat) (pending : List Nat) : Prop :=
  pending.Sublist pushed ∧ pending.find? (fun u => (args u).reqid == (msgs m).id) = some t

/-- What the receiver knows where it stands. -/
def RecvOk (s : State) : Prop :=
  match s.rx with
  | .compare m (some t) => Stands args msgs s m t
  | .next m t => Stands args msgs s m t ∧ (args t).reqid ≠ (msgs m).id
  | .extract m t => Stands args msgs s m t ∧ (args t).reqid = (msgs m).id ∧ s.pc t ≠ .timedOut
  | .copy m t pending => Oldest args msgs s.pushed m t pending
  | .set m t pending => Oldest args msgs s.pushed m t pending ∧
      ((msgs m).param ≠ [] → ((args t).cfm, (msgs m).param) ∈ s.written)
  | _ => True

/-- What holds of a delivery. -/
structure DeliveryOk (pushed : List Nat) (written : List (Nat × List UInt8)) (d : Delivery) :
    Prop where
  oldest : Oldest args msgs pushed d.msg d.call d.pending
  asked : (args d.call).cfm ≠ 0
  copied : (msgs d.msg).param ≠ [] → ((args d.call).cfm, (msgs d.msg).param) ∈ written

structure Inv (s : State) : Prop where
  calls : CallsOk args s
  recv : RecvOk args msgs s
  tx_nodup : s.txHead.Nodup
  tx_pushed : s.txHead.Sublist s.pushed
  place : ∀ m, s.rxHead.count m + s.rx.msg.toList.count m + s.freed.count m =
    if m < s.forwarded then 1 else 0
  outcome : ∀ m, s.delivered.countP (·.msg == m) + s.handled.count m =
    s.freed.count m + s.rx.done.toList.count m
  delivered : ∀ d ∈ s.delivered, DeliveryOk args msgs s.pushed s.written d

end

/-! ## Steps of the calls -/

/-- What a step of a call may do to the rest. -/
structure Sent (s s' : State) (t : Nat) (ok : Bool) : Prop where
  lists : (s'.txHead = s.txHead ∧ s'.pushed = s.pushed) ∨
    (s.pc t = .push ∧ s'.txHead = s.txHead ++ [t] ∧ s'.pushed = s.pushed ++ [t]) ∨
    (s.pc t = .timedOut ∧ s'.txHead = s.txHead.erase t ∧ s'.pushed = s.pushed)
  pc : ∀ u, u ≠ t → s'.pc u = s.pc u
  timedOut : s'.pc t = .timedOut → s.pc t = .wait ∧ ok = false
  rx : s'.rx = s.rx
  rxHead : s'.rxHead = s.rxHead
  forwarded : s'.forwarded = s.forwarded
  written : s'.written = s.written
  delivered : s'.delivered = s.delivered
  handled : s'.handled = s.handled
  freed : s'.freed = s.freed

/-- A step that leaves the list alone, and after which the call has not timed out. -/
theorem Sent.plain {s : State} {t : Nat} {ok : Bool} (p : SendPc) (hp : p ≠ .timedOut)
    (node : Nat → Option MsgSndNode) (queued : Nat → Option Bool) (released : List (Nat × Nat)) :
    Sent s { s with pc := set s.pc t p, node := node, queued := queued, released := released } t
      ok where
  lists := Or.inl ⟨rfl, rfl⟩
  pc _ hu := set_ne _ _ hu
  timedOut h := absurd ((set_same s.pc t p).symm.trans h) hp
  rx := rfl
  rxHead := rfl
  forwarded := rfl
  written := rfl
  delivered := rfl
  handled := rfl
  freed := rfl

theorem Sent.refl {s : State} {t : Nat} {ok : Bool} (h : s.pc t ≠ .timedOut) :
    Sent s s t ok :=
  ⟨Or.inl ⟨rfl, rfl⟩, fun _ _ => rfl, fun hp => absurd hp h, rfl, rfl, rfl, rfl, rfl, rfl, rfl⟩

section
variable {co : CoList} {args : Nat → SendArgs} {msgs : Nat → KeMsg} {s s' : State}

theorem finish_sent {t : Nat} {ok : Bool} {ret : Int} (h : finish s t ret = some s') :
    Sent s s' t ok := by
  obtain ⟨n, -, rfl⟩ := Option.map_eq_some_iff.mp h
  exact Sent.plain (.returned ret) nofun _ _ _

theorem rwMsgSend_sent {t : Nat} {ok : Bool} (h : rwMsgSend co args s t ok = some s') :
    Sent s s' t ok := by
  unfold rwMsgSend at h
  cases hpc : s.pc t with
  | enter =>
    simp only [hpc] at h
    split at h
    · cases h
      exact Sent.plain .queue nofun _ _ _
    · split at h
      · cases h
        exact Sent.plain .push nofun _ _ _
      · cases h
        exact Sent.plain (.returned (-1)) nofun _ _ _
  | push =>
    simp only [hpc, co.pushBack_eq] at h
    cases h
    exact ⟨Or.inr (Or.inl ⟨hpc, rfl, rfl⟩), fun u hu => set_ne _ _ hu,
      fun hp => (nomatch (set_same s.pc t .queue).symm.trans hp), rfl, rfl, rfl, rfl, rfl, rfl, rfl⟩
  | queue =>
    simp only [hpc] at h
    split at h
    · cases h
      refine Sent.plain _ ?_ _ _ _
      split <;> exact nofun
    · cases h
      refine Sent.plain _ ?_ _ _ _
      split <;> exact nofun
  | failed =>
    simp only [hpc] at h
    exact finish_sent h
  | wait =>
    simp only [hpc] at h
    obtain ⟨n, -, rfl⟩ := Option.map_eq_some_iff.mp h
    split
    · exact Sent.plain .confirmed nofun _ _ _
    · split
      · exact Sent.refl (by rw [hpc]; exact nofun)
      · rename_i hok
        exact ⟨Or.inl ⟨rfl, rfl⟩, fun u hu => set_ne _ _ hu,
          fun _ => ⟨hpc, Bool.eq_false_iff.mpr hok⟩, rfl, rfl, rfl, rfl, rfl, rfl, rfl⟩
  | confirmed =>
    simp only [hpc] at h
    exact finish_sent h
  | timedOut =>
    simp only [hpc, co.extract_eq] at h
    cases h
    exact ⟨Or.inr (Or.inr ⟨hpc, rfl, rfl⟩), fun u hu => set_ne _ _ hu,
      fun hp => (nomatch (set_same s.pc t .extracted).symm.trans hp), rfl, rfl, rfl, rfl, rfl, rfl,
      rfl⟩
  | extracted =>
    simp only [hpc] at h
    exact finish_sent h
  | returned ret =>
    simp only [hpc] at h
    cases h
    exact Sent.refl (by rw [hpc]; exact nofun)

/-! ## The receiver keeps its place -/

/-- A new request at the end does not come before the one the receiver stands on. -/
theorem Stands.push {m t u : Nat} (h : Stands args msgs s m t) (hl : s'.txHead = s.txHead ++ [u]) :
    Stands args msgs s' m t := by
  obtain ⟨l₁, l₂, hlist, hne⟩ := h
  exact ⟨l₁, l₂ ++ [u], by rw [hl, hlist, List.append_assoc, List.cons_append], hne⟩

/-- The receiver keeps its place when another request is taken out. -/
theorem Stands.erase {m t u : Nat} (h : Stands args msgs s m t) (hne : u ≠ t)
    (hl : s'.txHead = s.txHead.erase u) : Stands args msgs s' m t := by
  obtain ⟨l₁, l₂, hlist, hbefore⟩ := h
  by_cases hu : u ∈ l₁
  · exact ⟨l₁.erase u, l₂, by rw [hl, hlist, List.erase_append_left _ hu],
      fun v hv => hbefore v (List.mem_of_mem_erase hv)⟩
  · refine ⟨l₁, l₂.erase u, ?_, hbefore⟩
    rw [hl, hlist, List.erase_append_right _ hu, List.erase_cons_tail]
    simpa using Ne.symm hne

theorem Stands.mem {m t : Nat} (h : Stands args msgs s m t) : t ∈ s.txHead := by
  obtain ⟨l₁, l₂, hlist, -⟩ := h
  rw [hlist]
  simp

/-- The request that the receiver finds is the oldest one that asks for the message. -/
theorem Stands.oldest {m t : Nat} (h : Stands args msgs s m t)
    (ht : (args t).reqid = (msgs m).id) (hp : s.txHead.Sublist s.pushed) :
    Oldest args msgs s.pushed m t s.txHead := by
  obtain ⟨l₁, l₂, hlist, hbefore⟩ := h
  refine ⟨hp, ?_⟩
  have hnone : l₁.find? (fun u => (args u).reqid == (msgs m).id) = none := by
    rw [List.find?_eq_none]
    intro u hu
    simpa using hbefore u hu
  rw [hlist, List.find?_append, hnone, List.find?_cons_of_pos (by simpa using ht)]
  rfl

theorem Oldest.mono {m t : Nat} {pending p p' : List Nat} (h : Oldest args msgs p m t pending)
    (hp : p.Sublist p') : Oldest args msgs p' m t pending :=
  ⟨h.1.trans hp, h.2⟩

/-- The receiver stands where it stood when the list keeps its request and the request has not
timed out meanwhile. -/
theorem RecvOk.keep (h : RecvOk args msgs s) (hrx : s'.rx = s.rx)
    (hstands : ∀ m t, s.rx.stands t = true → Stands args msgs s m t → Stands args msgs s' m t)
    (hp : s.pushed.Sublist s'.pushed) (hw : s'.written = s.written)
    (htime : ∀ t, s.rx.chosen t = true → s.pc t ≠ .timedOut → s'.pc t ≠ .timedOut) :
    RecvOk args msgs s' := by
  unfold RecvOk at h ⊢
  rw [hrx, hw]
  cases hr : s.rx with
  | compare m txNode =>
    rw [hr] at h hstands
    cases txNode with
    | none => trivial
    | some t => exact hstands m t (beq_self_eq_true t) h
  | next m t =>
    rw [hr] at h hstands
    exact ⟨hstands m t (beq_self_eq_true t) h.1, h.2⟩
  | extract m t =>
    rw [hr] at h hstands htime
    exact ⟨hstands m t (beq_self_eq_true t) h.1, h.2.1, htime t (beq_self_eq_true t) h.2.2⟩
  | copy m t pending =>
    rw [hr] at h
    exact h.mono hp
  | set m t pending =>
    rw [hr] at h
    exact ⟨h.1.mono hp, h.2⟩
  | pop => trivial
  | pick m => trivial
  | free m => trivial

theorem rwMsgSend_keeps {t : Nat} {ok : Bool} (h : Inv args msgs s)
    (hap : Apart args msgs s (.send t ok)) :
    ∃ s', rwMsgSend co args s t ok = some s' ∧ Inv args msgs s' := by
  obtain ⟨s', hs', hcalls⟩ := rwMsgSend_calls h.calls h.tx_nodup hap
  have hsent := rwMsgSend_sent hs'
  have hpushed : s.pushed.Sublist s'.pushed := by
    rcases hsent.lists with ⟨-, hl⟩ | ⟨-, -, hl⟩ | ⟨-, -, hl⟩
    · rw [hl]
    · rw [hl]
      exact List.sublist_append_left _ _
    · rw [hl]
  refine ⟨s', hs', hcalls, ?_, ?_, ?_, ?_, ?_, ?_⟩
  · refine h.recv.keep hsent.rx ?_ hpushed hsent.written ?_
    · intro m u hstands hu
      rcases hsent.lists with ⟨hl, -⟩ | ⟨-, hl, -⟩ | ⟨hpc, hl, -⟩
      · obtain ⟨l₁, l₂, hlist, hbefore⟩ := hu
        exact ⟨l₁, l₂, hl.trans hlist, hbefore⟩
      · exact hu.push hl
      · refine hu.erase ?_ hl
        rintro rfl
        simp only [Apart, SendPc.Apart, hpc] at hap
        rw [hap] at hstands
        cases hstands
    · intro u hchosen hu htime
      by_cases hut : u = t
      · subst hut
        obtain ⟨hpc, hok⟩ := hsent.timedOut htime
        simp only [Apart, SendPc.Apart, hpc] at hap
        rw [hap hok] at hchosen
        cases hchosen
      · exact hu ((hsent.pc u hut).symm.trans htime)
  · rcases hsent.lists with ⟨hl, -⟩ | ⟨hpc, hl, -⟩ | ⟨-, hl, -⟩
    · exact hl ▸ h.tx_nodup
    · rw [hl]
      refine List.nodup_append.mpr ⟨h.tx_nodup, by simp, ?_⟩
      rintro u hu v hv rfl
      have hut : u = t := List.mem_singleton.mp hv
      subst hut
      have hlisted : (view s u).listed = true := decide_eq_true hu
      obtain ⟨-, -, -, -, hq | hq | hq⟩ := (h.calls u).of_listed hlisted
      · exact nomatch hpc.symm.trans hq
      · exact nomatch hpc.symm.trans hq
      · exact nomatch hpc.symm.trans hq
    · exact hl ▸ h.tx_nodup.erase t
  · rcases hsent.lists with ⟨hl, hp⟩ | ⟨-, hl, hp⟩ | ⟨-, hl, hp⟩
    · rw [hl, hp]
      exact h.tx_pushed
    · rw [hl, hp]
      exact h.tx_pushed.append_right [t]
    · rw [hl, hp]
      exact List.erase_sublist.trans h.tx_pushed
  · rw [hsent.rxHead, hsent.rx, hsent.freed, hsent.forwarded]
    exact h.place
  · rw [hsent.delivered, hsent.handled, hsent.freed, hsent.rx]
    exact h.outcome
  · rw [hsent.delivered]
    intro d hd
    obtain ⟨ho, ha, hc⟩ := h.delivered d hd
    exact ⟨ho.mono hpushed, ha, hsent.written ▸ hc⟩

/-! ## Steps of the MAC and of the receiver -/

theorem mrKmsgFwd_keeps (h : Inv args msgs s) : Inv args msgs (mrKmsgFwd co s) := by
  refine ⟨h.calls.same fun _ => rfl, h.recv, h.tx_nodup, h.tx_pushed, ?_, h.outcome, h.delivered⟩
  intro m
  have hm := h.place m
  simp only [mrKmsgFwd, co.pushBack_eq, List.count_append, List.count_singleton, beq_iff_eq]
  by_cases hnew : s.forwarded = m
  · subst hnew
    rw [if_neg (Nat.lt_irrefl _)] at hm
    rw [if_pos rfl, if_pos (Nat.lt_succ_self _)]
    omega
  · rw [if_neg hnew, Nat.add_zero, hm]
    have hiff : m < s.forwarded ↔ m < s.forwarded + 1 := by omega
    simp only [hiff]

/-- The node that the receiver stands on is that of the request. -/
theorem Inv.node_of_stands {m t : Nat} (h : Inv args msgs s) (hs : Stands args msgs s m t) :
    s.node t = some (nodeOf (args t) false) :=
  ((h.calls t).of_listed (decide_eq_true hs.mem)).2.1

/-- A message in the receiver's hands is not in the list. -/
theorem Inv.not_mem_rxHead {m : Nat} (h : Inv args msgs s) (hm : s.rx.msg = some m) :
    m ∉ s.rxHead := by
  intro hmem
  have hplace := h.place m
  have hpos := List.count_pos_iff.mpr hmem
  rw [hm, Option.toList_some, List.count_singleton_self] at hplace
  split at hplace <;> omega

/-- The receiver moves on with its message and leaves the calls alone. -/
theorem Inv.move {rx : RecvPc} (h : Inv args msgs s) (hmsg : rx.msg = s.rx.msg)
    (hdone : rx.done = s.rx.done) (htakes : ∀ t, rx.takes t = s.rx.takes t)
    (hrecv : RecvOk args msgs { s with rx := rx }) : Inv args msgs { s with rx := rx } := by
  refine ⟨h.calls.same fun t => ?_, hrecv, h.tx_nodup, h.tx_pushed, ?_, ?_, h.delivered⟩
  · simp only [view, htakes]
  · intro m
    simp only [hmsg]
    exact h.place m
  · intro m
    simp only [hdone]
    exact h.outcome m

theorem recv_pop (h : Inv args msgs s) (hrx : s.rx = .pop) :
    ∃ s', rwnxRecvMsg co msgs s = some s' ∧ Inv args msgs s' := by
  simp only [rwnxRecvMsg, hrx]
  cases hl : s.rxHead with
  | nil =>
    simp only [co.popFront_nil]
    exact ⟨s, rfl, h⟩
  | cons m rest =>
    simp only [co.popFront_cons]
    refine ⟨_, rfl, h.calls.same fun t => ?_, trivial, h.tx_nodup, h.tx_pushed, ?_, ?_, h.delivered⟩
    · simp only [view, hrx, RecvPc.takes]
    · intro u
      have hu := h.place u
      rw [hrx, hl] at hu
      simp only [RecvPc.msg, Option.toList_none, List.count_nil, List.count_cons] at hu
      simp only [RecvPc.msg, Option.toList_some, List.count_singleton]
      omega
    · intro u
      have hu := h.outcome u
      rw [hrx] at hu
      exact hu

theorem recv_pick {m : Nat} (h : Inv args msgs s) (hrx : s.rx = .pick m) :
    ∃ s', rwnxRecvMsg co msgs s = some s' ∧ Inv args msgs s' := by
  simp only [rwnxRecvMsg, hrx]
  refine ⟨_, rfl, h.move (by rw [hrx]; rfl) (by rw [hrx]; rfl) ?_ ?_⟩
  · intro t
    rw [hrx]
    cases s.txHead.head? <;> rfl
  · cases s.txHead with
    | nil => trivial
    | cons t l => exact ⟨[], l, rfl, nofun⟩

theorem recv_compare_none {m : Nat} (h : Inv args msgs s) (hrx : s.rx = .compare m none) :
    ∃ s', rwnxRecvMsg co msgs s = some s' ∧ Inv args msgs s' := by
  simp only [rwnxRecvMsg, hrx]
  refine ⟨_, rfl, h.calls.same fun t => ?_, trivial, h.tx_nodup, h.tx_pushed, ?_, ?_, h.delivered⟩
  · simp only [view, hrx, RecvPc.takes]
  · intro u
    have hu := h.place u
    rw [hrx] at hu
    exact hu
  · intro u
    have hu := h.outcome u
    rw [hrx] at hu
    simp only [RecvPc.done, Option.toList_none, List.count_nil, Nat.add_zero] at hu
    simp only [RecvPc.done, Option.toList_some, List.count_append]
    omega

theorem recv_compare_some {m t : Nat} (h : Inv args msgs s) (hrx : s.rx = .compare m (some t))
    (hap : (msgs m).id = (args t).reqid → s.pc t ≠ .timedOut) :
    ∃ s', rwnxRecvMsg co msgs s = some s' ∧ Inv args msgs s' := by
  have hstands := h.recv
  simp only [RecvOk, hrx] at hstands
  simp only [rwnxRecvMsg, hrx, h.node_of_stands hstands, Option.map_some]
  have hreqid : (nodeOf (args t) false).reqid = (args t).reqid := rfl
  rw [hreqid]
  by_cases hid : (msgs m).id = (args t).reqid
  · rw [if_pos hid]
    refine ⟨_, rfl, h.move (by rw [hrx]; rfl) (by rw [hrx]; rfl) (fun u => by rw [hrx]; rfl) ?_⟩
    exact ⟨hstands, hid.symm, hap hid⟩
  · rw [if_neg hid]
    refine ⟨_, rfl, h.move (by rw [hrx]; rfl) (by rw [hrx]; rfl) (fun u => by rw [hrx]; rfl) ?_⟩
    exact ⟨hstands, Ne.symm hid⟩

theorem recv_next {m t : Nat} (h : Inv args msgs s) (hrx : s.rx = .next m t) :
    ∃ s', rwnxRecvMsg co msgs s = some s' ∧ Inv args msgs s' := by
  have hrecv := h.recv
  simp only [RecvOk, hrx] at hrecv
  obtain ⟨hstands, hid⟩ := hrecv
  simp only [rwnxRecvMsg, hrx, h.node_of_stands hstands, Option.map_some]
  obtain ⟨l₁, l₂, hlist, hbefore⟩ := hstands
  have ht : t ∉ l₁ := by
    have hnd := h.tx_nodup
    rw [hlist] at hnd
    intro hmem
    exact (List.nodup_append.mp hnd).2.2 t hmem t (by simp) rfl
  have hnext : co.next s.txHead t = l₂.head? := by rw [hlist, co.next_eq l₁ t l₂ ht]
  rw [hnext]
  refine ⟨_, rfl, h.move (by rw [hrx]; rfl) (by rw [hrx]; rfl) ?_ ?_⟩
  · intro u
    rw [hrx]
    cases l₂.head? <;> rfl
  · cases l₂ with
    | nil => trivial
    | cons u l₂ =>
      refine ⟨l₁ ++ [t], l₂, by rw [hlist, List.append_assoc]; rfl, ?_⟩
      intro v hv
      rcases List.mem_append.mp hv with hv | hv
      · exact hbefore v hv
      · exact List.mem_singleton.mp hv ▸ hid

theorem recv_extract {m t : Nat} (h : Inv args msgs s) (hrx : s.rx = .extract m t) :
    ∃ s', rwnxRecvMsg co msgs s = some s' ∧ Inv args msgs s' := by
  have hrecv := h.recv
  simp only [RecvOk, hrx] at hrecv
  obtain ⟨hstands, hid, hpc⟩ := hrecv
  have hrxHead : s.rxHead.erase m = s.rxHead :=
    List.erase_of_not_mem (h.not_mem_rxHead (by rw [hrx]; rfl))
  simp only [rwnxRecvMsg, hrx, co.extract_eq, hrxHead]
  have hlisted : decide (t ∈ s.txHead) = true := decide_eq_true hstands.mem
  refine ⟨_, rfl, h.calls.update (t := t) ?_ ?_, ?_, h.tx_nodup.erase t,
    List.erase_sublist.trans h.tx_pushed, ?_, ?_, h.delivered⟩
  · have htake := (h.calls t).take hlisted hpc
    have hmem : decide (t ∈ s.txHead.erase t) = false := by simp [h.tx_nodup.mem_erase_iff]
    simp only [view, RecvPc.takes, beq_self_eq_true, hmem] at htake ⊢
    exact htake
  · intro u hu
    have htakes : (t == u) = false := by simpa using Ne.symm hu
    simp only [view, hrx, RecvPc.takes, htakes, decide_mem_erase_ne hu]
  · exact hstands.oldest hid h.tx_pushed
  · intro u
    have hu := h.place u
    rw [hrx] at hu
    exact hu
  · intro u
    have hu := h.outcome u
    rw [hrx] at hu
    exact hu

theorem recv_copy {m t : Nat} {pending : List Nat} (h : Inv args msgs s)
    (hrx : s.rx = .copy m t pending) :
    ∃ s', rwnxRecvMsg co msgs s = some s' ∧ Inv args msgs s' := by
  have hrecv := h.recv
  simp only [RecvOk, hrx] at hrecv
  have htaken : (view s t).taken = true := by simp only [view, hrx, RecvPc.takes, beq_self_eq_true]
  obtain ⟨hcfm, hnode, -, -⟩ := (h.calls t).of_taken htaken
  have hnode : s.node t = some (nodeOf (args t) false) := hnode
  simp only [rwnxRecvMsg, hrx, hnode, Option.map_some]
  have hcfmEq : (nodeOf (args t) false).cfm = (args t).cfm := rfl
  rw [hcfmEq]
  have hmono : ∀ x ∈ s.written, x ∈ (if (args t).cfm ≠ 0 ∧ (msgs m).param ≠ [] then
      s.written ++ [((args t).cfm, (msgs m).param)] else s.written) := by
    intro x hx
    split
    · exact List.mem_append_left _ hx
    · exact hx
  refine ⟨_, rfl, h.calls.same fun u => ?_, ⟨hrecv, fun hp => ?_⟩, h.tx_nodup, h.tx_pushed,
    ?_, ?_, ?_⟩
  · simp only [view, hrx, RecvPc.takes]
  · simp only [if_pos (And.intro hcfm hp)]
    exact List.mem_append_right _ (List.mem_singleton_self _)
  · intro u
    have hu := h.place u
    rw [hrx] at hu
    exact hu
  · intro u
    have hu := h.outcome u
    rw [hrx] at hu
    exact hu
  · intro d hd
    obtain ⟨ho, ha, hc⟩ := h.delivered d hd
    exact ⟨ho, ha, fun hp => hmono _ (hc hp)⟩

theorem recv_set {m t : Nat} {pending : List Nat} (h : Inv args msgs s)
    (hrx : s.rx = .set m t pending) :
    ∃ s', rwnxRecvMsg co msgs s = some s' ∧ Inv args msgs s' := by
  have hrecv := h.recv
  simp only [RecvOk, hrx] at hrecv
  have htaken : (view s t).taken = true := by simp only [view, hrx, RecvPc.takes, beq_self_eq_true]
  obtain ⟨hcfm, hnode, hanswers, -⟩ := (h.calls t).of_taken htaken
  have hnode : s.node t = some (nodeOf (args t) false) := hnode
  have hanswers : s.delivered.countP (·.call == t) = 0 := hanswers
  simp only [rwnxRecvMsg, hrx, hnode, Option.map_some]
  refine ⟨_, rfl, h.calls.update (t := t) ?_ ?_, trivial, h.tx_nodup, h.tx_pushed, ?_, ?_, ?_⟩
  · have hanswer := (h.calls t).answer htaken
    simp only [view, RecvPc.takes, set_same, List.countP_append, hanswers] at hanswer ⊢
    simpa [nodeOf] using hanswer
  · intro u hu
    have htu : (t == u) = false := by simpa using Ne.symm hu
    simp only [view, hrx, RecvPc.takes, htu, set_ne _ _ hu, List.countP_append,
      List.countP_singleton, Bool.false_eq_true, if_false, Nat.add_zero]
  · intro u
    have hu := h.place u
    rw [hrx] at hu
    exact hu
  · intro u
    have hu := h.outcome u
    rw [hrx] at hu
    simp only [RecvPc.done, Option.toList_none, List.count_nil, Nat.add_zero] at hu
    simp only [RecvPc.done, Option.toList_some, List.countP_append, List.countP_singleton,
      List.count_singleton]
    omega
  · intro d hd
    rcases List.mem_append.mp hd with hd | hd
    · exact h.delivered d hd
    · rw [List.mem_singleton.mp hd]
      exact ⟨hrecv.1, hcfm, hrecv.2⟩

theorem recv_free {m : Nat} (h : Inv args msgs s) (hrx : s.rx = .free m) :
    ∃ s', rwnxRecvMsg co msgs s = some s' ∧ Inv args msgs s' := by
  simp only [rwnxRecvMsg, hrx]
  refine ⟨_, rfl, h.calls.same fun t => ?_, trivial, h.tx_nodup, h.tx_pushed, ?_, ?_, h.delivered⟩
  · simp only [view, hrx, RecvPc.takes]
  · intro u
    have hu := h.place u
    rw [hrx] at hu
    simp only [RecvPc.msg, Option.toList_some] at hu
    simp only [RecvPc.msg, Option.toList_none, List.count_nil, List.count_append]
    omega
  · intro u
    have hu := h.outcome u
    rw [hrx] at hu
    simp only [RecvPc.done, Option.toList_some] at hu
    simp only [RecvPc.done, Option.toList_none, List.count_nil, List.count_append]
    omega

theorem rwnxRecvMsg_keeps (h : Inv args msgs s) (hap : Apart args msgs s .recv) :
    ∃ s', rwnxRecvMsg co msgs s = some s' ∧ Inv args msgs s' := by
  cases hrx : s.rx with
  | pop => exact recv_pop h hrx
  | pick m => exact recv_pick h hrx
  | compare m txNode =>
    cases txNode with
    | none => exact recv_compare_none h hrx
    | some t =>
      simp only [Apart, RecvPc.Apart, hrx] at hap
      exact recv_compare_some h hrx hap
  | next m t => exact recv_next h hrx
  | extract m t => exact recv_extract h hrx
  | copy m t pending => exact recv_copy h hrx
  | set m t pending => exact recv_set h hrx
  | free m => exact recv_free h hrx

theorem step_keeps (h : Inv args msgs s) {action : Action} (hap : Apart args msgs s action) :
    ∃ s', step co args msgs s action = some (s', ()) ∧ Inv args msgs s' := by
  cases action with
  | forward => exact ⟨_, rfl, mrKmsgFwd_keeps h⟩
  | send t ok =>
    obtain ⟨s', hs', hinv⟩ :
        ∃ s', rwMsgSend co args s t ok = some s' ∧ Inv args msgs s' := rwMsgSend_keeps h hap
    exact ⟨s', by simp only [step, hs', Option.map_some], hinv⟩
  | recv =>
    obtain ⟨s', hs', hinv⟩ :
        ∃ s', rwnxRecvMsg co msgs s = some s' ∧ Inv args msgs s' := rwnxRecvMsg_keeps h hap
    exact ⟨s', by simp only [step, hs', Option.map_some], hinv⟩

end

theorem init_inv (args : Nat → SendArgs) (msgs : Nat → KeMsg) : Inv args msgs State.init where
  calls _ := .enter
  recv := trivial
  tx_nodup := List.nodup_nil
  tx_pushed := List.Sublist.refl []
  place m := (if_neg (Nat.not_lt_zero m)).symm
  outcome _ := rfl
  delivered := nofun

/-! ## Runs -/

/-- Messages and calls are matched: every forwarded message is in one place, and is freed once
it has been delivered to a request or handled; a delivery goes to the oldest pending request that
asks for the message; a call that asks for a confirm returns 0 exactly when it got one; and a
message that could not be queued is released once, by the address given to the call. -/
structure Matched (args : Nat → SendArgs) (msgs : Nat → KeMsg) (s : State) : Prop where
  place : ∀ m, s.rxHead.count m + s.rx.msg.toList.count m + s.freed.count m =
    if m < s.forwarded then 1 else 0
  outcome : ∀ m, s.delivered.countP (·.msg == m) + s.handled.count m =
    s.freed.count m + s.rx.done.toList.count m
  oldest : ∀ d ∈ s.delivered, d.pending.Sublist s.pushed ∧
    d.pending.find? (fun u => (args u).reqid == (msgs d.msg).id) = some d.call
  copied : ∀ d ∈ s.delivered, (msgs d.msg).param ≠ [] →
    ((args d.call).cfm, (msgs d.msg).param) ∈ s.written
  once : ∀ t, s.delivered.countP (·.call == t) ≤ 1
  confirmed : ∀ t ret, (args t).cfm ≠ 0 → s.pc t = .returned ret →
    (ret = 0 ↔ ∃ d ∈ s.delivered, d.call = t)
  plain : ∀ t ret, (args t).cfm = 0 → s.pc t = .returned ret →
    (ret = 0 ↔ s.queued t = some true)
  released : ∀ t, s.released.filter (·.1 == t) =
    if s.queued t = some false then [(t, (args t).msgParams)] else []

theorem CallOk.released_eq {t : Nat} {a : SendArgs} {v : View} (h : CallOk t a v) :
    v.released = if v.queued = some false then [(t, a.msgParams)] else [] := by
  cases h <;> rfl

theorem Stage.answers_le {sem listed taken : Bool} {answers : Nat}
    (h : Stage sem listed taken answers) : answers ≤ 1 := by
  cases h with
  | answered => exact Nat.le_refl 1
  | _ => exact Nat.zero_le 1

theorem CallOk.answers_le {t : Nat} {a : SendArgs} {v : View} (h : CallOk t a v) :
    v.answers ≤ 1 := by
  cases h with
  | queue _ hs => exact hs.answers_le
  | wait _ hs => exact hs.answers_le
  | confirmed _ | success _ => exact Nat.le_refl 1
  | _ => exact Nat.zero_le 1

theorem CallOk.returned {t : Nat} {a : SendArgs} {v : View} {ret : Int} (h : CallOk t a v)
    (hpc : v.pc = .returned ret) :
    (a.cfm ≠ 0 → (ret = 0 ↔ v.answers = 1)) ∧ (a.cfm = 0 → (ret = 0 ↔ v.queued = some true)) := by
  cases h with
  | success ha =>
    cases hpc
    exact ⟨fun _ => iff_of_true rfl rfl, fun h0 => absurd h0 ha⟩
  | failure ha =>
    cases hpc
    exact ⟨fun _ => iff_of_false nofun nofun, fun h0 => absurd h0 ha⟩
  | sent ha =>
    cases hpc
    exact ⟨fun hne => absurd ha hne, fun _ => iff_of_true rfl rfl⟩
  | unsent ha =>
    cases hpc
    exact ⟨fun hne => absurd ha hne, fun _ => iff_of_false nofun nofun⟩
  | _ => cases hpc

theorem Inv.matched {args : Nat → SendArgs} {msgs : Nat → KeMsg} {s : State}
    (h : Inv args msgs s) : Matched args msgs s where
  place := h.place
  outcome := h.outcome
  oldest d hd := (h.delivered d hd).oldest
  copied d hd := (h.delivered d hd).copied
  once t := (h.calls t).answers_le
  confirmed t ret ha hpc := by
    rw [((h.calls t).returned hpc).1 ha]
    have hle : s.delivered.countP (·.call == t) ≤ 1 := (h.calls t).answers_le
    change s.delivered.countP (·.call == t) = 1 ↔ _
    rw [show s.delivered.countP (·.call == t) = 1 ↔ 0 < s.delivered.countP (·.call == t) by omega,
      List.countP_pos_iff]
    simp only [beq_iff_eq]
  plain t ret ha hpc := ((h.calls t).returned hpc).2 ha
  released t := (h.calls t).released_eq

/-- In every run whose steps keep senders and the receiver apart, no freed node is used and
messages and calls are matched. -/
theorem matched_of_apart (co : CoList) (args : Nat → SendArgs) (msgs : Nat → KeMsg)
    (actions : List Action)
    (h : Machine.Legal (step co args msgs) (Apart args msgs) State.init actions) :
    ∃ s os, Machine.run (step co args msgs) State.init actions = some (s, os) ∧
      Matched args msgs s := by
  obtain ⟨s, os, hrun, hinv⟩ :=
    Machine.run_total (I := fun s (_ : List Unit) => Inv args msgs s)
      (fun s os action hs hap => by
        obtain ⟨s', hs', hinv⟩ := step_keeps hs hap
        exact ⟨s', (), hs', hinv⟩)
      (init_inv args msgs) h
  exact ⟨s, os, hrun, hinv.matched⟩

/-- A request with id 5, whose confirm buffer is at 64. -/
def scanRequest : Nat → SendArgs := fun _ => ⟨28, 5, 64⟩

def scanConfirm : Nat → KeMsg := fun _ => ⟨5, [1]⟩

/-- The request is put into the list, and its confirm arrives. -/
def confirmedRun : List Action :=
  [.send 0 true, .send 0 true, .send 0 true, .forward, .recv, .recv, .recv, .recv, .recv, .recv,
    .recv, .send 0 true, .send 0 true]

theorem matched_confirmedRun :
    ∃ s os, Machine.run (step .unlinked scanRequest scanConfirm) State.init confirmedRun =
        some (s, os) ∧ Matched scanRequest scanConfirm s :=
  matched_of_apart .unlinked scanRequest scanConfirm confirmedRun (by decide +kernel)

/-- The request cannot be queued, and its node stays in the list when it is freed. -/
def unqueuedRun : List Action :=
  [.send 0 true, .send 0 true, .send 0 false, .send 0 true, .forward, .recv, .recv, .recv]

/-- The wait times out while the receiver stands on the node. -/
def timedOutRun : List Action :=
  [.send 0 true, .send 0 true, .send 0 true, .forward, .recv, .recv, .send 0 false, .send 0 true,
    .send 0 true, .recv]

/-- The receiver comes to the node that was left in the list. -/
theorem not_forall_matched :
    ¬∀ (co : CoList) (args : Nat → SendArgs) (msgs : Nat → KeMsg) (actions : List Action),
      ∃ s os, Machine.run (step co args msgs) State.init actions = some (s, os) ∧
        Matched args msgs s := by
  intro h
  obtain ⟨s, os, hrun, -⟩ := h .unlinked scanRequest scanConfirm unqueuedRun
  have hnone : Machine.run (step .unlinked scanRequest scanConfirm) State.init unqueuedRun =
      none := rfl
  rw [hnone] at hrun
  cases hrun

/-- The other way to a freed node: the receiver was already there. -/
example : Machine.run (step .unlinked scanRequest scanConfirm) State.init timedOutRun = none := rfl

end TuyaSdk.RwMsg
