import TuyaSdk.RwMsg.Defs

/-!
# What one step leaves of the calls

`CallOk` lists the views a call may be in: where it stands, its node, whether the node is in the
list or in the receiver's hands, and what came of it. A step of a call changes its own view
only; the receiver changes views only when it takes a node out of the list and when it sets its
semaphore.
-/

namespace TuyaSdk.RwMsg

open TuyaSdk.Lib

@[simp] theorem set_same {α : Type} (f : Nat → α) (t : Nat) (v : α) : set f t v t = v := if_pos rfl

theorem set_ne {α : Type} (f : Nat → α) {t u : Nat} (v : α) (h : u ≠ t) : set f t v u = f u :=
  if_neg h

/-- The receiver has the node of the call, and the list does not. -/
def RecvPc.takes : RecvPc → Nat → Bool
  | .copy _ u _, t => u == t
  | .set _ u _, t => u == t
  | _, _ => false

theorem RecvPc.chosen_of_takes {rx : RecvPc} {t : Nat} (h : rx.takes t = true) :
    rx.chosen t = true := by
  cases rx <;> first | exact h | cases h

/-- All that concerns one call. -/
structure View where
  pc : SendPc
  node : Option MsgSndNode
  queued : Option Bool
  listed : Bool
  taken : Bool
  answers : Nat
  released : List (Nat × Nat)

def view (s : State) (t : Nat) : View where
  pc := s.pc t
  node := s.node t
  queued := s.queued t
  listed := decide (t ∈ s.txHead)
  taken := s.rx.takes t
  answers := s.delivered.countP (·.call == t)
  released := s.released.filter (·.1 == t)

/-- The node of a call. -/
def nodeOf (a : SendArgs) (semaphore : Bool) : MsgSndNode :=
  ⟨keParam2msg a.msgParams, a.reqid, a.cfm, semaphore⟩

/-- A request is pending, in the receiver's hands, or answered. -/
inductive Stage : Bool → Bool → Bool → Nat → Prop where
  | pending : Stage false true false 0
  | taken : Stage false false true 0
  | answered : Stage true false false 1

/-- The views a call may be in. -/
inductive CallOk (t : Nat) (a : SendArgs) : View → Prop where
  | enter : CallOk t a ⟨.enter, none, none, false, false, 0, []⟩
  | push : a.cfm ≠ 0 → CallOk t a ⟨.push, some (nodeOf a false), none, false, false, 0, []⟩
  | plain : a.cfm = 0 → CallOk t a ⟨.queue, none, none, false, false, 0, []⟩
  | queue {sem listed taken : Bool} {answers : Nat} : a.cfm ≠ 0 →
      Stage sem listed taken answers →
      CallOk t a ⟨.queue, some (nodeOf a sem), none, listed, taken, answers, []⟩
  | wait {sem listed taken : Bool} {answers : Nat} : a.cfm ≠ 0 →
      Stage sem listed taken answers →
      CallOk t a ⟨.wait, some (nodeOf a sem), some true, listed, taken, answers, []⟩
  | confirmed : a.cfm ≠ 0 →
      CallOk t a ⟨.confirmed, some (nodeOf a false), some true, false, false, 1, []⟩
  | timedOut : a.cfm ≠ 0 →
      CallOk t a ⟨.timedOut, some (nodeOf a false), some true, true, false, 0, []⟩
  | extracted : a.cfm ≠ 0 →
      CallOk t a ⟨.extracted, some (nodeOf a false), some true, false, false, 0, []⟩
  | success : a.cfm ≠ 0 → CallOk t a ⟨.returned 0, none, some true, false, false, 1, []⟩
  | failure : a.cfm ≠ 0 → CallOk t a ⟨.returned (-1), none, some true, false, false, 0, []⟩
  | sent : a.cfm = 0 → CallOk t a ⟨.returned 0, none, some true, false, false, 0, []⟩
  | unsent : a.cfm = 0 →
      CallOk t a ⟨.returned (-1), none, some false, false, false, 0, [(t, a.msgParams)]⟩

/-- A node in the list is the node of a pending request. -/
theorem CallOk.of_listed {t : Nat} {a : SendArgs} {v : View} (h : CallOk t a v)
    (hl : v.listed = true) :
    a.cfm ≠ 0 ∧ v.node = some (nodeOf a false) ∧ v.answers = 0 ∧ v.taken = false ∧
      (v.pc = .queue ∨ v.pc = .wait ∨ v.pc = .timedOut) := by
  cases h with
  | queue ha hs => cases hs <;> first | exact ⟨ha, rfl, rfl, rfl, Or.inl rfl⟩ | cases hl
  | wait ha hs => cases hs <;> first | exact ⟨ha, rfl, rfl, rfl, Or.inr (Or.inl rfl)⟩ | cases hl
  | timedOut ha => exact ⟨ha, rfl, rfl, rfl, Or.inr (Or.inr rfl)⟩
  | _ => cases hl

/-- A node in the receiver's hands is that of a request that waits for its answer. -/
theorem CallOk.of_taken {t : Nat} {a : SendArgs} {v : View} (h : CallOk t a v)
    (ht : v.taken = true) :
    a.cfm ≠ 0 ∧ v.node = some (nodeOf a false) ∧ v.answers = 0 ∧ v.listed = false := by
  cases h with
  | queue ha hs => cases hs <;> first | exact ⟨ha, rfl, rfl, rfl⟩ | cases ht
  | wait ha hs => cases hs <;> first | exact ⟨ha, rfl, rfl, rfl⟩ | cases ht
  | _ => cases ht

/-- The receiver takes the node of a pending request that has not timed out. -/
theorem CallOk.take {t : Nat} {a : SendArgs} {v : View} (h : CallOk t a v) (hl : v.listed = true)
    (hpc : v.pc ≠ .timedOut) : CallOk t a { v with listed := false, taken := true } := by
  cases h with
  | queue ha hs => cases hs <;> first | exact .queue ha .taken | cases hl
  | wait ha hs => cases hs <;> first | exact .wait ha .taken | cases hl
  | timedOut ha => exact absurd rfl hpc
  | _ => cases hl

/-- The receiver sets the semaphore of the node it has. -/
theorem CallOk.answer {t : Nat} {a : SendArgs} {v : View} (h : CallOk t a v)
    (ht : v.taken = true) :
    CallOk t a { v with node := some (nodeOf a true), taken := false, answers := 1 } := by
  cases h with
  | queue ha hs => cases hs <;> first | exact .queue ha .answered | cases ht
  | wait ha hs => cases hs <;> first | exact .wait ha .answered | cases ht
  | _ => cases ht

/-- Every call is in one of its views. -/
def CallsOk (args : Nat → SendArgs) (s : State) : Prop := ∀ t, CallOk t (args t) (view s t)

theorem CallsOk.update {args : Nat → SendArgs} {s s' : State} {t : Nat} (h : CallsOk args s)
    (ht : CallOk t (args t) (view s' t)) (hother : ∀ u, u ≠ t → view s' u = view s u) :
    CallsOk args s' := by
  intro u
  by_cases hu : u = t
  · exact hu ▸ ht
  · exact hother u hu ▸ h u

theorem CallsOk.same {args : Nat → SendArgs} {s s' : State} (h : CallsOk args s)
    (hsame : ∀ u, view s' u = view s u) : CallsOk args s' := fun u => hsame u ▸ h u

section
variable {co : CoList} {args : Nat → SendArgs} {msgs : Nat → KeMsg} {s s' : State}

theorem decide_mem_erase_ne {l : List Nat} {t u : Nat} (h : u ≠ t) :
    decide (u ∈ l.erase t) = decide (u ∈ l) := by
  rw [decide_eq_decide]
  exact List.mem_erase_of_ne h

theorem filter_append_ne {l : List (Nat × Nat)} {t u : Nat} {p : Nat} (h : u ≠ t) :
    (l ++ [(t, p)]).filter (·.1 == u) = l.filter (·.1 == u) := by
  rw [List.filter_append, List.filter_cons_of_neg (by simpa using Ne.symm h), List.filter_nil,
    List.append_nil]

/-- The call returns after its node is freed. -/
theorem finish_eq {t : Nat} {n : MsgSndNode} {ret : Int} (hn : s.node t = some n) :
    finish s t ret =
      some { s with node := set s.node t none, pc := set s.pc t (.returned ret) } := by
  rw [finish, hn]
  rfl

/-- The node of a call is freed, and only its view changes. -/
theorem finish_calls {t : Nat} {n : MsgSndNode} {ret : Int} {v : View} (h : CallsOk args s)
    (hv : view s t = v) (hn : v.node = some n)
    (ht : CallOk t (args t) { v with node := none, pc := .returned ret }) :
    ∃ s', finish s t ret = some s' ∧ CallsOk args s' := by
  subst hv
  refine ⟨_, finish_eq hn, h.update (t := t) ?_ fun u hu => ?_⟩
  · have : view { s with node := set s.node t none, pc := set s.pc t (.returned ret) } t =
        { view s t with node := none, pc := .returned ret } := by
      simp only [view, set_same]
    exact this ▸ ht
  · simp only [view, set_ne _ _ hu]

/-- A step of a call that keeps to the condition returns, and leaves every call in one of its
views. -/
theorem rwMsgSend_calls {t : Nat} {ok : Bool} (h : CallsOk args s) (hnd : s.txHead.Nodup)
    (hap : Apart args msgs s (.send t ok)) :
    ∃ s', rwMsgSend co args s t ok = some s' ∧ CallsOk args s' := by
  have ht := h t
  generalize hv : view s t = v at ht
  have hpc : s.pc t = v.pc := congrArg View.pc hv
  have hnode : s.node t = v.node := congrArg View.node hv
  have hqueued : s.queued t = v.queued := congrArg View.queued hv
  have hlisted : decide (t ∈ s.txHead) = v.listed := congrArg View.listed hv
  have htaken : s.rx.takes t = v.taken := congrArg View.taken hv
  have hanswers : s.delivered.countP (·.call == t) = v.answers := congrArg View.answers hv
  have hreleased : s.released.filter (·.1 == t) = v.released := congrArg View.released hv
  unfold Apart SendPc.Apart at hap
  unfold rwMsgSend
  cases ht with
  | enter =>
    simp only [hpc] at hap ⊢
    by_cases ha : (args t).cfm = 0
    · rw [if_pos ha]
      refine ⟨_, rfl, h.update (t := t) ?_ fun u hu => by simp only [view, set_ne _ _ hu]⟩
      simp only [view, set_same, hnode, hqueued, hlisted, htaken, hanswers, hreleased]
      exact .plain ha
    · rw [if_neg ha, if_pos (hap ha)]
      refine ⟨_, rfl, h.update (t := t) ?_ fun u hu => by simp only [view, set_ne _ _ hu]⟩
      simp only [view, set_same, hqueued, hlisted, htaken, hanswers, hreleased]
      exact .push ha
  | push ha =>
    simp only [hpc, co.pushBack_eq]
    refine ⟨_, rfl, h.update (t := t) ?_ fun u hu => ?_⟩
    · have hmem : decide (t ∈ s.txHead ++ [t]) = true := by simp
      simp only [view, set_same, hnode, hqueued, htaken, hanswers, hreleased, hmem]
      exact .queue ha .pending
    · have hmem : decide (u ∈ s.txHead ++ [t]) = decide (u ∈ s.txHead) := by simp [hu]
      simp only [view, set_ne _ _ hu, hmem]
  | plain ha =>
    simp only [hpc, if_pos ha]
    cases ok with
    | true =>
      refine ⟨_, rfl, h.update (t := t) ?_ fun u hu => by simp only [view, set_ne _ _ hu]⟩
      simp only [view, set_same, hnode, hlisted, htaken, hanswers, hreleased]
      exact .sent ha
    | false =>
      refine ⟨_, rfl, h.update (t := t) ?_ fun u hu => ?_⟩
      · have hrel : (s.released ++ [(t, (args t).msgParams)]).filter (·.1 == t) =
            [(t, (args t).msgParams)] := by
          rw [List.filter_append, hreleased]
          simp
        simp only [view, set_same, hnode, hlisted, htaken, hanswers, hrel]
        exact .unsent ha
      · simp only [view, set_ne _ _ hu, filter_append_ne hu]
  | queue ha hs =>
    simp only [hpc] at hap
    simp only [hpc, hap ha, if_neg ha]
    refine ⟨_, rfl, h.update (t := t) ?_ fun u hu => by simp only [view, set_ne _ _ hu]⟩
    simp only [view, set_same, hnode, hlisted, htaken, hanswers, hreleased]
    exact .wait ha hs
  | wait ha hs =>
    simp only [hpc, hnode, Option.map_some] at hap ⊢
    have hclear : ¬(nodeOf (args t) false).semaphore = true := Bool.false_ne_true
    cases hs with
    | answered =>
      rw [if_pos (show (nodeOf (args t) true).semaphore = true from rfl)]
      refine ⟨_, rfl, h.update (t := t) ?_ fun u hu => by simp only [view, set_ne _ _ hu]⟩
      simp only [view, set_same, hqueued, hlisted, htaken, hanswers, hreleased]
      exact .confirmed ha
    | pending =>
      rw [if_neg hclear]
      cases ok with
      | true => exact ⟨s, rfl, h⟩
      | false =>
        rw [if_neg Bool.false_ne_true]
        refine ⟨_, rfl, h.update (t := t) ?_ fun u hu => by simp only [view, set_ne _ _ hu]⟩
        simp only [view, set_same, hnode, hqueued, hlisted, htaken, hanswers, hreleased]
        exact .timedOut ha
    | taken =>
      rw [if_neg hclear]
      cases ok with
      | true => exact ⟨s, rfl, h⟩
      | false =>
        have hchosen : s.rx.chosen t = true := RecvPc.chosen_of_takes htaken
        rw [hap rfl] at hchosen
        cases hchosen
  | confirmed ha =>
    simp only [hpc]
    exact finish_calls h hv rfl (.success ha)
  | timedOut ha =>
    simp only [hpc, co.extract_eq]
    refine ⟨_, rfl, h.update (t := t) ?_ fun u hu => ?_⟩
    · have hmem : decide (t ∈ s.txHead.erase t) = false := by simp [hnd.mem_erase_iff]
      simp only [view, set_same, hnode, hqueued, htaken, hanswers, hreleased, hmem]
      exact .extracted ha
    · simp only [view, set_ne _ _ hu, decide_mem_erase_ne hu]
  | extracted ha =>
    simp only [hpc]
    exact finish_calls h hv rfl (.failure ha)
  | success _ | failure _ | sent _ | unsent _ =>
    simp only [hpc]
    exact ⟨s, rfl, h⟩

end

end TuyaSdk.RwMsg
