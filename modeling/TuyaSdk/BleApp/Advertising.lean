import TuyaSdk.BleApp.Defs

/-!
# The advertising state machine

The calls of the application and the answers of the controller, in the order of the commands.
Between calls `adv_state` waits for the answer of the one command sent last, unless the command
was not sent for the length of its data, or the answer of a stop or a deletion is an error.
-/

namespace TuyaSdk.BleApp

open TuyaSdk.Lib

/-- The calls on the advertising, and the events that follow from them. -/
inductive AdvInput where
  | startAdvertising
  | stopAdvertising
  | updataAdvData (length : UInt16) (data : Buf)
  | updataScanRspData (length : UInt16) (data : Buf)
  | updateAdvData (advBuff : Buf) (advLen : UInt8)
  | commonEvt (status : UInt8)
  | activityCreatedInd (actvIdx : UInt8)
  | activityStoppedInd

def AdvInput.toInput : AdvInput → Input
  | startAdvertising => .startAdvertising
  | stopAdvertising => .stopAdvertising
  | updataAdvData length data => .updataAdvData length data
  | updataScanRspData length data => .updataScanRspData length data
  | updateAdvData advBuff advLen => .updateAdvData advBuff advLen
  | commonEvt status => .commonEvt 0 status
  | activityCreatedInd actvIdx => .activityCreatedInd .adv actvIdx
  | activityStoppedInd => .activityStoppedInd .adv

/-- Commands are answered in the order in which they were sent. -/
def advStep : Machine State AdvInput Output := fun s input => step s input.toInput

/-- The state waits for an answer. -/
def AdvState.Transitional : AdvState → Prop
  | idle | created | started | waitingDelete => False
  | _ => True

/-- A state that waits for an answer will get it, and a state that does not is that of the
activity. -/
structure AdvOk (s : State) : Prop where
  waiting : s.advState.Transitional → ∃ cmd, s.outstanding = [cmd] ∧ s.advOp = some cmd.operation
  started : s.outstanding = [] → s.advState = .started → s.advActv = .running
  idle : s.outstanding = [] → s.advState = .idle → s.advActv = .none

/-- No `ASSERT` fails, and every state of the run is as it should be. -/
def AdvKept (advInfo : AdvInfo) (inputs : List AdvInput) : Prop :=
  (Machine.run advStep (State.init advInfo) inputs).isSome ∧
    ∀ n s os, Machine.run advStep (State.init advInfo) (inputs.take n) = some (s, os) → AdvOk s

/-- The answer to the command that `adv_state` waits for, with the controller's activity: the
next command has data that it can send, a start that is disallowed is no start, a stop and a
deletion succeed, and an activity whose data were updated still runs. -/
def AnswerOk (s : State) (status : UInt8) : Prop :=
  match s.advState with
  | .creating => status = gapErrNoError → s.advIndicated = true →
      s.advInfo.advDataLen ≤ advDataLenMax
  | .settingAdvData => status = gapErrNoError → s.advInfo.respDataLen ≤ advDataLenMax
  | .starting => status ≠ gapErrCommandDisallowed
  | .stopping | .deleteing => status = gapErrNoError
  | .updataAdvData | .updataScanRspData | .updata2ScanRspData => s.advActv = .running
  | .updata2AdvData =>
    if status = gapErrNoError then s.advInfo.respDataLen ≤ advDataLenMax else s.advActv = .running
  | .idle | .settingScanRspData | .created | .started | .waitingDelete => True

/-- New data that are not refused can be sent, and answers are as in `AnswerOk`. -/
def AdvInputOk (s : State) : AdvInput → Prop
  | .updataAdvData length data => bleAppGapmAdvCheckDataSanity length data = true →
      s.advState = .created ∨ s.advState = .started → length.toUInt8 ≤ advDataLenMax
  | .updataScanRspData length _ =>
      s.advState = .created ∨ s.advState = .started → length.toUInt8 ≤ advDataLenMax
  | .updateAdvData _ advLen => s.advState = .started → advLen ≤ advDataLenMax
  | .commonEvt status => AnswerOk s status
  | _ => True

/-! ## The invariant -/

/-- The one command that waits for its answer is for the advertising, and `adv_op` names it. -/
def Waits (s : State) (operation : Operation) : Prop :=
  s.advOp = some operation ∧
    ∃ cmd, s.outstanding = [cmd] ∧ cmd.operation = operation ∧ cmd.owner = .adv

/-- What `adv_state` says of the commands and of the activity. -/
def AdvInv (s : State) : Prop :=
  s.scanState = .idle ∧
  match s.advState with
  | .idle => s.outstanding = [] ∧ s.advActv = .none
  | .creating => Waits s .createAdvActivity ∧ s.advActv = .none
  | .settingAdvData => Waits s .setAdvData ∧ s.advActv = .created
  | .settingScanRspData => Waits s .setScanRspData ∧ s.advActv = .created
  | .starting => Waits s .startActivity ∧ s.advActv = .created
  | .started => s.outstanding = [] ∧ s.advActv = .running
  | .updataAdvData | .updata2AdvData => Waits s .setAdvData ∧ s.advActv ≠ .none
  | .updataScanRspData | .updata2ScanRspData => Waits s .setScanRspData ∧ s.advActv ≠ .none
  | .stopping => Waits s .stopActivity ∧ s.advActv ≠ .none
  | .deleteing => Waits s .deleteActivity ∧ s.advActv = .created
  | .created | .waitingDelete => False

variable {s s' : State}

theorem advInv_init (advInfo : AdvInfo) : AdvInv (State.init advInfo) := ⟨rfl, rfl, rfl⟩

/-- The command waited for is the only one. -/
theorem Waits.outstanding {operation : Operation} (h : Waits s operation) :
    ∃ cmd, s.outstanding = [cmd] ∧ s.advOp = some cmd.operation := by
  obtain ⟨hop, cmd, hcmd, hoperation, -⟩ := h
  exact ⟨cmd, hcmd, by rw [hop, hoperation]⟩

theorem Waits.not_settled {operation : Operation} (h : Waits s operation) :
    s.outstanding ≠ [] := by
  obtain ⟨-, cmd, hcmd, -⟩ := h
  rw [hcmd]
  exact List.cons_ne_nil _ _

theorem AdvOk.of_waits {operation : Operation} (h : Waits s operation) : AdvOk s where
  waiting _ := h.outstanding
  started hnil _ := absurd hnil h.not_settled
  idle hnil _ := absurd hnil h.not_settled

theorem AdvInv.advOk (h : AdvInv s) : AdvOk s := by
  obtain ⟨-, h⟩ := h
  cases hst : s.advState <;> rw [hst] at h <;>
    first
    | exact AdvOk.of_waits h.1
    | exact h.elim
    | skip
  · refine ⟨fun ht => ?_, fun _ hs => ?_, fun _ _ => h.2⟩
    · rw [hst] at ht
      exact ht.elim
    · rw [hst] at hs
      cases hs
  · refine ⟨fun ht => ?_, fun _ _ => h.2, fun _ hs => ?_⟩
    · rw [hst] at ht
      exact ht.elim
    · rw [hst] at hs
      cases hs

/-! ## What comes after an answer -/

/-- No command waits for an answer, and there is no scan. -/
structure Settled (s : State) : Prop where
  outstanding : s.outstanding = []
  scanState : s.scanState = .idle

/-- A state that waits for no command. -/
theorem Settled.stuck (h : Settled s) (htrans : s.advState.Transitional) : ¬AdvOk s := by
  intro hok
  obtain ⟨cmd, hcmd, -⟩ := hok.waiting htrans
  rw [h.outstanding] at hcmd
  cases hcmd

theorem Settled.waits (h : Settled s) {cmd : Cmd} (howner : cmd.owner = .adv) :
    Waits (s.sendAdv cmd) cmd.operation := by
  refine ⟨rfl, cmd, ?_, rfl, howner⟩
  change s.outstanding ++ [cmd] = [cmd]
  rw [h.outstanding, List.nil_append]

theorem Settled.started (h : Settled s) :
    (s.advActv = .running → AdvInv { s with advState := .started }) ∧
      (s.advActv ≠ .running → ¬AdvOk { s with advState := .started }) := by
  refine ⟨fun hrun => ⟨h.scanState, h.outstanding, hrun⟩, fun hrun hok => ?_⟩
  exact hrun (hok.started h.outstanding rfl)

theorem Settled.idle (h : Settled s) (hnone : s.advActv = .none) :
    AdvInv { s with advState := .idle } :=
  ⟨h.scanState, h.outstanding, hnone⟩

theorem Settled.delete (h : Settled s) (hactv : s.advActv = .created) :
    AdvInv (appmDeleteAdvertising s) :=
  ⟨h.scanState, Settled.waits ⟨h.outstanding, h.scanState⟩ rfl, hactv⟩

theorem Settled.create (h : Settled s) (hidle : s.advState = .idle) (hnone : s.advActv = .none) :
    AdvInv (appmCreateAdvertising s) := by
  rw [appmCreateAdvertising, if_pos hidle]
  have hwaits : Waits (s.sendAdv (.createAdv s.advInfo.channelMap
      s.advInfo.intervalMin.toUInt32 s.advInfo.intervalMax.toUInt32)) .createAdvActivity :=
    h.waits rfl
  exact ⟨h.scanState, hwaits, hnone⟩

theorem Settled.startCmd (h : Settled s) (hst : s.advState = .settingScanRspData)
    (hactv : s.advActv = .created) : AdvInv (appmStartAdvertisingCmd s) := by
  rw [appmStartAdvertisingCmd, if_pos (Or.inr hst)]
  exact ⟨h.scanState, Settled.waits ⟨h.outstanding, h.scanState⟩ rfl, hactv⟩

theorem Settled.stop (h : Settled s) (hst : s.advState = .started) (hactv : s.advActv ≠ .none) :
    AdvInv (appmStopAdvertising s).1 := by
  rw [appmStopAdvertising, if_pos hst]
  exact ⟨h.scanState, Settled.waits ⟨h.outstanding, h.scanState⟩ rfl, hactv⟩

/-! ### Data -/

/-- Data that are too long are not sent. -/
theorem bleAppmSetAdvData_eq (s : State) (idx : UInt8) (buff : Buf) (len : UInt8) :
    (bleAppmSetAdvData s idx buff len).1 =
      if len ≤ advDataLenMax then s.sendAdv (.setAdvData idx (copied buff len)) else s := by
  rw [bleAppmSetAdvData]
  by_cases h : len ≤ advDataLenMax
  · rw [if_pos h, if_neg fun hlong => absurd h (UInt8.not_le.mpr hlong.1)]
  · have hlong : advDataLenMax < len := UInt8.not_le.mp h
    have hrem : advDataLenMax - 3 < len := UInt8.lt_trans (by decide) hlong
    rw [if_neg h, if_pos ⟨hlong, hrem⟩]

theorem bleAppmSetScanRspData_eq (s : State) (idx : UInt8) (buff : Buf) (len : UInt8) :
    (bleAppmSetScanRspData s idx buff len).1 =
      if len ≤ advDataLenMax then s.sendAdv (.setScanRspData idx (copied buff len)) else s := by
  rw [bleAppmSetScanRspData, ite_not]
  split <;> rfl

theorem bleAppmUpdateAdvData_eq (s : State) (idx : UInt8) (buff : Buf) (len : UInt8) :
    (bleAppmUpdateAdvData s idx buff len).1 =
      if len ≤ advDataLenMax then s.sendAdv (.setAdvData idx (copied buff len)) else s := by
  rw [bleAppmUpdateAdvData]
  split <;> rfl

/-- A state that waits for the answer to data, which are sent if they fit. -/
theorem Settled.data (h : Settled s) (htrans : s.advState.Transitional) {len : UInt8} {cmd : Cmd}
    (hinv : Waits (s.sendAdv cmd) cmd.operation → AdvInv (s.sendAdv cmd))
    (howner : cmd.owner = .adv) :
    (len ≤ advDataLenMax → AdvInv (if len ≤ advDataLenMax then s.sendAdv cmd else s)) ∧
      (¬len ≤ advDataLenMax → ¬AdvOk (if len ≤ advDataLenMax then s.sendAdv cmd else s)) := by
  refine ⟨fun hlen => ?_, fun hlen => ?_⟩
  · rw [if_pos hlen]
    exact hinv (h.waits howner)
  · rw [if_neg hlen]
    exact h.stuck htrans

theorem Settled.setAdvData (h : Settled s) (hactv : s.advActv = .created) :
    (s.advInfo.advDataLen ≤ advDataLenMax → AdvInv (appmSetAdvData s)) ∧
      (¬s.advInfo.advDataLen ≤ advDataLenMax → ¬AdvOk (appmSetAdvData s)) := by
  rw [appmSetAdvData, bleAppmSetAdvData_eq]
  refine Settled.data ?_ ?_ (fun hw => ?_) ?_
  · exact ⟨h.outstanding, h.scanState⟩
  · trivial
  · exact ⟨h.scanState, hw, hactv⟩
  · rfl

theorem Settled.setScanRspData (h : Settled s) (hactv : s.advActv = .created) :
    (s.advInfo.respDataLen ≤ advDataLenMax → AdvInv (appmSetScanRspData s)) ∧
      (¬s.advInfo.respDataLen ≤ advDataLenMax → ¬AdvOk (appmSetScanRspData s)) := by
  rw [appmSetScanRspData, bleAppmSetScanRspData_eq]
  refine Settled.data ?_ ?_ (fun hw => ?_) ?_
  · exact ⟨h.outstanding, h.scanState⟩
  · trivial
  · exact ⟨h.scanState, hw, hactv⟩
  · rfl

theorem Settled.updateAdvScan (h : Settled s) (hactv : s.advActv ≠ .none) :
    (s.advInfo.respDataLen ≤ advDataLenMax → AdvInv (appmUpdateAdvScanHandler s)) ∧
      (¬s.advInfo.respDataLen ≤ advDataLenMax → ¬AdvOk (appmUpdateAdvScanHandler s)) := by
  rw [appmUpdateAdvScanHandler, bleAppmSetScanRspData_eq]
  refine Settled.data ?_ ?_ (fun hw => ?_) ?_
  · exact ⟨h.outstanding, h.scanState⟩
  · trivial
  · exact ⟨h.scanState, hw, hactv⟩
  · rfl

/-! ## Answers -/

/-- What a command for the advertising does to the activity when it succeeds. -/
def actvAfter (actv : Actv) : Operation → Actv
  | .createAdvActivity | .stopActivity => .created
  | .startActivity => .running
  | .deleteActivity => .none
  | _ => actv

theorem answer_advActv {k : Nat} {cmd : Cmd} {status : UInt8} (howner : cmd.owner = .adv) :
    (s.answer k cmd status).advActv =
      if status = gapErrNoError then actvAfter s.advActv cmd.operation else s.advActv := by
  rw [State.answer]
  by_cases hstatus : status = gapErrNoError
  · rw [if_pos hstatus, if_pos hstatus]
    cases cmd with
    | createScan => cases howner
    | start type idx =>
      cases type with
      | adv => rfl
      | scan => cases howner
    | stop type idx =>
      cases type with
      | adv => rfl
      | scan => cases howner
    | _ => rfl
  · rw [if_neg hstatus, if_neg hstatus]
    cases cmd <;> rfl

/-- The state in which the answer is looked at. -/
structure Answered (s t : State) (operation : Operation) (status : UInt8) : Prop where
  settled : Settled t
  advState : t.advState = s.advState
  advOp : t.advOp = some operation
  advInfo : t.advInfo = s.advInfo
  advActv : t.advActv =
    if status = gapErrNoError then actvAfter s.advActv operation else s.advActv
  step : advStep s (.commonEvt status) =
    (bleCommonEventCallbackHandler t operation status).map fun r => (r.1, .event r.2)

theorem Waits.answered {operation : Operation} (h : Waits s operation)
    (hscan : s.scanState = .idle) (status : UInt8)
    (hans : operation = .createAdvActivity → status = gapErrNoError → s.advIndicated = true) :
    ∃ t, Answered s t operation status := by
  obtain ⟨hop, cmd, hcmd, rfl, howner⟩ := h
  have hcan : s.Answers cmd status := by
    intro hcreates
    cases cmd with
    | createAdv chnlMap intvMin intvMax => exact hans rfl hcreates.2
    | createScan => cases howner
    | start type idx => cases hcreates.1
    | stop type idx => cases hcreates.1
    | delete idx => cases hcreates.1
    | setAdvData idx data => cases hcreates.1
    | setScanRspData idx data => cases hcreates.1
  have hstep : advStep s (.commonEvt status) =
      (bleCommonEventCallbackHandler (s.answer 0 cmd status) cmd.operation status).map
        fun r => (r.1, .event r.2) := by
    rw [advStep, AdvInput.toInput, step, hcmd]
    exact if_pos hcan
  obtain ⟨hstate, hadvOp, hscanState, hinfo, hout⟩ := s.answer_app 0 cmd status
  refine ⟨s.answer 0 cmd status, ⟨?_, hscanState.trans hscan⟩, hstate, hadvOp.trans hop, hinfo,
    answer_advActv howner, hstep⟩
  rw [hout, hcmd]
  rfl

/-- The step, and what it leaves. -/
def Follows (s : State) (input : AdvInput) (ok : Prop) : Prop :=
  ∃ s' o, advStep s input = some (s', o) ∧ (ok → AdvInv s') ∧ (¬ok → ¬AdvOk s')

/-- `appm_adv_fsm_next`, and what it leaves. -/
def Goes (s : State) (flag : Bool) (ok : Prop) : Prop :=
  ∃ s', appmAdvFsmNext s flag = some s' ∧ (ok → AdvInv s') ∧ (¬ok → ¬AdvOk s')

theorem Goes.of_inv {flag : Bool} {ok : Prop} (s' : State)
    (hnext : appmAdvFsmNext s flag = some s') (hok : ok) (h : AdvInv s') : Goes s flag ok :=
  ⟨s', hnext, fun _ => h, fun hno => absurd hok hno⟩

theorem Goes.congr {flag : Bool} {ok ok' : Prop} (h : Goes s flag ok) (hiff : ok' ↔ ok) :
    Goes s flag ok' := by
  obtain ⟨s', hs', hkeep, hlose⟩ := h
  exact ⟨s', hs', fun hok => hkeep (hiff.mp hok), fun hno => hlose fun hok => hno (hiff.mpr hok)⟩

theorem Follows.congr {input : AdvInput} {ok ok' : Prop} (h : Follows s input ok)
    (hiff : ok' ↔ ok) : Follows s input ok' := by
  obtain ⟨s', o, hs', hkeep, hlose⟩ := h
  refine ⟨s', o, hs', fun hok => hkeep (hiff.mp hok), fun hno => hlose fun hok => ?_⟩
  exact hno (hiff.mpr hok)

namespace Answered

variable {t : State} {operation : Operation} {status : UInt8} {ok : Prop}

/-- The answer to a creation or to data. -/
theorem next (h : Answered s t operation status)
    (hop : operation = .createAdvActivity ∨ operation = .setAdvData ∨ operation = .setScanRspData)
    (hnext : Goes t (status ≠ gapErrNoError) ok) : Follows s (.commonEvt status) ok := by
  obtain ⟨s', hs', hkept⟩ := hnext
  refine ⟨s', .event (notice t.advState operation status), ?_, hkept⟩
  have hhandler : bleCommonEventCallbackHandler t operation status =
      (appmAdvFsmNext t (status ≠ gapErrNoError)).map
        (·, notice t.advState operation status) := by
    rcases hop with rfl | rfl | rfl <;> exact if_pos h.advOp
  rw [h.step, hhandler, hs']
  rfl

theorem creating (h : Answered s t .createAdvActivity status) (hst : s.advState = .creating)
    (hactv : s.advActv = .none) :
    Goes t (status ≠ gapErrNoError)
      (status = gapErrNoError → s.advInfo.advDataLen ≤ advDataLenMax) := by
  have hstate := h.advState.trans hst
  by_cases hstatus : status = gapErrNoError
  · have hcreated : t.advActv = .created := by rw [h.advActv, if_pos hstatus]; rfl
    refine ⟨appmSetAdvData t, ?_, ?_⟩
    · rw [appmAdvFsmNext, hstate, decide_eq_false (not_not_intro hstatus)]
      rfl
    · rw [← h.advInfo, forall_prop_of_true hstatus]
      exact h.settled.setAdvData hcreated
  · refine Goes.of_inv { t with advState := .idle } ?_ (fun hok => absurd hok hstatus) ?_
    · rw [appmAdvFsmNext, hstate, decide_eq_true hstatus]
      rfl
    · exact h.settled.idle (by rw [h.advActv, if_neg hstatus, hactv])

theorem settingAdvData (h : Answered s t .setAdvData status)
    (hst : s.advState = .settingAdvData) (hactv : s.advActv = .created) :
    Goes t (status ≠ gapErrNoError)
      (status = gapErrNoError → s.advInfo.respDataLen ≤ advDataLenMax) := by
  have hstate := h.advState.trans hst
  have hcreated : t.advActv = .created := by rw [h.advActv]; split <;> exact hactv
  by_cases hstatus : status = gapErrNoError
  · refine ⟨appmSetScanRspData t, ?_, ?_⟩
    · rw [appmAdvFsmNext, hstate, decide_eq_false (not_not_intro hstatus)]
      rfl
    · rw [← h.advInfo, forall_prop_of_true hstatus]
      exact h.settled.setScanRspData hcreated
  · refine Goes.of_inv (appmDeleteAdvertising t) ?_ (fun hok => absurd hok hstatus) ?_
    · rw [appmAdvFsmNext, hstate, decide_eq_true hstatus]
      rfl
    · exact h.settled.delete hcreated

theorem settingScanRspData (h : Answered s t .setScanRspData status)
    (hst : s.advState = .settingScanRspData) (hactv : s.advActv = .created) :
    Goes t (status ≠ gapErrNoError) True := by
  have hstate := h.advState.trans hst
  have hcreated : t.advActv = .created := by rw [h.advActv]; split <;> exact hactv
  by_cases hstatus : status = gapErrNoError
  · refine Goes.of_inv (appmStartAdvertisingCmd t) ?_ trivial ?_
    · rw [appmAdvFsmNext, hstate, decide_eq_false (not_not_intro hstatus)]
      rfl
    · exact h.settled.startCmd hstate hcreated
  · refine Goes.of_inv (appmDeleteAdvertising t) ?_ trivial ?_
    · rw [appmAdvFsmNext, hstate, decide_eq_true hstatus]
      rfl
    · exact h.settled.delete hcreated

/-- The answer to the last data of an update. -/
theorem updata (h : Answered s t operation status)
    (hop : operation = .setAdvData ∨ operation = .setScanRspData) (flag : Bool)
    (hnext : appmAdvFsmNext t flag = some { t with advState := .started }) :
    Goes t flag (s.advActv = .running) := by
  have hactv : t.advActv = s.advActv := by
    rw [h.advActv]
    rcases hop with rfl | rfl <;> split <;> rfl
  rw [← hactv]
  exact ⟨_, hnext, h.settled.started⟩

theorem updata2AdvData (h : Answered s t .setAdvData status) (hst : s.advState = .updata2AdvData)
    (hactv : s.advActv ≠ .none) :
    Goes t (status ≠ gapErrNoError)
      (if status = gapErrNoError then s.advInfo.respDataLen ≤ advDataLenMax
        else s.advActv = .running) := by
  have hstate := h.advState.trans hst
  have hsame : t.advActv = s.advActv := by rw [h.advActv]; split <;> rfl
  by_cases hstatus : status = gapErrNoError
  · rw [if_pos hstatus, ← h.advInfo]
    refine ⟨appmUpdateAdvScanHandler t, ?_, h.settled.updateAdvScan (hsame ▸ hactv)⟩
    rw [appmAdvFsmNext, hstate, decide_eq_false (not_not_intro hstatus)]
    rfl
  · rw [if_neg hstatus]
    refine h.updata (Or.inl rfl) _ ?_
    rw [appmAdvFsmNext, hstate, decide_eq_true hstatus]
    rfl

/-- The answer to a start; there is no scan that starts. -/
theorem starting (h : Answered s t .startActivity status) (hst : s.advState = .starting)
    (hactv : s.advActv = .created) :
    Follows s (.commonEvt status) (status ≠ gapErrCommandDisallowed) := by
  have hstate := h.advState.trans hst
  have hnext : advNextIn t .starting false = some { t with advState := .started } := by
    rw [advNextIn, if_pos hstate, appmAdvFsmNext, hstate]
    rfl
  by_cases hstatus : status = gapErrNoError
  · refine ⟨{ t with advState := .started }, .event none, ?_, fun _ => ?_, fun hno => ?_⟩
    · rw [h.step, bleCommonEventCallbackHandler, if_pos hstatus, hnext]
      change some (scanNextIn _ _, _) = _
      rw [scanNextIn, if_neg]
      change ¬t.scanState = .starting
      rw [h.settled.scanState]
      exact nofun
    · exact h.settled.started.1 (by rw [h.advActv, if_pos hstatus]; rfl)
    · exact absurd (fun hdis => nomatch hstatus.symm.trans hdis) hno
  · have hcreated : t.advActv = .created := by rw [h.advActv, if_neg hstatus, hactv]
    by_cases hdis : status = gapErrCommandDisallowed
    · refine ⟨{ t with advState := .started }, .event none, ?_, fun hok => absurd hdis hok,
        fun _ => h.settled.started.2 (by rw [hcreated]; exact nofun)⟩
      rw [h.step, bleCommonEventCallbackHandler, if_neg hstatus,
        decide_eq_false (not_not_intro hdis), hnext]
      rfl
    · refine ⟨appmDeleteAdvertising t, .event none, ?_, fun _ => h.settled.delete hcreated,
        fun hno => absurd hdis hno⟩
      rw [h.step, bleCommonEventCallbackHandler, if_neg hstatus, decide_eq_true hdis, advNextIn,
        if_pos hstate, appmAdvFsmNext, hstate]
      rfl

/-- The answer to a stop. -/
theorem stopping (h : Answered s t .stopActivity status) (hst : s.advState = .stopping) :
    Follows s (.commonEvt status) (status = gapErrNoError) := by
  have hstate := h.advState.trans hst
  by_cases hstatus : status = gapErrNoError
  · refine ⟨appmDeleteAdvertising t, .event none, ?_, fun _ => ?_, fun hno => absurd hstatus hno⟩
    · have hnext : advNextIn t .stopping false = some (appmDeleteAdvertising t) := by
        rw [advNextIn, if_pos hstate, appmAdvFsmNext, hstate]
      rw [h.step, bleCommonEventCallbackHandler, if_pos hstatus, hnext]
      change some (scanNextIn _ _, _) = _
      rw [scanNextIn, if_neg]
      change ¬t.scanState = .stopping
      rw [h.settled.scanState]
      exact nofun
    · exact h.settled.delete (by rw [h.advActv, if_pos hstatus]; rfl)
  · refine ⟨t, .event none, ?_, fun hok => absurd hok hstatus, fun _ => ?_⟩
    · rw [h.step, bleCommonEventCallbackHandler, if_neg hstatus]
      rfl
    · exact h.settled.stuck (by rw [hstate]; trivial)

/-- The answer to a deletion. -/
theorem deleteing (h : Answered s t .deleteActivity status) (hst : s.advState = .deleteing) :
    Follows s (.commonEvt status) (status = gapErrNoError) := by
  have hstate := h.advState.trans hst
  by_cases hstatus : status = gapErrNoError
  · refine ⟨{ t with advState := .idle }, .event none, ?_, fun _ => ?_,
      fun hno => absurd hstatus hno⟩
    · rw [h.step, bleCommonEventCallbackHandler, if_pos hstatus, advNextIn, if_pos hstate,
        appmAdvFsmNext, hstate]
      rfl
    · exact h.settled.idle (by rw [h.advActv, if_pos hstatus]; rfl)
  · refine ⟨t, .event none, ?_, fun hok => absurd hok hstatus, fun _ => ?_⟩
    · rw [h.step, bleCommonEventCallbackHandler, if_neg hstatus]
      rfl
    · exact h.settled.stuck (by rw [hstate]; trivial)

end Answered

/-! ## Steps -/

/-- Nothing happens. -/
theorem Follows.same {input : AdvInput} {o : Output} {ok : Prop} (h : AdvInv s) (hok : ok)
    (hstep : advStep s input = some (s, o)) : Follows s input ok :=
  ⟨s, o, hstep, fun _ => h, fun hno => absurd hok hno⟩

/-- Without a command there is no answer. -/
theorem commonEvt_none (hout : s.outstanding = []) (status : UInt8) :
    advStep s (.commonEvt status) = some (s, .event none) := by
  rw [advStep, AdvInput.toInput, step, hout]
  rfl

/-- A creation does not succeed before it was indicated. -/
theorem Waits.commonEvt_early (h : Waits s .createAdvActivity)
    (hind : ¬s.advIndicated = true) : advStep s (.commonEvt gapErrNoError) =
      some (s, .event none) := by
  obtain ⟨-, cmd, hcmd, hop, howner⟩ := h
  have hcreates : cmd.creates = true ∧ s.indicated cmd.owner = s.advIndicated := by
    rw [howner]
    cases cmd <;> first | exact ⟨rfl, rfl⟩ | cases hop
  have hnot : ¬s.Answers cmd gapErrNoError := by
    intro hans
    exact hind (hcreates.2 ▸ hans ⟨hcreates.1, rfl⟩)
  rw [advStep, AdvInput.toInput, step, hcmd]
  exact if_neg hnot

theorem AdvInv.commonEvt (h : AdvInv s) (status : UInt8) :
    Follows s (.commonEvt status) (AnswerOk s status) := by
  have hinv := h
  obtain ⟨hscan, h⟩ := h
  unfold AnswerOk
  cases hst : s.advState <;> rw [hst] at h
  case idle => exact Follows.same hinv trivial (commonEvt_none h.1 status)
  case started => exact Follows.same hinv trivial (commonEvt_none h.1 status)
  case created => exact h.elim
  case waitingDelete => exact h.elim
  case creating =>
    by_cases hans : status = gapErrNoError → s.advIndicated = true
    · obtain ⟨t, ht⟩ := h.1.answered hscan status fun _ => hans
      refine (ht.next (Or.inl rfl) (ht.creating hst h.2)).congr ?_
      exact ⟨fun hok hstatus => hok hstatus (hans hstatus), fun hok hstatus _ => hok hstatus⟩
    · obtain ⟨rfl, hind⟩ := Classical.not_imp.mp hans
      exact Follows.same hinv (fun _ hyes => absurd hyes hind) (h.1.commonEvt_early hind)
  case settingAdvData =>
    obtain ⟨t, ht⟩ := h.1.answered hscan status nofun
    exact ht.next (Or.inr (Or.inl rfl)) (ht.settingAdvData hst h.2)
  case settingScanRspData =>
    obtain ⟨t, ht⟩ := h.1.answered hscan status nofun
    exact ht.next (Or.inr (Or.inr rfl)) (ht.settingScanRspData hst h.2)
  case starting =>
    obtain ⟨t, ht⟩ := h.1.answered hscan status nofun
    exact ht.starting hst h.2
  case stopping =>
    obtain ⟨t, ht⟩ := h.1.answered hscan status nofun
    exact ht.stopping hst
  case deleteing =>
    obtain ⟨t, ht⟩ := h.1.answered hscan status nofun
    exact ht.deleteing hst
  case updataAdvData =>
    obtain ⟨t, ht⟩ := h.1.answered hscan status nofun
    refine ht.next (Or.inr (Or.inl rfl)) (ht.updata (Or.inl rfl) _ ?_)
    rw [appmAdvFsmNext, ht.advState.trans hst]
  case updataScanRspData =>
    obtain ⟨t, ht⟩ := h.1.answered hscan status nofun
    refine ht.next (Or.inr (Or.inr rfl)) (ht.updata (Or.inr rfl) _ ?_)
    rw [appmAdvFsmNext, ht.advState.trans hst]
  case updata2AdvData =>
    obtain ⟨t, ht⟩ := h.1.answered hscan status nofun
    exact ht.next (Or.inr (Or.inl rfl)) (ht.updata2AdvData hst h.2)
  case updata2ScanRspData =>
    obtain ⟨t, ht⟩ := h.1.answered hscan status nofun
    refine ht.next (Or.inr (Or.inr rfl)) (ht.updata (Or.inr rfl) _ ?_)
    rw [appmAdvFsmNext, ht.advState.trans hst]

/-- Before a call on the running activity. -/
theorem AdvInv.of_started (h : AdvInv s) (hst : s.advState = .started) :
    Settled s ∧ s.advActv = .running := by
  obtain ⟨hscan, h⟩ := h
  rw [hst] at h
  exact ⟨⟨h.1, hscan⟩, h.2⟩

theorem AdvInv.of_idle (h : AdvInv s) (hst : s.advState = .idle) :
    Settled s ∧ s.advActv = .none := by
  obtain ⟨hscan, h⟩ := h
  rw [hst] at h
  exact ⟨⟨h.1, hscan⟩, h.2⟩

theorem AdvInv.not_created (h : AdvInv s) : s.advState ≠ .created := by
  intro hst
  obtain ⟨-, h⟩ := h
  rw [hst] at h
  exact h

theorem AdvInv.not_waitingDelete (h : AdvInv s) : s.advState ≠ .waitingDelete := by
  intro hst
  obtain ⟨-, h⟩ := h
  rw [hst] at h
  exact h

theorem AdvInv.updataAdvData (h : AdvInv s) (length : UInt16) (data : Buf) :
    Follows s (.updataAdvData length data) (AdvInputOk s (.updataAdvData length data)) := by
  refine ⟨_, _, rfl, ?_⟩
  rw [appmUpdataAdvData, AdvInputOk]
  by_cases hsane : bleAppGapmAdvCheckDataSanity length data = true
  · rw [if_neg (not_not_intro hsane), forall_prop_of_true hsane]
    by_cases hst : s.advState = .created ∨ s.advState = .started
    · obtain ⟨hset, hrun⟩ := h.of_started (hst.resolve_left h.not_created)
      rw [if_pos hst, forall_prop_of_true hst]
      dsimp only
      rw [bleAppmUpdateAdvData_eq]
      have hne : s.advActv ≠ .none := by rw [hrun]; exact nofun
      refine Settled.data ?_ ?_ (fun hw => ?_) ?_
      · exact ⟨hset.outstanding, hset.scanState⟩
      · trivial
      · exact ⟨hset.scanState, hw, hne⟩
      · rfl
    · rw [if_neg hst]
      exact ⟨fun _ => h, fun hno => absurd (fun hyes => absurd hyes hst) hno⟩
  · rw [if_pos hsane]
    exact ⟨fun _ => h, fun hno => absurd (fun hyes => absurd hyes hsane) hno⟩

theorem AdvInv.updataScanRspData (h : AdvInv s) (length : UInt16) (data : Buf) :
    Follows s (.updataScanRspData length data)
      (AdvInputOk s (.updataScanRspData length data)) := by
  refine ⟨_, _, rfl, ?_⟩
  rw [appmUpdataScanRspData, AdvInputOk]
  by_cases hst : s.advState = .created ∨ s.advState = .started
  · obtain ⟨hset, hrun⟩ := h.of_started (hst.resolve_left h.not_created)
    rw [if_pos hst, forall_prop_of_true hst]
    dsimp only
    rw [bleAppmUpdataScanRspData, bleAppmSetScanRspData_eq]
    have hne : s.advActv ≠ .none := by rw [hrun]; exact nofun
    refine Settled.data ?_ ?_ (fun hw => ?_) ?_
    · exact ⟨hset.outstanding, hset.scanState⟩
    · trivial
    · exact ⟨hset.scanState, hw, hne⟩
    · rfl
  · rw [if_neg hst]
    exact ⟨fun _ => h, fun hno => absurd (fun hyes => absurd hyes hst) hno⟩

theorem AdvInv.updateAdvData (h : AdvInv s) (advBuff : Buf) (advLen : UInt8) :
    Follows s (.updateAdvData advBuff advLen) (AdvInputOk s (.updateAdvData advBuff advLen)) := by
  refine ⟨_, _, rfl, ?_⟩
  rw [appmUpdateAdvData, AdvInputOk]
  by_cases hst : s.advState = .started
  · obtain ⟨hset, hrun⟩ := h.of_started hst
    rw [if_pos hst, forall_prop_of_true hst, bleAppmUpdateAdvData_eq]
    have hne : s.advActv ≠ .none := by rw [hrun]; exact nofun
    refine Settled.data ?_ ?_ (fun hw => ?_) ?_
    · exact ⟨hset.outstanding, hset.scanState⟩
    · trivial
    · exact ⟨hset.scanState, hw, hne⟩
    · rfl
  · rw [if_neg hst]
    exact ⟨fun _ => h, fun hno => absurd (fun hyes => absurd hyes hst) hno⟩

theorem AdvInv.startAdvertising (h : AdvInv s) : AdvInv (appmStartAdvertising s).1 := by
  rw [appmStartAdvertising]
  split
  case isTrue hst =>
    obtain ⟨hset, hnone⟩ := h.of_idle hst
    exact hset.create hst hnone
  case isFalse => exact h

theorem AdvInv.stopAdvertising (h : AdvInv s) : AdvInv (appmStopAdvertising s).1 := by
  by_cases hst : s.advState = .started
  · obtain ⟨hset, hrun⟩ := h.of_started hst
    exact hset.stop hst (by rw [hrun]; exact nofun)
  · rw [appmStopAdvertising, if_neg hst]
    split <;> exact h

/-- The indication of a creation changes only the index. -/
theorem AdvInv.activityCreatedInd (h : AdvInv s) (actvIdx : UInt8) :
    Follows s (.activityCreatedInd actvIdx) True := by
  have hind : AdvInv (s.setIndicated .adv true) := h
  have hidx : AdvInv (bleActioveCreatedIndHandler (s.setIndicated .adv true) .adv actvIdx) := by
    rw [bleActioveCreatedIndHandler]
    split
    · exact hind
    · exact hind
  by_cases hcan : (∃ cmd ∈ s.outstanding, cmd.creates = true ∧ cmd.owner = .adv) ∧
      s.indicated .adv = false
  · exact ⟨_, .event none, if_pos hcan, fun _ => hidx, fun hno => absurd trivial hno⟩
  · exact Follows.same h trivial (if_neg hcan)

/-- The activity stops while an answer is waited for. -/
theorem AdvInv.stopped (h : AdvInv s) (hrun : s.advActv = .running) (hst : s.advState ≠ .started) :
    AdvInv (s.setActv .adv .created) := by
  obtain ⟨hscan, h⟩ := h
  refine ⟨hscan, ?_⟩
  have hsame : (s.setActv .adv .created).advState = s.advState := rfl
  rw [hsame]
  cases hstate : s.advState <;> rw [hstate] at h
  case started => exact absurd hstate hst
  case created => exact h
  case waitingDelete => exact h
  case idle => exact absurd (hrun.symm.trans h.2) nofun
  case creating => exact absurd (hrun.symm.trans h.2) nofun
  case settingAdvData => exact absurd (hrun.symm.trans h.2) nofun
  case settingScanRspData => exact absurd (hrun.symm.trans h.2) nofun
  case starting => exact absurd (hrun.symm.trans h.2) nofun
  case deleteing => exact absurd (hrun.symm.trans h.2) nofun
  case updataAdvData => exact ⟨h.1, nofun⟩
  case stopping => exact ⟨h.1, nofun⟩
  case updataScanRspData => exact ⟨h.1, nofun⟩
  case updata2AdvData => exact ⟨h.1, nofun⟩
  case updata2ScanRspData => exact ⟨h.1, nofun⟩

/-- An activity that stops is deleted if it was started, and else its answer is waited for. -/
theorem AdvInv.activityStoppedInd (h : AdvInv s) : Follows s .activityStoppedInd True := by
  by_cases hrun : s.advActv = .running
  · have hstep : advStep s .activityStoppedInd =
        (bleActivityStoppedEventCallbackHandler (s.setActv .adv .created) .adv).map
          (·, .event none) := if_pos hrun
    by_cases hst : s.advState = .started
    · have hset := (h.of_started hst).1
      refine ⟨appmDeleteAdvertising { s.setActv .adv .created with advState := .stopping },
        .event none, ?_, fun _ => ?_, fun hno => absurd trivial hno⟩
      · rw [hstep, bleActivityStoppedEventCallbackHandler, if_pos ⟨hst, rfl⟩]
        rfl
      · exact Settled.delete ⟨hset.outstanding, hset.scanState⟩ rfl
    · refine ⟨s.setActv .adv .created, .event none, ?_, fun _ => h.stopped hrun hst,
        fun hno => absurd trivial hno⟩
      rw [hstep, bleActivityStoppedEventCallbackHandler, if_neg fun hs => hst hs.1,
        if_neg fun hs => h.not_waitingDelete hs.1, if_neg fun hs => nomatch hs.2]
      rfl
  · exact Follows.same h trivial (if_neg hrun)

theorem AdvInv.step (h : AdvInv s) (input : AdvInput) :
    Follows s input (AdvInputOk s input) := by
  cases input with
  | startAdvertising => exact ⟨_, _, rfl, fun _ => h.startAdvertising, fun hno => absurd trivial hno⟩
  | stopAdvertising => exact ⟨_, _, rfl, fun _ => h.stopAdvertising, fun hno => absurd trivial hno⟩
  | updataAdvData length data => exact h.updataAdvData length data
  | updataScanRspData length data => exact h.updataScanRspData length data
  | updateAdvData advBuff advLen => exact h.updateAdvData advBuff advLen
  | commonEvt status => exact h.commonEvt status
  | activityCreatedInd actvIdx => exact h.activityCreatedInd actvIdx
  | activityStoppedInd => exact h.activityStoppedInd

/-- The advertising is as it should be in every state of a run exactly when all data can be sent
and the answers are those that `adv_state` is made for. -/
theorem advKept_iff (advInfo : AdvInfo) (inputs : List AdvInput) :
    AdvKept advInfo inputs ↔ Machine.Legal advStep AdvInputOk (State.init advInfo) inputs :=
  Machine.total_iff_legal (fun _ h => h.advOk) (fun _ input h => h.step input)
    (advInv_init advInfo)

/-- The advertising is started, and its scan response data are updated with 32 bytes. -/
def longScanRsp : List AdvInput :=
  [.startAdvertising, .activityCreatedInd 0, .commonEvt 0, .commonEvt 0, .commonEvt 0,
    .commonEvt 0, .updataScanRspData 32 fun _ => 0]

theorem not_forall_advKept : ¬∀ advInfo inputs, AdvKept advInfo inputs := by
  intro hall
  have hstuck : (Machine.run advStep (State.init advInfoDefault) (longScanRsp.take 7)).any
      (fun r => r.1.advState = .updataScanRspData ∧ r.1.outstanding = []) = true := by
    decide +kernel
  obtain ⟨⟨s, os⟩, hrun, hs⟩ := (Option.any_eq_true _ _).mp hstuck
  obtain ⟨hstate, hout⟩ := of_decide_eq_true hs
  have hok := (hall advInfoDefault longScanRsp).2 7 s os hrun
  obtain ⟨cmd, hcmd, -⟩ := hok.waiting (by rw [hstate]; trivial)
  rw [hout] at hcmd
  cases hcmd

end TuyaSdk.BleApp
