import TuyaSdk.BleApp.Defs

/-!
# Advertising and scanning together

The answers to a start and to a stop have the same operation for both activities, and
`ble_common_event_callback_handler` gives them to every activity whose state waits for one.
-/

namespace TuyaSdk.BleApp

open TuyaSdk.Lib

/-- The command that an input answers, and the status. -/
def answered (s : State) : Input → Option (Cmd × UInt8)
  | .commonEvt k status =>
    match s.outstanding[k]? with
    | none => none
    | some cmd => if s.Answers cmd status then some (cmd, status) else none
  | _ => none

/-- The input is a successful answer to the operation of the activity. -/
def Succeeds (s : State) (input : Input) (operation : Operation) (type : ActvType) : Prop :=
  ∃ cmd, answered s input = some (cmd, gapErrNoError) ∧ cmd.operation = operation ∧
    cmd.owner = type

/-- `appm_start_scaning` or `appm_stop_scaning` works. -/
def ScanWorks (s : State) : Prop :=
  (appmStartScaning s).2 = .success ∨ (appmStopScaning s).2 = .success

/-- The advertising has been started. -/
def AdvState.HasStarted : AdvState → Prop
  | started | updataAdvData | updataScanRspData | updata2AdvData | updata2ScanRspData => True
  | _ => False

/-- An answer moves only the activity that its command was sent for, each activity is started
and stopped by its own answers, and after a failed command the scan can be used again. -/
structure StepOk (s : State) (input : Input) (s' : State) : Prop where
  scanAnswer : ∀ cmd status, answered s input = some (cmd, status) → cmd.owner = .scan →
    s'.advState = s.advState
  advAnswer : ∀ cmd status, answered s input = some (cmd, status) → cmd.owner = .adv →
    s'.scanState = s.scanState
  scanStarted : s.scanState ≠ .started → s'.scanState = .started →
    Succeeds s input .startActivity .scan
  scanStopped : s.scanState = .stopping → s'.scanState = .created →
    Succeeds s input .stopActivity .scan
  advStarted : ¬s.advState.HasStarted → s'.advState = .started →
    Succeeds s input .startActivity .adv
  advStopped : s.advState = .stopping → s'.advState = .deleteing →
    Succeeds s input .stopActivity .adv
  scanFailed : ∀ cmd status, answered s input = some (cmd, status) → cmd.owner = .scan →
    status ≠ gapErrNoError → ScanWorks s'

/-- Every step of the run is as it should be. -/
def Undisturbed (advInfo : AdvInfo) (inputs : List Input) : Prop :=
  ∀ n s os input s' o, Machine.run step (State.init advInfo) (inputs.take n) = some (s, os) →
    inputs[n]? = some input → step s input = some (s', o) → StepOk s input s'

/-- The answer to a command with respect to what waits for answers: a start or a stop of one
activity is answered when the other does not wait for the same, a start of the advertising is
not answered as disallowed, a creation of the scan is answered before its start, and a failed
scan command finds the scan in a state that can be used. -/
def OwnAnswer (s : State) (status : UInt8) : Cmd → Prop
  | .createScan =>
    if status = gapErrNoError then s.scanState ≠ .starting ∧ s.scanState ≠ .stopping
    else ScanWorks s
  | .start .scan _ => s.advState ≠ .starting ∧ (status ≠ gapErrNoError → ScanWorks s)
  | .stop .scan _ =>
    if status = gapErrNoError then s.advState ≠ .stopping else ScanWorks s
  | .start .adv _ =>
    (status = gapErrNoError → s.scanState ≠ .starting) ∧
      (status = gapErrCommandDisallowed → s.advState ≠ .starting)
  | .stop .adv _ => status = gapErrNoError → s.scanState ≠ .stopping
  | .createAdv _ _ _ | .delete _ | .setAdvData _ _ | .setScanRspData _ _ => True

/-- An answer is an `OwnAnswer`. -/
def ScanInputOk (s : State) (input : Input) : Prop :=
  match answered s input with
  | some (cmd, status) => OwnAnswer s status cmd
  | none => True

variable {s s' : State}

/-- While a start or a stop of the advertising waits, `adv_op` is its operation. -/
structure OpNamed (s : State) : Prop where
  starting : s.advState = .starting → s.advOp = some .startActivity
  stopping : s.advState = .stopping → s.advOp = some .stopActivity

/-- A move of the two states without an answer. -/
structure Moves (s s' : State) : Prop where
  scanStarted : s.scanState ≠ .started → s'.scanState ≠ .started
  scanStopped : s.scanState = .stopping → s'.scanState ≠ .created
  advStarted : ¬s.advState.HasStarted → s'.advState ≠ .started
  advStopped : s.advState = .stopping → s'.advState ≠ .deleteing

theorem OpNamed.of_state (hne : s.advState ≠ .starting) (hne' : s.advState ≠ .stopping) :
    OpNamed s :=
  ⟨fun h => absurd h hne, fun h => absurd h hne'⟩

/-- Only the advertising moves, and not after a start or a stop. -/
theorem Moves.of_adv (hscan : s'.scanState = s.scanState) (hstart : s'.advState ≠ .started)
    (hstop : s'.advState ≠ .deleteing) : Moves s s' where
  scanStarted hne := by rwa [hscan]
  scanStopped hs := by
    rw [hscan, hs]
    exact nofun
  advStarted _ := hstart
  advStopped _ := hstop

/-- Neither state moves. -/
theorem Moves.same (hscan : s'.scanState = s.scanState) (hadv : s'.advState = s.advState) :
    Moves s s' where
  scanStarted hne := by rwa [hscan]
  scanStopped hs := by
    rw [hscan, hs]
    exact nofun
  advStarted hnot hs := by
    rw [hadv] at hs
    exact hnot (by rw [hs]; trivial)
  advStopped hs := by
    rw [hadv, hs]
    exact nofun

/-- Only the scan moves. -/
theorem Moves.of_scan (hadv : s'.advState = s.advState) (hstart : s'.scanState ≠ .started)
    (hstop : s.scanState = .stopping → s'.scanState ≠ .created) : Moves s s' where
  scanStarted _ := hstart
  scanStopped := hstop
  advStarted hnot hs := by
    rw [hadv] at hs
    exact hnot (by rw [hs]; trivial)
  advStopped hs := by
    rw [hadv, hs]
    exact nofun

/-- Without an answer a step is as it should be. -/
theorem Moves.stepOk {input : Input} (h : Moves s s') (hans : answered s input = none) :
    StepOk s input s' where
  scanAnswer cmd status hcmd := by
    rw [hans] at hcmd
    cases hcmd
  advAnswer cmd status hcmd := by
    rw [hans] at hcmd
    cases hcmd
  scanStarted hne hs := absurd hs (h.scanStarted hne)
  scanStopped hs hs' := absurd hs' (h.scanStopped hs)
  advStarted hnot hs := absurd hs (h.advStarted hnot)
  advStopped hs hs' := absurd hs' (h.advStopped hs)
  scanFailed cmd status hcmd := by
    rw [hans] at hcmd
    cases hcmd

/-! ## Calls -/

theorem appmStartAdvertising_moves (h : OpNamed s) :
    Moves s (appmStartAdvertising s).1 ∧ OpNamed (appmStartAdvertising s).1 := by
  rw [appmStartAdvertising]
  split
  case isTrue hidle =>
    rw [appmCreateAdvertising, if_pos hidle]
    exact ⟨Moves.of_adv rfl nofun nofun, OpNamed.of_state nofun nofun⟩
  case isFalse => exact ⟨Moves.same rfl rfl, h⟩

theorem appmStopAdvertising_moves (h : OpNamed s) :
    Moves s (appmStopAdvertising s).1 ∧ OpNamed (appmStopAdvertising s).1 := by
  rw [appmStopAdvertising]
  split
  · exact ⟨Moves.of_adv rfl nofun nofun, ⟨nofun, fun _ => rfl⟩⟩
  · split <;> exact ⟨Moves.same rfl rfl, h⟩

/-- Data are sent, or refused for their length, in a state that waits for neither. -/
theorem updata_moves (hscan : s'.scanState = s.scanState)
    (hdata : s'.advState = .updataAdvData ∨ s'.advState = .updataScanRspData ∨
      s'.advState = .updata2AdvData) : Moves s s' ∧ OpNamed s' := by
  have hne : s'.advState ≠ .started ∧ s'.advState ≠ .deleteing ∧ s'.advState ≠ .starting ∧
      s'.advState ≠ .stopping := by
    rcases hdata with hs | hs | hs <;> rw [hs] <;> exact ⟨nofun, nofun, nofun, nofun⟩
  exact ⟨Moves.of_adv hscan hne.1 hne.2.1, OpNamed.of_state hne.2.2.1 hne.2.2.2⟩

theorem bleAppmUpdateAdvData_state (s : State) (idx : UInt8) (buff : Buf) (len : UInt8) :
    (bleAppmUpdateAdvData s idx buff len).1.scanState = s.scanState ∧
      (bleAppmUpdateAdvData s idx buff len).1.advState = s.advState := by
  rw [bleAppmUpdateAdvData]
  split <;> exact ⟨rfl, rfl⟩

theorem bleAppmSetAdvData_state (s : State) (idx : UInt8) (buff : Buf) (len : UInt8) :
    (bleAppmSetAdvData s idx buff len).1.scanState = s.scanState ∧
      (bleAppmSetAdvData s idx buff len).1.advState = s.advState := by
  rw [bleAppmSetAdvData]
  split <;> exact ⟨rfl, rfl⟩

theorem bleAppmSetScanRspData_state (s : State) (idx : UInt8) (buff : Buf) (len : UInt8) :
    (bleAppmSetScanRspData s idx buff len).1.scanState = s.scanState ∧
      (bleAppmSetScanRspData s idx buff len).1.advState = s.advState := by
  rw [bleAppmSetScanRspData]
  split <;> exact ⟨rfl, rfl⟩

theorem appmUpdataAdvData_moves (h : OpNamed s) (length : UInt16) (data : Buf) :
    Moves s (appmUpdataAdvData s length data).1 ∧
      OpNamed (appmUpdataAdvData s length data).1 := by
  rw [appmUpdataAdvData]
  split
  · exact ⟨Moves.same rfl rfl, h⟩
  · split
    · obtain ⟨hscan, hadv⟩ := bleAppmUpdateAdvData_state
        { s with advState := .updataAdvData } s.advActvIdx data length.toUInt8
      exact updata_moves hscan (Or.inl hadv)
    · exact ⟨Moves.same rfl rfl, h⟩

theorem appmUpdataScanRspData_moves (h : OpNamed s) (length : UInt16) (data : Buf) :
    Moves s (appmUpdataScanRspData s length data).1 ∧
      OpNamed (appmUpdataScanRspData s length data).1 := by
  rw [appmUpdataScanRspData]
  split
  · obtain ⟨hscan, hadv⟩ := bleAppmSetScanRspData_state
      { s with advState := .updataScanRspData } s.advActvIdx data length.toUInt8
    exact updata_moves hscan (Or.inr (Or.inl hadv))
  · exact ⟨Moves.same rfl rfl, h⟩

theorem appmUpdateAdvData_moves (h : OpNamed s) (advBuff : Buf) (advLen : UInt8) :
    Moves s (appmUpdateAdvData s advBuff advLen).1 ∧
      OpNamed (appmUpdateAdvData s advBuff advLen).1 := by
  rw [appmUpdateAdvData]
  split
  · obtain ⟨hscan, hadv⟩ := bleAppmUpdateAdvData_state
      { s with advState := .updata2AdvData } s.advActvIdx advBuff advLen
    exact updata_moves hscan (Or.inr (Or.inr hadv))
  · exact ⟨Moves.same rfl rfl, h⟩

theorem appmStartScaning_moves (h : OpNamed s) :
    Moves s (appmStartScaning s).1 ∧ OpNamed (appmStartScaning s).1 := by
  rw [appmStartScaning]
  split
  case isFalse => exact ⟨Moves.same rfl rfl, h⟩
  case isTrue hst =>
    dsimp only
    rw [appmCreateScaning]
    by_cases hidle : s.scanState = .idle
    · rw [if_pos hidle]
      exact ⟨Moves.of_scan rfl nofun fun _ => nofun, ⟨h.starting, h.stopping⟩⟩
    · have hcreated := hst.resolve_left hidle
      rw [if_neg hidle, if_pos hcreated, bleAppmStartScaning, if_pos hcreated]
      exact ⟨Moves.of_scan rfl nofun fun _ => nofun, ⟨h.starting, h.stopping⟩⟩

theorem appmStopScaning_moves (h : OpNamed s) :
    Moves s (appmStopScaning s).1 ∧ OpNamed (appmStopScaning s).1 := by
  rw [appmStopScaning]
  split
  · exact ⟨Moves.of_scan rfl nofun fun _ => nofun, ⟨h.starting, h.stopping⟩⟩
  · exact ⟨Moves.same rfl rfl, h⟩

theorem bleActioveCreatedIndHandler_moves (h : OpNamed s) (type : ActvType) (actvIdx : UInt8) :
    Moves s (bleActioveCreatedIndHandler (s.setIndicated type true) type actvIdx) ∧
      OpNamed (bleActioveCreatedIndHandler (s.setIndicated type true) type actvIdx) := by
  cases type with
  | adv =>
    rw [bleActioveCreatedIndHandler]
    split <;> exact ⟨Moves.same rfl rfl, ⟨h.starting, h.stopping⟩⟩
  | scan =>
    rw [bleActioveCreatedIndHandler]
    split
    case isTrue hst =>
      have hcreating : s.scanState = .creating := hst
      refine ⟨Moves.of_scan rfl nofun fun hs => ?_, ⟨h.starting, h.stopping⟩⟩
      rw [hcreating] at hs
      cases hs
    case isFalse => exact ⟨Moves.same rfl rfl, ⟨h.starting, h.stopping⟩⟩

/-! ## The next states -/

theorem appmDeleteAdvertising_keeps (s : State) :
    (appmDeleteAdvertising s).scanState = s.scanState ∧ OpNamed (appmDeleteAdvertising s) :=
  ⟨rfl, OpNamed.of_state nofun nofun⟩

theorem appmStartAdvertisingCmd_keeps (h : OpNamed s) :
    (appmStartAdvertisingCmd s).scanState = s.scanState ∧ OpNamed (appmStartAdvertisingCmd s) := by
  rw [appmStartAdvertisingCmd]
  split
  · exact ⟨rfl, fun _ => rfl, nofun⟩
  · exact ⟨rfl, h⟩

/-- A state that sends data. -/
theorem data_keeps (hscan : s'.scanState = s.scanState)
    (hdata : s'.advState = .settingAdvData ∨ s'.advState = .settingScanRspData ∨
      s'.advState = .updata2ScanRspData) : s'.scanState = s.scanState ∧ OpNamed s' := by
  refine ⟨hscan, OpNamed.of_state ?_ ?_⟩ <;>
    rcases hdata with hs | hs | hs <;> rw [hs] <;> exact nofun

theorem appmSetAdvData_keeps (s : State) :
    (appmSetAdvData s).scanState = s.scanState ∧ OpNamed (appmSetAdvData s) := by
  obtain ⟨hscan, hadv⟩ := bleAppmSetAdvData_state { s with advState := .settingAdvData }
    s.advActvIdx s.advInfo.advData s.advInfo.advDataLen
  exact data_keeps hscan (Or.inl hadv)

theorem appmSetScanRspData_keeps (s : State) :
    (appmSetScanRspData s).scanState = s.scanState ∧ OpNamed (appmSetScanRspData s) := by
  obtain ⟨hscan, hadv⟩ := bleAppmSetScanRspData_state { s with advState := .settingScanRspData }
    s.advActvIdx s.advInfo.respData s.advInfo.respDataLen
  exact data_keeps hscan (Or.inr (Or.inl hadv))

theorem appmUpdateAdvScanHandler_keeps (s : State) :
    (appmUpdateAdvScanHandler s).scanState = s.scanState ∧
      OpNamed (appmUpdateAdvScanHandler s) := by
  obtain ⟨hscan, hadv⟩ := bleAppmSetScanRspData_state { s with advState := .updata2ScanRspData }
    s.advActvIdx s.advInfo.respData s.advInfo.respDataLen
  exact data_keeps hscan (Or.inr (Or.inr hadv))

/-- The advertising leaves the scan alone. -/
theorem appmAdvFsmNext_keeps (h : OpNamed s) {flag : Bool} (hnext : appmAdvFsmNext s flag = some s') :
    s'.scanState = s.scanState ∧ OpNamed s' := by
  rw [appmAdvFsmNext] at hnext
  cases hst : s.advState <;> rw [hst] at hnext
  case waitingDelete => cases hnext
  case idle =>
    obtain rfl := Option.some.inj hnext
    rw [appmCreateAdvertising, if_pos hst]
    exact ⟨rfl, OpNamed.of_state nofun nofun⟩
  case creating =>
    obtain rfl := Option.some.inj hnext
    cases flag
    · exact appmSetAdvData_keeps s
    · exact ⟨rfl, OpNamed.of_state nofun nofun⟩
  case settingAdvData =>
    obtain rfl := Option.some.inj hnext
    cases flag
    · exact appmSetScanRspData_keeps s
    · exact appmDeleteAdvertising_keeps s
  case settingScanRspData =>
    obtain rfl := Option.some.inj hnext
    cases flag
    · exact appmStartAdvertisingCmd_keeps h
    · exact appmDeleteAdvertising_keeps s
  case created =>
    obtain rfl := Option.some.inj hnext
    exact appmStartAdvertisingCmd_keeps h
  case starting =>
    obtain rfl := Option.some.inj hnext
    cases flag
    · exact ⟨rfl, OpNamed.of_state nofun nofun⟩
    · exact appmDeleteAdvertising_keeps s
  case started =>
    obtain rfl := Option.some.inj hnext
    rw [appmStopAdvertising, if_pos hst]
    exact ⟨rfl, nofun, fun _ => rfl⟩
  case stopping =>
    obtain rfl := Option.some.inj hnext
    exact appmDeleteAdvertising_keeps s
  case updata2AdvData =>
    obtain rfl := Option.some.inj hnext
    cases flag
    · exact appmUpdateAdvScanHandler_keeps s
    · exact ⟨rfl, OpNamed.of_state nofun nofun⟩
  all_goals
    obtain rfl := Option.some.inj hnext
    exact ⟨rfl, OpNamed.of_state nofun nofun⟩

/-- The state of the scan after `appm_scan_fsm_next`. -/
def ScanState.next : ScanState → ScanState
  | idle => creating
  | creating => creating
  | created => starting
  | starting => started
  | started => stopping
  | stopping => created

/-- The scan leaves the advertising alone. -/
theorem appmScanFsmNext_eq (s : State) :
    (appmScanFsmNext s).advState = s.advState ∧ (appmScanFsmNext s).advOp = s.advOp ∧
      (appmScanFsmNext s).scanState = s.scanState.next := by
  rw [appmScanFsmNext]
  cases hst : s.scanState with
  | idle =>
    dsimp only
    rw [appmCreateScaning, if_pos hst]
    exact ⟨rfl, rfl, rfl⟩
  | creating =>
    dsimp only
    rw [bleAppmStartScaning, if_neg (by rw [hst]; exact nofun), hst]
    exact ⟨rfl, rfl, rfl⟩
  | created =>
    dsimp only
    rw [bleAppmStartScaning, if_pos hst]
    exact ⟨rfl, rfl, rfl⟩
  | starting => exact ⟨rfl, rfl, rfl⟩
  | started => exact ⟨rfl, rfl, rfl⟩
  | stopping => exact ⟨rfl, rfl, rfl⟩

theorem bleActivityStopped_moves (h : OpNamed s) (type : ActvType)
    (hstop : bleActivityStoppedEventCallbackHandler (s.setActv type .created) type = some s') :
    Moves s s' ∧ OpNamed s' := by
  cases type with
  | adv =>
    by_cases hst : s.advState = .started
    · rw [bleActivityStoppedEventCallbackHandler, if_pos ⟨hst, rfl⟩] at hstop
      obtain rfl := Option.some.inj hstop
      refine ⟨⟨fun hne => hne, fun hs hs' => ?_, fun _ => nofun, fun hs => ?_⟩,
        (appmDeleteAdvertising_keeps _).2⟩
      · cases hs.symm.trans hs'
      · cases hs.symm.trans hst
    · rw [bleActivityStoppedEventCallbackHandler, if_neg fun hs => hst hs.1] at hstop
      split at hstop
      case isTrue hwait =>
        have hstate : (s.setActv .adv .created).advState = .waitingDelete := hwait.1
        rw [appmAdvFsmNext, hstate] at hstop
        cases hstop
      case isFalse =>
        rw [if_neg fun hs => nomatch hs.2] at hstop
        obtain rfl := Option.some.inj hstop
        exact ⟨Moves.same rfl rfl, ⟨h.starting, h.stopping⟩⟩
  | scan =>
    have hscan : ∀ st, ¬((s.setActv .scan .created).advState = st ∧ ActvType.scan = .adv) :=
      fun _ hs => nomatch hs.2
    rw [bleActivityStoppedEventCallbackHandler, if_neg (hscan _), if_neg (hscan _)] at hstop
    split at hstop
    case isTrue hst =>
      obtain rfl := Option.some.inj hstop
      have hstarted : s.scanState = .started := hst.1
      refine ⟨Moves.of_scan rfl nofun fun hs => ?_, ⟨h.starting, h.stopping⟩⟩
      cases hs.symm.trans hstarted
    case isFalse =>
      obtain rfl := Option.some.inj hstop
      exact ⟨Moves.same rfl rfl, ⟨h.starting, h.stopping⟩⟩

end TuyaSdk.BleApp
