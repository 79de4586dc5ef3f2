import TuyaSdk.BleApp.Scanning

/-!
# Answers to the two activities

For each command, when its answer moves only the activity that the command was sent for.
-/

namespace TuyaSdk.BleApp

open TuyaSdk.Lib

variable {s s' : State}

/-- What the step lemma of an answer has to show. -/
structure IsAnswer (s t : State) (input : Input) (cmd : Cmd) (status : UInt8) : Prop where
  answers : answered s input = some (cmd, status)
  advState : t.advState = s.advState
  advOp : t.advOp = s.advOp
  scanState : t.scanState = s.scanState

variable {t : State} {input : Input} {cmd : Cmd} {status : UInt8}

theorem IsAnswer.succeeds_iff (h : IsAnswer s t input cmd status) (operation : Operation)
    (type : ActvType) : Succeeds s input operation type ↔
      status = gapErrNoError ∧ cmd.operation = operation ∧ cmd.owner = type := by
  constructor
  · rintro ⟨cmd', hcmd, hop, howner⟩
    rw [h.answers] at hcmd
    cases hcmd
    exact ⟨rfl, hop, howner⟩
  · rintro ⟨rfl, hop, howner⟩
    exact ⟨cmd, h.answers, hop, howner⟩

/-- An answer to a command for the scan. -/
theorem IsAnswer.stepOk_scan (h : IsAnswer s t input cmd status) (howner : cmd.owner = .scan) :
    StepOk s input s' ↔ s'.advState = s.advState ∧
      (s.scanState ≠ .started → s'.scanState = .started →
        status = gapErrNoError ∧ cmd.operation = .startActivity) ∧
      (s.scanState = .stopping → s'.scanState = .created →
        status = gapErrNoError ∧ cmd.operation = .stopActivity) ∧
      (status ≠ gapErrNoError → ScanWorks s') := by
  constructor
  · intro hok
    refine ⟨hok.scanAnswer cmd status h.answers howner, fun hne hs => ?_, fun hs hs' => ?_,
      hok.scanFailed cmd status h.answers howner⟩
    · obtain ⟨hstatus, hop, -⟩ := (h.succeeds_iff _ _).mp (hok.scanStarted hne hs)
      exact ⟨hstatus, hop⟩
    · obtain ⟨hstatus, hop, -⟩ := (h.succeeds_iff _ _).mp (hok.scanStopped hs hs')
      exact ⟨hstatus, hop⟩
  · rintro ⟨hadv, hstart, hstop, hfail⟩
    refine ⟨fun _ _ _ _ => hadv, fun cmd' status' hcmd howner' => ?_, fun hne hs => ?_,
      fun hs hs' => ?_, fun hnot hs => ?_, fun hs hs' => ?_, fun cmd' status' hcmd _ hst => ?_⟩
    · rw [h.answers] at hcmd
      cases hcmd
      cases howner.symm.trans howner'
    · exact (h.succeeds_iff _ _).mpr ⟨(hstart hne hs).1, (hstart hne hs).2, howner⟩
    · exact (h.succeeds_iff _ _).mpr ⟨(hstop hs hs').1, (hstop hs hs').2, howner⟩
    · rw [hadv] at hs
      exact absurd (by rw [hs]; trivial) hnot
    · cases hs.symm.trans (hadv.symm.trans hs')
    · rw [h.answers] at hcmd
      cases hcmd
      exact hfail hst

/-- An answer to a command for the advertising. -/
theorem IsAnswer.stepOk_adv (h : IsAnswer s t input cmd status) (howner : cmd.owner = .adv) :
    StepOk s input s' ↔ s'.scanState = s.scanState ∧
      (¬s.advState.HasStarted → s'.advState = .started →
        status = gapErrNoError ∧ cmd.operation = .startActivity) ∧
      (s.advState = .stopping → s'.advState = .deleteing →
        status = gapErrNoError ∧ cmd.operation = .stopActivity) := by
  constructor
  · intro hok
    refine ⟨hok.advAnswer cmd status h.answers howner, fun hnot hs => ?_, fun hs hs' => ?_⟩
    · obtain ⟨hstatus, hop, -⟩ := (h.succeeds_iff _ _).mp (hok.advStarted hnot hs)
      exact ⟨hstatus, hop⟩
    · obtain ⟨hstatus, hop, -⟩ := (h.succeeds_iff _ _).mp (hok.advStopped hs hs')
      exact ⟨hstatus, hop⟩
  · rintro ⟨hscan, hstart, hstop⟩
    refine ⟨fun cmd' status' hcmd howner' => ?_, fun _ _ _ _ => hscan, fun hne hs => ?_,
      fun hs hs' => ?_, fun hnot hs => ?_, fun hs hs' => ?_, fun cmd' status' hcmd howner' => ?_⟩
    · rw [h.answers] at hcmd
      cases hcmd
      cases howner.symm.trans howner'
    · exact absurd (hscan.symm.trans hs) hne
    · cases hs.symm.trans (hscan.symm.trans hs')
    · exact (h.succeeds_iff _ _).mpr ⟨(hstart hnot hs).1, (hstart hnot hs).2, howner⟩
    · exact (h.succeeds_iff _ _).mpr ⟨(hstop hs hs').1, (hstop hs hs').2, howner⟩
    · rw [h.answers] at hcmd
      cases hcmd
      cases howner.symm.trans howner'

theorem scanWorks_iff (s : State) :
    ScanWorks s ↔ s.scanState = .idle ∨ s.scanState = .created ∨ s.scanState = .started := by
  rw [ScanWorks, appmStartScaning, appmStopScaning]
  cases hst : s.scanState <;> simp

theorem ScanWorks.congr (h : s'.scanState = s.scanState) : ScanWorks s' ↔ ScanWorks s := by
  rw [scanWorks_iff, scanWorks_iff, h]

/-- Only a start moves the advertising to `APP_ADV_STATE_STARTED` for the first time. -/
theorem appmAdvFsmNext_started {flag : Bool} (hnext : appmAdvFsmNext s flag = some s')
    (hs : s'.advState = .started) : s.advState.HasStarted ∨ s.advState = .starting := by
  rw [appmAdvFsmNext] at hnext
  cases hst : s.advState <;> rw [hst] at hnext
  case starting => exact Or.inr rfl
  case started => exact Or.inl trivial
  case updataAdvData => exact Or.inl trivial
  case updataScanRspData => exact Or.inl trivial
  case updata2AdvData => exact Or.inl trivial
  case updata2ScanRspData => exact Or.inl trivial
  case waitingDelete => cases hnext
  case idle =>
    obtain rfl := Option.some.inj hnext
    rw [appmCreateAdvertising, if_pos hst] at hs
    cases hs
  case created =>
    obtain rfl := Option.some.inj hnext
    rw [appmStartAdvertisingCmd, if_pos (Or.inl hst)] at hs
    cases hs
  case creating =>
    obtain rfl := Option.some.inj hnext
    cases flag
    · cases (bleAppmSetAdvData_state _ _ _ _).2.symm.trans hs
    · cases hs
  case settingAdvData =>
    obtain rfl := Option.some.inj hnext
    cases flag
    · cases (bleAppmSetScanRspData_state _ _ _ _).2.symm.trans hs
    · cases hs
  case settingScanRspData =>
    obtain rfl := Option.some.inj hnext
    cases flag
    · change (appmStartAdvertisingCmd s).advState = .started at hs
      rw [appmStartAdvertisingCmd, if_pos (Or.inr hst)] at hs
      cases hs
    · cases hs
  case stopping =>
    obtain rfl := Option.some.inj hnext
    cases hs
  case deleteing =>
    obtain rfl := Option.some.inj hnext
    cases hs

theorem IsAnswer.opNamed (h : IsAnswer s t input cmd status) (hinv : OpNamed s) : OpNamed t :=
  ⟨fun hs => h.advOp.trans (hinv.starting (h.advState.symm.trans hs)),
    fun hs => h.advOp.trans (hinv.stopping (h.advState.symm.trans hs))⟩

/-- The answer to data or to a creation finds that `adv_op` names it, or does not return. -/
theorem IsAnswer.data (h : IsAnswer s t input cmd status) (hinv : OpNamed s)
    (howner : cmd.owner = .adv) (hstart : cmd.operation ≠ .startActivity)
    (hstop : cmd.operation ≠ .stopActivity) {flag : Bool} (hop : t.advOp = some cmd.operation)
    (hnext : appmAdvFsmNext t flag = some s') : StepOk s input s' := by
  have hnamed := h.opNamed hinv
  refine (h.stepOk_adv howner).mpr ⟨?_, fun hnot hs => ?_, fun hs _ => ?_⟩
  · exact (appmAdvFsmNext_keeps hnamed hnext).1.trans h.scanState
  · rcases appmAdvFsmNext_started hnext hs with hst | hst
    · exact absurd (h.advState ▸ hst) hnot
    · cases hstart (Option.some.inj (hop.symm.trans (hnamed.starting hst)))
  · cases hstop (Option.some.inj (hop.symm.trans (hnamed.stopping (h.advState.trans hs))))

/-- What `ble_common_event_callback_handler` does to the advertising in one state. -/
theorem advNextIn_eq (s : State) (advState : AdvState) (flag : Bool) {u : State}
    (hnext : s.advState = advState → appmAdvFsmNext s flag = some u) :
    advNextIn s advState flag = some (if s.advState = advState then u else s) := by
  rw [advNextIn]
  split
  case isTrue hst => exact hnext hst
  case isFalse => rfl

theorem advNextIn_starting (s : State) : advNextIn s .starting false =
    some (if s.advState = .starting then { s with advState := .started } else s) :=
  advNextIn_eq s .starting false fun hst => by rw [appmAdvFsmNext, hst]; rfl

theorem advNextIn_starting_err (s : State) : advNextIn s .starting true =
    some (if s.advState = .starting then appmDeleteAdvertising s else s) :=
  advNextIn_eq s .starting true fun hst => by rw [appmAdvFsmNext, hst]; rfl

theorem advNextIn_stopping (s : State) : advNextIn s .stopping false =
    some (if s.advState = .stopping then appmDeleteAdvertising s else s) :=
  advNextIn_eq s .stopping false fun hst => by rw [appmAdvFsmNext, hst]

theorem advNextIn_deleteing (s : State) : advNextIn s .deleteing false =
    some (if s.advState = .deleteing then { s with advState := .idle } else s) :=
  advNextIn_eq s .deleteing false fun hst => by rw [appmAdvFsmNext, hst]

/-- What it does to the scan in one state. -/
theorem scanNextIn_eq (s : State) (scanState : ScanState) :
    (scanNextIn s scanState).advState = s.advState ∧ (scanNextIn s scanState).advOp = s.advOp ∧
      (scanNextIn s scanState).scanState =
        if s.scanState = scanState then scanState.next else s.scanState := by
  rw [scanNextIn]
  obtain ⟨hadv, hop, hscan⟩ := appmScanFsmNext_eq s
  by_cases hst : s.scanState = scanState
  · rw [if_pos hst, if_pos hst, hscan, hst]
    exact ⟨hadv, hop, rfl⟩
  · rw [if_neg hst, if_neg hst]
    exact ⟨rfl, rfl, rfl⟩

theorem bleCommonEvent_start (s : State) (status : UInt8) :
    bleCommonEventCallbackHandler s .startActivity status =
      if status = gapErrNoError then
        (advNextIn s .starting false).map fun s => (scanNextIn s .starting, none)
      else (advNextIn s .starting (status ≠ gapErrCommandDisallowed)).map (·, none) :=
  rfl

theorem bleCommonEvent_stop (s : State) (status : UInt8) :
    bleCommonEventCallbackHandler s .stopActivity status =
      if status = gapErrNoError then
        (advNextIn s .stopping false).map fun s => (scanNextIn s .stopping, none)
      else some (s, none) :=
  rfl

theorem bleCommonEvent_delete (s : State) (status : UInt8) :
    bleCommonEventCallbackHandler s .deleteActivity status =
      if status = gapErrNoError then (advNextIn s .deleteing false).map (·, none)
      else some (s, none) :=
  rfl

/-- The operations whose answer `adv_op` has to name. -/
theorem bleCommonEvent_data {operation : Operation} {n : Option Notice}
    (hop : operation = .createAdvActivity ∨ operation = .setAdvData ∨
      operation = .setScanRspData)
    (hu : bleCommonEventCallbackHandler s operation status = some (s', n)) :
    s.advOp = some operation ∧ appmAdvFsmNext s (status ≠ gapErrNoError) = some s' := by
  have hhandler : bleCommonEventCallbackHandler s operation status =
      if s.advOp = some operation then
        (appmAdvFsmNext s (status ≠ gapErrNoError)).map
          (·, notice s.advState operation status)
      else none := by
    rcases hop with rfl | rfl | rfl <;> rfl
  rw [hhandler] at hu
  split at hu
  case isFalse => cases hu
  case isTrue hnamed =>
    obtain ⟨v, hnext, hv⟩ := Option.map_eq_some_iff.mp hu
    cases hv
    exact ⟨hnamed, hnext⟩

/-- Every step of the handler that returns is as it should be. -/
def Handles (s t : State) (input : Input) (cmd : Cmd) (status : UInt8) : Prop :=
  ∀ u n, bleCommonEventCallbackHandler t cmd.operation status = some (u, n) → StepOk s input u

theorem handles_iff {u : State} {n : Option Notice}
    (hu : bleCommonEventCallbackHandler t cmd.operation status = some (u, n)) :
    Handles s t input cmd status ↔ StepOk s input u := by
  constructor
  · intro h
    exact h u n hu
  · intro hok u' n' hu'
    rw [hu] at hu'
    cases hu'
    exact hok

namespace IsAnswer

theorem createScan (h : IsAnswer s t input .createScan status) :
    Handles s t input .createScan status ↔ OwnAnswer s status .createScan := by
  rw [handles_iff (u := if status = gapErrNoError then appmScanFsmNext t else t) rfl,
    h.stepOk_scan rfl, OwnAnswer]
  by_cases hstatus : status = gapErrNoError
  · rw [if_pos hstatus, if_pos hstatus]
    obtain ⟨hadv, -, hscan⟩ := appmScanFsmNext_eq t
    rw [hadv, hscan, h.scanState, h.advState]
    cases s.scanState <;> simp [hstatus, ScanState.next, Cmd.operation]
  · rw [if_neg hstatus, if_neg hstatus, ScanWorks.congr h.scanState, h.scanState, h.advState]
    refine ⟨fun hok => hok.2.2.2 hstatus, fun hworks => ⟨rfl, fun hne hs => absurd hs hne,
      fun hs hs' => ?_, fun _ => hworks⟩⟩
    cases hs.symm.trans hs'

theorem startScan {idx : UInt8} (h : IsAnswer s t input (.start .scan idx) status) :
    Handles s t input (.start .scan idx) status ↔ OwnAnswer s status (.start .scan idx) := by
  rw [OwnAnswer]
  by_cases hstatus : status = gapErrNoError
  · have hu : bleCommonEventCallbackHandler t .startActivity status = some
        (scanNextIn (if t.advState = .starting then { t with advState := .started } else t)
          .starting, none) := by
      rw [bleCommonEvent_start, if_pos hstatus, advNextIn_starting]
      rfl
    rw [handles_iff hu, h.stepOk_scan rfl]
    by_cases hst : s.advState = .starting
    · rw [if_pos (h.advState.trans hst), (scanNextIn_eq _ _).1, hst]
      exact iff_of_false (fun hok => nomatch hok.1) fun hok => hok.1 rfl
    · obtain ⟨hadv, -, hscan⟩ := scanNextIn_eq t .starting
      rw [if_neg fun hs => hst (h.advState.symm.trans hs), hadv, hscan, h.advState, h.scanState]
      refine iff_of_true ⟨rfl, fun _ _ => ⟨hstatus, rfl⟩, fun hs hs' => ?_,
        fun hno => absurd hstatus hno⟩ ⟨hst, fun hno => absurd hstatus hno⟩
      rw [hs] at hs'
      cases hs'
  · by_cases hst : s.advState = .starting
    · refine iff_of_false (fun hok => ?_) fun hok => hok.1 hst
      by_cases hdis : status = gapErrCommandDisallowed
      · have hu : bleCommonEventCallbackHandler t .startActivity status =
            some ({ t with advState := .started }, none) := by
          rw [bleCommonEvent_start, if_neg hstatus,
            decide_eq_false (not_not_intro hdis), advNextIn_starting,
            if_pos (h.advState.trans hst)]
          rfl
        cases ((h.stepOk_scan rfl).mp (hok _ _ hu)).1.trans hst
      · have hu : bleCommonEventCallbackHandler t .startActivity status =
            some (appmDeleteAdvertising t, none) := by
          rw [bleCommonEvent_start, if_neg hstatus, decide_eq_true hdis,
            advNextIn_starting_err, if_pos (h.advState.trans hst)]
          rfl
        cases ((h.stepOk_scan rfl).mp (hok _ _ hu)).1.trans hst
    · have hu : bleCommonEventCallbackHandler t .startActivity status = some (t, none) := by
        rw [bleCommonEvent_start, if_neg hstatus, advNextIn,
          if_neg fun hs => hst (h.advState.symm.trans hs)]
        rfl
      rw [handles_iff hu, h.stepOk_scan rfl, ScanWorks.congr h.scanState, h.advState, h.scanState]
      refine ⟨fun hok => ⟨hst, hok.2.2.2⟩, fun hok => ⟨rfl, fun hne hs => absurd hs hne,
        fun hs hs' => ?_, hok.2⟩⟩
      cases hs.symm.trans hs'

theorem stopScan {idx : UInt8} (h : IsAnswer s t input (.stop .scan idx) status) :
    Handles s t input (.stop .scan idx) status ↔ OwnAnswer s status (.stop .scan idx) := by
  rw [OwnAnswer]
  by_cases hstatus : status = gapErrNoError
  · have hu : bleCommonEventCallbackHandler t .stopActivity status = some
        (scanNextIn (if t.advState = .stopping then appmDeleteAdvertising t else t)
          .stopping, none) := by
      rw [bleCommonEvent_stop, if_pos hstatus, advNextIn_stopping]
      rfl
    rw [handles_iff hu, h.stepOk_scan rfl, if_pos hstatus]
    by_cases hst : s.advState = .stopping
    · rw [if_pos (h.advState.trans hst), (scanNextIn_eq _ _).1, hst]
      exact iff_of_false (fun hok => nomatch hok.1) fun hok => hok rfl
    · obtain ⟨hadv, -, hscan⟩ := scanNextIn_eq t .stopping
      rw [if_neg fun hs => hst (h.advState.symm.trans hs), hadv, hscan, h.advState, h.scanState]
      refine iff_of_true ⟨rfl, fun hne hs => ?_, fun _ _ => ⟨hstatus, rfl⟩,
        fun hno => absurd hstatus hno⟩ hst
      split at hs
      · cases hs
      · exact absurd hs hne
  · have hu : bleCommonEventCallbackHandler t .stopActivity status = some (t, none) := by
      rw [bleCommonEvent_stop, if_neg hstatus]
    rw [handles_iff hu, h.stepOk_scan rfl, if_neg hstatus, ScanWorks.congr h.scanState, h.advState,
      h.scanState]
    refine ⟨fun hok => hok.2.2.2 hstatus, fun hworks => ⟨rfl, fun hne hs => absurd hs hne,
      fun hs hs' => ?_, fun _ => hworks⟩⟩
    cases hs.symm.trans hs'

theorem startAdv {idx : UInt8} (h : IsAnswer s t input (.start .adv idx) status) :
    Handles s t input (.start .adv idx) status ↔ OwnAnswer s status (.start .adv idx) := by
  rw [OwnAnswer]
  by_cases hstatus : status = gapErrNoError
  · have hu : bleCommonEventCallbackHandler t .startActivity status = some
        (scanNextIn (if t.advState = .starting then { t with advState := .started } else t)
          .starting, none) := by
      rw [bleCommonEvent_start, if_pos hstatus, advNextIn_starting]
      rfl
    have hdis : status ≠ gapErrCommandDisallowed := by rw [hstatus]; decide
    have hscan : (if t.advState = .starting then { t with advState := .started }
        else t).scanState = s.scanState := by
      split <;> exact h.scanState
    rw [handles_iff hu, h.stepOk_adv rfl, (scanNextIn_eq _ _).2.2, hscan]
    constructor
    · intro hok
      refine ⟨fun _ hst => ?_, fun hno => absurd hno hdis⟩
      have hsame := hok.1
      rw [if_pos hst, hst] at hsame
      cases hsame
    · intro hok
      refine ⟨if_neg (hok.1 hstatus), fun _ _ => ⟨hstatus, rfl⟩, fun hs hs' => ?_⟩
      have hne : t.advState ≠ .starting := by rw [h.advState, hs]; exact nofun
      rw [(scanNextIn_eq _ _).1, if_neg hne, h.advState, hs] at hs'
      cases hs'
  · by_cases hdis : status = gapErrCommandDisallowed
    · have hu : bleCommonEventCallbackHandler t .startActivity status = some
          (if t.advState = .starting then { t with advState := .started } else t, none) := by
        rw [bleCommonEvent_start, if_neg hstatus,
          decide_eq_false (not_not_intro hdis), advNextIn_starting]
        rfl
      rw [handles_iff hu, h.stepOk_adv rfl]
      by_cases hst : s.advState = .starting
      · refine iff_of_false (fun hok => ?_) fun hok => hok.2 hdis hst
        rw [if_pos (h.advState.trans hst), hst] at hok
        exact hstatus (hok.2.1 nofun rfl).1
      · rw [if_neg fun hs => hst (h.advState.symm.trans hs), h.advState, h.scanState]
        refine iff_of_true ⟨rfl, fun hnot hs => ?_, fun hs hs' => ?_⟩
          ⟨fun hno => absurd hno hstatus, fun _ => hst⟩
        · exact absurd (by rw [hs]; trivial) hnot
        · cases hs.symm.trans hs'
    · have hu : bleCommonEventCallbackHandler t .startActivity status = some
          (if t.advState = .starting then appmDeleteAdvertising t else t, none) := by
        rw [bleCommonEvent_start, if_neg hstatus, decide_eq_true hdis,
          advNextIn_starting_err]
        rfl
      rw [handles_iff hu, h.stepOk_adv rfl]
      refine iff_of_true ⟨?_, fun hnot hs => ?_, fun hs hs' => ?_⟩
        ⟨fun hno => absurd hno hstatus, fun hno => absurd hno hdis⟩
      · split <;> exact h.scanState
      · split at hs
        · cases hs
        · exact absurd (by rw [← h.advState, hs]; trivial) hnot
      · have hne : t.advState ≠ .starting := by rw [h.advState, hs]; exact nofun
        rw [if_neg hne, h.advState, hs] at hs'
        cases hs'

theorem stopAdv {idx : UInt8} (h : IsAnswer s t input (.stop .adv idx) status) :
    Handles s t input (.stop .adv idx) status ↔ OwnAnswer s status (.stop .adv idx) := by
  rw [OwnAnswer]
  by_cases hstatus : status = gapErrNoError
  · have hu : bleCommonEventCallbackHandler t .stopActivity status = some
        (scanNextIn (if t.advState = .stopping then appmDeleteAdvertising t else t)
          .stopping, none) := by
      rw [bleCommonEvent_stop, if_pos hstatus, advNextIn_stopping]
      rfl
    have hscan : (if t.advState = .stopping then appmDeleteAdvertising t else t).scanState =
        s.scanState := by
      split <;> exact h.scanState
    rw [handles_iff hu, h.stepOk_adv rfl, (scanNextIn_eq _ _).1, (scanNextIn_eq _ _).2.2, hscan]
    constructor
    · intro hok _ hst
      have hsame := hok.1
      rw [if_pos hst, hst] at hsame
      cases hsame
    · intro hok
      refine ⟨if_neg (hok hstatus), fun hnot hs => ?_, fun _ _ => ⟨hstatus, rfl⟩⟩
      split at hs
      · cases hs
      · exact absurd (by rw [← h.advState, hs]; trivial) hnot
  · have hu : bleCommonEventCallbackHandler t .stopActivity status = some (t, none) := by
      rw [bleCommonEvent_stop, if_neg hstatus]
    rw [handles_iff hu, h.stepOk_adv rfl, h.advState, h.scanState]
    refine iff_of_true ⟨rfl, fun hnot hs => ?_, fun hs hs' => ?_⟩ fun hno => absurd hno hstatus
    · exact absurd (by rw [hs]; trivial) hnot
    · cases hs.symm.trans hs'

theorem deleteAdv {idx : UInt8} (h : IsAnswer s t input (.delete idx) status) :
    Handles s t input (.delete idx) status := by
  have hsame : StepOk s input t := by
    refine (h.stepOk_adv rfl).mpr ⟨h.scanState, fun hnot hs => ?_, fun hs hs' => ?_⟩
    · exact absurd (by rw [← h.advState, hs]; trivial) hnot
    · cases hs.symm.trans (h.advState.symm.trans hs')
  intro u n hu
  rw [Cmd.operation, bleCommonEvent_delete, advNextIn_deleteing] at hu
  split at hu
  · cases hu
    split
    · exact (h.stepOk_adv rfl).mpr ⟨h.scanState, fun _ => nofun, fun _ => nofun⟩
    · exact hsame
  · cases hu
    exact hsame

/-- The answer to data or to a creation of the advertising. -/
theorem ofData (h : IsAnswer s t input cmd status) (hinv : OpNamed s) (howner : cmd.owner = .adv)
    (hop : cmd.operation = .createAdvActivity ∨ cmd.operation = .setAdvData ∨
      cmd.operation = .setScanRspData) : Handles s t input cmd status := by
  intro u n hu
  obtain ⟨hnamed, hnext⟩ := bleCommonEvent_data hop hu
  refine h.data hinv howner ?_ ?_ hnamed hnext
  · intro hs
    rcases hop with hop | hop | hop <;> cases hs.symm.trans hop
  · intro hs
    rcases hop with hop | hop | hop <;> cases hs.symm.trans hop

/-- An answer moves only its own activity exactly when it is an `OwnAnswer`. -/
theorem handles_iff_ownAnswer (h : IsAnswer s t input cmd status) (hinv : OpNamed s) :
    Handles s t input cmd status ↔ OwnAnswer s status cmd := by
  cases cmd with
  | createAdv chnlMap intvMin intvMax =>
    exact iff_of_true (h.ofData hinv rfl (Or.inl rfl)) trivial
  | createScan => exact h.createScan
  | start type idx =>
    cases type with
    | adv => exact h.startAdv
    | scan => exact h.startScan
  | stop type idx =>
    cases type with
    | adv => exact h.stopAdv
    | scan => exact h.stopScan
  | delete idx => exact iff_of_true h.deleteAdv trivial
  | setAdvData idx data => exact iff_of_true (h.ofData hinv rfl (Or.inr (Or.inl rfl))) trivial
  | setScanRspData idx data =>
    exact iff_of_true (h.ofData hinv rfl (Or.inr (Or.inr rfl))) trivial

end IsAnswer

/-! ## The invariant -/

theorem advNextIn_keeps (h : OpNamed s) {advState : AdvState} {flag : Bool}
    (hnext : advNextIn s advState flag = some s') : OpNamed s' := by
  rw [advNextIn] at hnext
  split at hnext
  · exact (appmAdvFsmNext_keeps h hnext).2
  · cases hnext
    exact h

theorem scanNextIn_keeps (h : OpNamed s) (scanState : ScanState) :
    OpNamed (scanNextIn s scanState) := by
  obtain ⟨hadv, hop, -⟩ := scanNextIn_eq s scanState
  exact ⟨fun hs => hop.trans (h.starting (hadv.symm.trans hs)),
    fun hs => hop.trans (h.stopping (hadv.symm.trans hs))⟩

theorem bleCommonEvent_keeps (h : OpNamed s) {operation : Operation} {n : Option Notice}
    (hu : bleCommonEventCallbackHandler s operation status = some (s', n)) : OpNamed s' := by
  cases operation with
  | createAdvActivity =>
    exact (appmAdvFsmNext_keeps h (bleCommonEvent_data (Or.inl rfl) hu).2).2
  | setAdvData =>
    exact (appmAdvFsmNext_keeps h (bleCommonEvent_data (Or.inr (Or.inl rfl)) hu).2).2
  | setScanRspData =>
    exact (appmAdvFsmNext_keeps h (bleCommonEvent_data (Or.inr (Or.inr rfl)) hu).2).2
  | startActivity =>
    rw [bleCommonEvent_start] at hu
    split at hu
    · obtain ⟨v, hv, heq⟩ := Option.map_eq_some_iff.mp hu
      cases heq
      exact scanNextIn_keeps (advNextIn_keeps h hv) _
    · obtain ⟨v, hv, heq⟩ := Option.map_eq_some_iff.mp hu
      cases heq
      exact advNextIn_keeps h hv
  | stopActivity =>
    rw [bleCommonEvent_stop] at hu
    split at hu
    · obtain ⟨v, hv, heq⟩ := Option.map_eq_some_iff.mp hu
      cases heq
      exact scanNextIn_keeps (advNextIn_keeps h hv) _
    · cases hu
      exact h
  | deleteActivity =>
    rw [bleCommonEvent_delete] at hu
    split at hu
    · obtain ⟨v, hv, heq⟩ := Option.map_eq_some_iff.mp hu
      cases heq
      exact advNextIn_keeps h hv
    · cases hu
      exact h
  | createScanActivity =>
    cases hu
    split
    · obtain ⟨hadv, hop, -⟩ := appmScanFsmNext_eq s
      exact ⟨fun hs => hop.trans (h.starting (hadv.symm.trans hs)),
        fun hs => hop.trans (h.stopping (hadv.symm.trans hs))⟩
    · exact h

/-! ## Steps -/

/-- An input that answers no command. -/
theorem quiet_iff {o : Output} (hans : answered s input = none) (hmoves : Moves s s')
    (hstep : step s input = some (s', o)) :
    (∀ u o', step s input = some (u, o') → StepOk s input u) ↔ ScanInputOk s input := by
  rw [ScanInputOk, hans]
  refine iff_of_true (fun u o' hu => ?_) trivial
  rw [hstep] at hu
  cases hu
  exact hmoves.stepOk hans

/-- The two sides of the step lemma. -/
structure Steps (s : State) (input : Input) : Prop where
  iff : (∀ s' o, step s input = some (s', o) → StepOk s input s') ↔ ScanInputOk s input
  keeps : ∀ s' o, step s input = some (s', o) → OpNamed s'

theorem Steps.quiet {o : Output} (hans : answered s input = none)
    (hmoves : Moves s s' ∧ OpNamed s') (hstep : step s input = some (s', o)) : Steps s input where
  iff := quiet_iff hans hmoves.1 hstep
  keeps u o' hu := by
    rw [hstep] at hu
    cases hu
    exact hmoves.2

/-- Nothing happens. -/
theorem Steps.same {o : Output} (h : OpNamed s) (hans : answered s input = none)
    (hstep : step s input = some (s, o)) : Steps s input :=
  Steps.quiet hans ⟨Moves.same rfl rfl, h⟩ hstep

theorem OpNamed.commonEvt (h : OpNamed s) (k : Nat) (status : UInt8) :
    Steps s (.commonEvt k status) := by
  cases hcmd : s.outstanding[k]? with
  | none =>
    refine Steps.same (o := .event none) h ?_ ?_
    · rw [answered, hcmd]
    · rw [step, hcmd]
  | some cmd =>
    by_cases hcan : s.Answers cmd status
    · obtain ⟨hadv, hop, hscan, -⟩ := s.answer_app k cmd status
      have hans : answered s (.commonEvt k status) = some (cmd, status) := by
        rw [answered, hcmd]
        exact if_pos hcan
      have hstep : step s (.commonEvt k status) =
          (bleCommonEventCallbackHandler (s.answer k cmd status) cmd.operation status).map
            fun r => (r.1, .event r.2) := by
        rw [step, hcmd]
        exact if_pos hcan
      have hanswer : IsAnswer s (s.answer k cmd status) (.commonEvt k status) cmd status :=
        ⟨hans, hadv, hop, hscan⟩
      constructor
      · rw [ScanInputOk, hans]
        refine Iff.trans ?_ (hanswer.handles_iff_ownAnswer h)
        constructor
        · intro hall u n hu
          exact hall u (.event n) (by rw [hstep, hu]; rfl)
        · intro hall s' o hs'
          rw [hstep] at hs'
          obtain ⟨⟨u, n⟩, hu, heq⟩ := Option.map_eq_some_iff.mp hs'
          cases heq
          exact hall u n hu
      · intro s' o hs'
        rw [hstep] at hs'
        obtain ⟨⟨u, n⟩, hu, heq⟩ := Option.map_eq_some_iff.mp hs'
        cases heq
        exact bleCommonEvent_keeps (hanswer.opNamed h) hu
    · refine Steps.same (o := .event none) h ?_ ?_
      · rw [answered, hcmd]
        exact if_neg hcan
      · rw [step, hcmd]
        exact if_neg hcan

theorem OpNamed.activityStoppedInd (h : OpNamed s) (type : ActvType) :
    Steps s (.activityStoppedInd type) := by
  by_cases hrun : s.actv type = .running
  · have hstep : step s (.activityStoppedInd type) =
        (bleActivityStoppedEventCallbackHandler (s.setActv type .created) type).map
          (·, .event none) := if_pos hrun
    cases hu : bleActivityStoppedEventCallbackHandler (s.setActv type .created) type with
    | none =>
      have hnone : step s (.activityStoppedInd type) = none := by rw [hstep, hu]; rfl
      refine ⟨iff_of_true (fun s' o hs' => ?_) trivial, fun s' o hs' => ?_⟩ <;>
        · rw [hnone] at hs'
          cases hs'
    | some u =>
      exact Steps.quiet (o := .event none) rfl (bleActivityStopped_moves h type hu)
        (by rw [hstep, hu]; rfl)
  · exact Steps.same (o := .event none) h rfl (if_neg hrun)

theorem OpNamed.steps (h : OpNamed s) (input : Input) : Steps s input := by
  cases input with
  | startAdvertising => exact Steps.quiet rfl (appmStartAdvertising_moves h) rfl
  | stopAdvertising => exact Steps.quiet rfl (appmStopAdvertising_moves h) rfl
  | updataAdvData length data => exact Steps.quiet rfl (appmUpdataAdvData_moves h length data) rfl
  | updataScanRspData length data =>
    exact Steps.quiet rfl (appmUpdataScanRspData_moves h length data) rfl
  | updateAdvData advBuff advLen =>
    exact Steps.quiet rfl (appmUpdateAdvData_moves h advBuff advLen) rfl
  | startScaning => exact Steps.quiet rfl (appmStartScaning_moves h) rfl
  | stopScaning => exact Steps.quiet rfl (appmStopScaning_moves h) rfl
  | commonEvt k status => exact h.commonEvt k status
  | activityCreatedInd type actvIdx =>
    by_cases hcan : (∃ cmd ∈ s.outstanding, cmd.creates = true ∧ cmd.owner = type) ∧
        s.indicated type = false
    · exact Steps.quiet (o := .event none) rfl (bleActioveCreatedIndHandler_moves h type actvIdx)
        (if_pos hcan)
    · exact Steps.same (o := .event none) h rfl (if_neg hcan)
  | activityStoppedInd type => exact h.activityStoppedInd type

theorem opNamed_init (advInfo : AdvInfo) : OpNamed (State.init advInfo) := ⟨nofun, nofun⟩

/-- Advertising and scanning do not disturb each other in a run exactly when every answer comes
while only its own activity waits for it. -/
theorem undisturbed_iff (advInfo : AdvInfo) (inputs : List Input) :
    Undisturbed advInfo inputs ↔ Machine.Legal step ScanInputOk (State.init advInfo) inputs :=
  Machine.steps_iff_legal (fun _ input s' o h _ hs' => (h.steps input).keeps s' o hs')
    (fun _ input h => (h.steps input).iff) (opNamed_init advInfo)

/-- A scan is created, started and stopped, then the advertising is to start, and the scan again;
the start of the advertising is answered first. -/
def bothStart : List Input :=
  [.startScaning, .activityCreatedInd .scan 0, .commonEvt 0 0, .commonEvt 0 0, .stopScaning,
    .commonEvt 0 0, .startAdvertising, .activityCreatedInd .adv 1, .commonEvt 0 0, .commonEvt 0 0,
    .commonEvt 0 0, .startScaning, .commonEvt 0 0]

theorem not_forall_undisturbed : ¬∀ advInfo inputs, Undisturbed advInfo inputs := by
  intro hall
  have hmoved : (Machine.run step (State.init advInfoDefault) (bothStart.take 12)).any
      (fun r => r.1.scanState = .starting ∧ answered r.1 (.commonEvt 0 0) =
        some (.start .adv 1, 0) ∧ (step r.1 (.commonEvt 0 0)).any
          fun r' => r'.1.scanState = .started) = true := by
    decide +kernel
  obtain ⟨⟨s, os⟩, hrun, hs⟩ := (Option.any_eq_true _ _).mp hmoved
  obtain ⟨hstarting, hans, hstep⟩ := of_decide_eq_true hs
  obtain ⟨⟨s', o⟩, hs', hstarted⟩ := (Option.any_eq_true _ _).mp hstep
  have hok := hall advInfoDefault bothStart 12 s os (.commonEvt 0 0) s' o hrun rfl hs'
  have hsame := hok.advAnswer _ _ hans rfl
  rw [of_decide_eq_true hstarted, hstarting] at hsame
  cases hsame

end TuyaSdk.BleApp
