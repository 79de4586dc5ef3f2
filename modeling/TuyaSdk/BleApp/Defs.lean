import TuyaSdk.Lib.Machine

/-!
# The Bluetooth application

`app_ble_task.c` drives one advertising and one scan activity of the controller. A call of the
application or an answer of the controller moves `adv_state` or `scan_state` on and sends the
next command (`app_ble.c`). The controller answers each command once, with any status; what it
can do in a state is part of `step`. `none` is a failed `ASSERT`.
-/

namespace TuyaSdk.BleApp

open TuyaSdk.Lib

/-- `app_adv_state` -/
inductive AdvState where
  | idle
  | creating
  | settingAdvData
  | settingScanRspData
  | updataAdvData
  | created
  | starting
  | started
  | stopping
  | waitingDelete
  | deleteing
  | updataScanRspData
  | updata2AdvData
  | updata2ScanRspData
  deriving DecidableEq

/-- `app_scan_state` -/
inductive ScanState where
  | idle
  | creating
  | created
  | starting
  | started
  | stopping
  deriving DecidableEq

/-- The `GAPM_` operations. -/
inductive Operation where
  | createAdvActivity
  | createScanActivity
  | startActivity
  | stopActivity
  | deleteActivity
  | setAdvData
  | setScanRspData
  deriving DecidableEq

/-- `ble_err_t` -/
inductive BleErr where
  | success
  | advFail
  | stopAdvFail
  | scanFail
  deriving DecidableEq

/-- `GAPM_ACTV_TYPE_ADV` and `GAPM_ACTV_TYPE_SCAN`. -/
inductive ActvType where
  | adv
  | scan
  deriving DecidableEq

/-- The memory from a pointer on. -/
abbrev Buf := Nat → UInt8

/-- A command to the controller. -/
inductive Cmd where
  | createAdv (chnlMap : UInt8) (intvMin intvMax : UInt32)
  | createScan
  | start (type : ActvType) (actvIdx : UInt8)
  | stop (type : ActvType) (actvIdx : UInt8)
  | delete (actvIdx : UInt8)
  | setAdvData (actvIdx : UInt8) (data : List UInt8)
  | setScanRspData (actvIdx : UInt8) (data : List UInt8)
  deriving DecidableEq

namespace Cmd

def operation : Cmd → Operation
  | createAdv _ _ _ => .createAdvActivity
  | createScan => .createScanActivity
  | start _ _ => .startActivity
  | stop _ _ => .stopActivity
  | delete _ => .deleteActivity
  | setAdvData _ _ => .setAdvData
  | setScanRspData _ _ => .setScanRspData

/-- The activity that the command was sent for. -/
def owner : Cmd → ActvType
  | createScan => .scan
  | start type _ => type
  | stop type _ => type
  | _ => .adv

end Cmd

def gapErrNoError : UInt8 := 0x00
def gapErrCommandDisallowed : UInt8 := 0x43
def gapErrAdvDataInvalid : UInt8 := 0x4A

def advDataLenMax : UInt8 := 0x1F

/-- `adv_info_t` -/
structure AdvInfo where
  advData : Buf
  advDataLen : UInt8
  respData : Buf
  respDataLen : UInt8
  channelMap : UInt8
  intervalMin : UInt16
  intervalMax : UInt16

/-- `adv_info` at the start. -/
def advInfoDefault : AdvInfo where
  advData := fun _ => 0
  advDataLen := 0
  respData := fun i => [0x09, 0xFF, 0x00, 0x60, 0x52, 0x57, 0x2D, 0x42, 0x4C, 0x45].getD i 0
  respDataLen := 10
  channelMap := 0x07
  intervalMin := 160
  intervalMax := 160

/-- An activity in the controller. -/
inductive Actv where
  | none
  | created
  | running
  deriving DecidableEq

/-- `app_ble_ctx` and `adv_info`, and the controller: the commands that it has not answered, in
the order sent, its activities, and which creations it has indicated. -/
structure State where
  advActvIdx : UInt8
  advState : AdvState
  advOp : Option Operation
  scanActvIdx : UInt8
  scanState : ScanState
  scanOp : Option Operation
  advInfo : AdvInfo
  outstanding : List Cmd
  advActv : Actv
  scanActv : Actv
  advIndicated : Bool
  scanIndicated : Bool

/-- After `memset(&app_ble_ctx, 0, ..)`. -/
def State.init (advInfo : AdvInfo) : State where
  advActvIdx := 0
  advState := .idle
  advOp := none
  scanActvIdx := 0
  scanState := .idle
  scanOp := none
  advInfo := advInfo
  outstanding := []
  advActv := .none
  scanActv := .none
  advIndicated := false
  scanIndicated := false

/-! ## Commands -/

/-- `kernel_msg_send` -/
def State.send (s : State) (cmd : Cmd) : State := { s with outstanding := s.outstanding ++ [cmd] }

/-- `set_app_ble_adv_op`, and the command sent. -/
def State.sendAdv (s : State) (cmd : Cmd) : State :=
  { s with advOp := some cmd.operation }.send cmd

/-- `memcpy(&p_cmd->data[0], buff, len)` -/
def copied (buff : Buf) (len : UInt8) : List UInt8 := (List.range len.toNat).map buff

def bleAppmCreateAdvertising (s : State) (chnlMap : UInt8) (intvMin intvMax : UInt32) : State :=
  s.sendAdv (.createAdv chnlMap intvMin intvMax)

def bleAppmStartAdvertising (s : State) (advActvIdx : UInt8) : State :=
  s.sendAdv (.start .adv advActvIdx)

def bleAppmStopAdvertising (s : State) (advActvIdx : UInt8) : State :=
  s.sendAdv (.stop .adv advActvIdx)

def bleAppmDeleteAdvertising (s : State) (advActvIdx : UInt8) : State :=
  s.sendAdv (.delete advActvIdx)

def bleAppmSetAdvData (s : State) (advActvIdx : UInt8) (advBuff : Buf) (advLen : UInt8) :
    State × Int :=
  if advDataLenMax < advLen ∧ advDataLenMax - 3 < advLen then (s, -1)
  else (s.sendAdv (.setAdvData advActvIdx (copied advBuff advLen)), 0)

def bleAppmSetScanRspData (s : State) (advActvIdx : UInt8) (scanBuff : Buf) (scanLen : UInt8) :
    State × Int :=
  if ¬scanLen ≤ advDataLenMax then (s, -1)
  else (s.sendAdv (.setScanRspData advActvIdx (copied scanBuff scanLen)), 0)

def bleAppmUpdateAdvData (s : State) (advActvIdx : UInt8) (advBuff : Buf) (advLen : UInt8) :
    State × Int :=
  if advLen ≤ advDataLenMax then
    (s.sendAdv (.setAdvData advActvIdx (copied advBuff advLen)), 0)
  else (s, -1)

def bleAppmUpdataScanRspData (s : State) (advActvIdx : UInt8) (scanBuff : Buf) (scanLen : UInt8) :
    State × Int :=
  bleAppmSetScanRspData s advActvIdx scanBuff scanLen

def bleAppmCreateScaning (s : State) : State := s.send .createScan

def bleAppmStartScaning (s : State) : State :=
  if s.scanState = .created then
    { s with scanState := .starting, scanOp := some .startActivity }.send
      (.start .scan s.scanActvIdx)
  else s

def bleAppmStopScaning (s : State) : State :=
  { s with scanState := .stopping, scanOp := some .stopActivity }.send (.stop .scan s.scanActvIdx)

/-! ## Advertising data -/

def gapAdTypeFlags : UInt8 := 0x01

/-- `ble_app_gapm_adv_is_advtype_unique` -/
def bleAppGapmAdvIsAdvtypeUnique (type : UInt8) : Bool :=
  type ∈ [0x02, 0x03, 0x04, 0x05, 0x06, 0x07, 0x08, 0x09, 0x19, 0x1A, 0x17, 0x18, 0x1B, 0x1C,
    gapAdTypeFlags]

/-- Where the loop of `ble_app_gapm_adv_check_data_sanity` ends; `dupFilter` are the types whose
bit is set. -/
def checkDataSanityLoop (length : Nat) (data : Buf) (cursor : Nat) (dupFilter : List UInt8) :
    Nat :=
  if cursor < length then
    let adType := data (cursor + 1)
    let next := cursor + ((data cursor).toNat + 1)
    if bleAppGapmAdvIsAdvtypeUnique adType then
      if adType ∈ dupFilter then cursor
      else checkDataSanityLoop length data next (adType :: dupFilter)
    else checkDataSanityLoop length data next dupFilter
  else cursor
termination_by length - cursor

/-- `ble_app_gapm_adv_check_data_sanity` -/
def bleAppGapmAdvCheckDataSanity (length : UInt16) (data : Buf) : Bool :=
  checkDataSanityLoop length.toNat data 0 [gapAdTypeFlags] = length.toNat

/-! ## Advertising -/

def appmCreateAdvertising (s : State) : State :=
  if s.advState = .idle then
    { bleAppmCreateAdvertising s s.advInfo.channelMap s.advInfo.intervalMin.toUInt32
        s.advInfo.intervalMax.toUInt32 with advState := .creating }
  else s

def appmSetAdvData (s : State) : State :=
  (bleAppmSetAdvData { s with advState := .settingAdvData } s.advActvIdx s.advInfo.advData
    s.advInfo.advDataLen).1

def appmSetScanRspData (s : State) : State :=
  (bleAppmSetScanRspData { s with advState := .settingScanRspData } s.advActvIdx
    s.advInfo.respData s.advInfo.respDataLen).1

def appmStartAdvertisingCmd (s : State) : State :=
  if s.advState = .created ∨ s.advState = .settingScanRspData then
    bleAppmStartAdvertising { s with advState := .starting } s.advActvIdx
  else s

def appmStartAdvertising (s : State) : State × BleErr :=
  if s.advState = .idle then (appmCreateAdvertising s, .success) else (s, .advFail)

def appmStopAdvertising (s : State) : State × BleErr :=
  if s.advState = .started then
    (bleAppmStopAdvertising { s with advState := .stopping } s.advActvIdx, .success)
  else if s.advState ≠ .idle then (s, .stopAdvFail)
  else (s, .success)

def appmDeleteAdvertising (s : State) : State :=
  bleAppmDeleteAdvertising { s with advState := .deleteing } s.advActvIdx

def appmUpdataAdvData (s : State) (length : UInt16) (data : Buf) : State × UInt8 :=
  if ¬bleAppGapmAdvCheckDataSanity length data then (s, gapErrAdvDataInvalid)
  else if s.advState = .created ∨ s.advState = .started then
    ((bleAppmUpdateAdvData { s with advState := .updataAdvData } s.advActvIdx data
      length.toUInt8).1, gapErrNoError)
  else (s, gapErrCommandDisallowed)

def appmUpdataScanRspData (s : State) (length : UInt16) (data : Buf) : State × UInt8 :=
  if s.advState = .created ∨ s.advState = .started then
    ((bleAppmUpdataScanRspData { s with advState := .updataScanRspData } s.advActvIdx data
      length.toUInt8).1, gapErrNoError)
  else (s, gapErrCommandDisallowed)

/-- `appm_update_adv_data`; the scan response data are not looked at. -/
def appmUpdateAdvData (s : State) (advBuff : Buf) (advLen : UInt8) : State × Int :=
  if s.advState = .started then
    bleAppmUpdateAdvData { s with advState := .updata2AdvData } s.advActvIdx advBuff advLen
  else (s, -1)

def appmUpdateAdvScanHandler (s : State) : State :=
  (bleAppmSetScanRspData { s with advState := .updata2ScanRspData } s.advActvIdx
    s.advInfo.respData s.advInfo.respDataLen).1

/-- `appm_adv_fsm_next`; `flag` is set for an error. -/
def appmAdvFsmNext (s : State) (flag : Bool) : Option State :=
  match s.advState with
  | .idle => some (appmCreateAdvertising s)
  | .creating => some (if flag then { s with advState := .idle } else appmSetAdvData s)
  | .settingAdvData => some (if flag then appmDeleteAdvertising s else appmSetScanRspData s)
  | .settingScanRspData =>
    some (if flag then appmDeleteAdvertising s else appmStartAdvertisingCmd s)
  | .created => some (appmStartAdvertisingCmd s)
  | .starting =>
    some (if flag then appmDeleteAdvertising s else { s with advState := .started })
  | .updataAdvData => some { s with advState := .started }
  | .updataScanRspData => some { s with advState := .started }
  | .started => some (appmStopAdvertising s).1
  | .stopping => some (appmDeleteAdvertising s)
  | .deleteing => some { s with advState := .idle }
  | .updata2AdvData =>
    some (if flag then { s with advState := .started } else appmUpdateAdvScanHandler s)
  | .updata2ScanRspData => some { s with advState := .started }
  | .waitingDelete => none

/-! ## Scanning -/

/-- `appm_create_scaning`. In `APP_SCAN_STATE_CREATED` it calls `appm_scan_fsm_next`, which sends
the start. -/
def appmCreateScaning (s : State) : State :=
  if s.scanState = .idle then bleAppmCreateScaning { s with scanState := .creating }
  else if s.scanState = .created then bleAppmStartScaning s
  else s

def appmStartScaning (s : State) : State × BleErr :=
  if s.scanState = .idle ∨ s.scanState = .created then (appmCreateScaning s, .success)
  else (s, .scanFail)

def appmStopScaning (s : State) : State × BleErr :=
  if s.scanState = .started then (bleAppmStopScaning s, .success) else (s, .scanFail)

def appmScanFsmNext (s : State) : State :=
  match s.scanState with
  | .idle => appmCreateScaning s
  | .creating | .created => bleAppmStartScaning s
  | .starting => { s with scanState := .started }
  | .started => bleAppmStopScaning s
  | .stopping => { s with scanState := .created }

/-! ## Events -/

/-- `BLE_UPDATA_ADV_DATA_IND` and `BLE_UPDATA_SCAN_RSP_IND`, with the status. -/
inductive Notice where
  | updataAdvDataInd (status : UInt8)
  | updataScanRspInd (status : UInt8)
  deriving DecidableEq

/-- What the application is told about an update of its data. -/
def notice (advState : AdvState) (operation : Operation) (status : UInt8) : Option Notice :=
  if advState = .updataAdvData ∨ advState = .updataScanRspData ∨ advState = .updata2AdvData ∨
      advState = .updata2ScanRspData then
    match operation with
    | .setAdvData => some (.updataAdvDataInd status)
    | .setScanRspData => some (.updataScanRspInd status)
    | _ => none
  else none

/-- The advertising moves on if it is in the state. -/
def advNextIn (s : State) (advState : AdvState) (flag : Bool) : Option State :=
  if s.advState = advState then appmAdvFsmNext s flag else some s

/-- The scan moves on if it is in the state. -/
def scanNextIn (s : State) (scanState : ScanState) : State :=
  if s.scanState = scanState then appmScanFsmNext s else s

/-- `ble_common_event_callback_handler` -/
def bleCommonEventCallbackHandler (s : State) (operation : Operation) (status : UInt8) :
    Option (State × Option Notice) :=
  match operation with
  | .createAdvActivity | .setAdvData | .setScanRspData =>
    if s.advOp = some operation then
      (appmAdvFsmNext s (status ≠ gapErrNoError)).map (·, notice s.advState operation status)
    else none
  | .startActivity =>
    if status = gapErrNoError then
      (advNextIn s .starting false).map fun s => (scanNextIn s .starting, none)
    else (advNextIn s .starting (status ≠ gapErrCommandDisallowed)).map (·, none)
  | .stopActivity =>
    if status = gapErrNoError then
      (advNextIn s .stopping false).map fun s => (scanNextIn s .stopping, none)
    else some (s, none)
  | .deleteActivity =>
    if status = gapErrNoError then (advNextIn s .deleteing false).map (·, none)
    else some (s, none)
  | .createScanActivity =>
    some (if status = gapErrNoError then appmScanFsmNext s else s, none)

/-- `ble_activity_stopped_event_callback_handler` -/
def bleActivityStoppedEventCallbackHandler (s : State) (type : ActvType) : Option State :=
  if s.advState = .started ∧ type = .adv then
    appmAdvFsmNext { s with advState := .stopping } false
  else if s.advState = .waitingDelete ∧ type = .adv then appmAdvFsmNext s false
  else if s.scanState = .started ∧ type = .scan then
    some (appmScanFsmNext { s with scanState := .stopping })
  else some s

/-- `ble_actiove_created_ind_handler` -/
def bleActioveCreatedIndHandler (s : State) (type : ActvType) (actvIdx : UInt8) : State :=
  match type with
  | .adv => if s.advState = .creating then { s with advActvIdx := actvIdx } else s
  | .scan =>
    if s.scanState = .creating then { s with scanActvIdx := actvIdx, scanState := .created } else s

/-! ## The controller -/

def State.actv (s : State) : ActvType → Actv
  | .adv => s.advActv
  | .scan => s.scanActv

def State.setActv (s : State) (type : ActvType) (actv : Actv) : State :=
  match type with
  | .adv => { s with advActv := actv }
  | .scan => { s with scanActv := actv }

def State.indicated (s : State) : ActvType → Bool
  | .adv => s.advIndicated
  | .scan => s.scanIndicated

def State.setIndicated (s : State) (type : ActvType) (indicated : Bool) : State :=
  match type with
  | .adv => { s with advIndicated := indicated }
  | .scan => { s with scanIndicated := indicated }

/-- The command creates an activity. -/
def Cmd.creates : Cmd → Bool
  | createAdv _ _ _ => true
  | createScan => true
  | _ => false

/-- What a command does in the controller when it succeeds. -/
def State.perform (s : State) : Cmd → State
  | .createAdv _ _ _ => s.setActv .adv .created
  | .createScan => s.setActv .scan .created
  | .start type _ => s.setActv type .running
  | .stop type _ => s.setActv type .created
  | .delete _ => s.setActv .adv .none
  | .setAdvData _ _ | .setScanRspData _ _ => s

/-- The controller is done with the command at place `k`. -/
def State.answer (s : State) (k : Nat) (cmd : Cmd) (status : UInt8) : State :=
  let s := { s with outstanding := s.outstanding.eraseIdx k }
  let s := if cmd.creates then s.setIndicated cmd.owner false else s
  if status = gapErrNoError then s.perform cmd else s

/-- What the application keeps is left alone by the controller. -/
theorem State.answer_app (s : State) (k : Nat) (cmd : Cmd) (status : UInt8) :
    (s.answer k cmd status).advState = s.advState ∧ (s.answer k cmd status).advOp = s.advOp ∧
      (s.answer k cmd status).scanState = s.scanState ∧
      (s.answer k cmd status).advInfo = s.advInfo ∧
      (s.answer k cmd status).outstanding = s.outstanding.eraseIdx k := by
  rw [answer]
  by_cases hstatus : status = gapErrNoError
  · rw [if_pos hstatus]
    cases cmd with
    | start type idx => cases type <;> exact ⟨rfl, rfl, rfl, rfl, rfl⟩
    | stop type idx => cases type <;> exact ⟨rfl, rfl, rfl, rfl, rfl⟩
    | _ => exact ⟨rfl, rfl, rfl, rfl, rfl⟩
  · rw [if_neg hstatus]
    cases cmd <;> exact ⟨rfl, rfl, rfl, rfl, rfl⟩

/-- A success of a creation comes after its indication. -/
def State.Answers (s : State) (cmd : Cmd) (status : UInt8) : Prop :=
  cmd.creates = true ∧ status = gapErrNoError → s.indicated cmd.owner = true

instance (s : State) (cmd : Cmd) (status : UInt8) : Decidable (s.Answers cmd status) :=
  inferInstanceAs (Decidable (_ → _))

/-! ## Runs -/

/-- What happens next: a call of the application, or an event from the controller. -/
inductive Input where
  | startAdvertising
  | stopAdvertising
  | updataAdvData (length : UInt16) (data : Buf)
  | updataScanRspData (length : UInt16) (data : Buf)
  | updateAdvData (advBuff : Buf) (advLen : UInt8)
  | startScaning
  | stopScaning
  /-- `BLE_COMMON_EVT` for the command at place `k` of those that are not answered -/
  | commonEvt (k : Nat) (status : UInt8)
  | activityCreatedInd (type : ActvType) (actvIdx : UInt8)
  | activityStoppedInd (type : ActvType)

/-- What the application gets back. -/
inductive Output where
  | err (err : BleErr)
  | status (status : UInt8)
  | ret (ret : Int)
  | event (notice : Option Notice)

/-- One input. An event that the controller cannot have raised does not happen. -/
def step : Machine State Input Output := fun s input =>
  match input with
  | .startAdvertising =>
    let r := appmStartAdvertising s
    some (r.1, .err r.2)
  | .stopAdvertising =>
    let r := appmStopAdvertising s
    some (r.1, .err r.2)
  | .updataAdvData length data =>
    let r := appmUpdataAdvData s length data
    some (r.1, .status r.2)
  | .updataScanRspData length data =>
    let r := appmUpdataScanRspData s length data
    some (r.1, .status r.2)
  | .updateAdvData advBuff advLen =>
    let r := appmUpdateAdvData s advBuff advLen
    some (r.1, .ret r.2)
  | .startScaning =>
    let r := appmStartScaning s
    some (r.1, .err r.2)
  | .stopScaning =>
    let r := appmStopScaning s
    some (r.1, .err r.2)
  | .commonEvt k status =>
    match s.outstanding[k]? with
    | none => some (s, .event none)
    | some cmd =>
      if s.Answers cmd status then
        (bleCommonEventCallbackHandler (s.answer k cmd status) cmd.operation status).map
          fun r => (r.1, .event r.2)
      else some (s, .event none)
  | .activityCreatedInd type actvIdx =>
    if (∃ cmd ∈ s.outstanding, cmd.creates = true ∧ cmd.owner = type) ∧
        s.indicated type = false then
      some (bleActioveCreatedIndHandler (s.setIndicated type true) type actvIdx, .event none)
    else some (s, .event none)
  | .activityStoppedInd type =>
    if s.actv type = .running then
      (bleActivityStoppedEventCallbackHandler (s.setActv type .created) type).map
        (·, .event none)
    else some (s, .event none)

end TuyaSdk.BleApp
