import TuyaSdk.Flash.Adapter
import TuyaSdk.Lib.Handles
import TuyaSdk.ManualCal.Loads

/-!
# The handles of the calibration

Each function on the partition keeps the handle of the flash device in a variable of its own. What
it does with the handle follows from what it finds in the flash, from its allocations and from how
the reads and writes come out; these are its arguments here. `bk_flash_enable_security`, which
`manual_cal_update_flash_area` calls around its write, opens the device and does not close it.
-/

namespace TuyaSdk.ManualCal.Handles
open TuyaSdk.Lib TuyaSdk.Lib.Handles TuyaSdk.DrvModel TuyaSdk.Flash.Adapter

/-! ## The device -/

/-- What `ddev_open` does to the slot of the device. -/
def openSlot (d : DrvDev) : DrvDev :=
  match d.state with
  | .opened => { d with useCnt := u32 (d.useCnt + 1) }
  | _ => { d with state := .opened, useCnt := u32 (0 + 1) }

/-- What `ddev_close` does to the slot of the device. -/
def closeSlot (d : DrvDev) : DrvDev :=
  let d := { d with useCnt := sub32 d.useCnt 1 }
  if d.useCnt = 0 then { d with state := .closed } else d

theorem ddevOpen_slot {tbl : DrvDevTbl} {k : Nat} (op ret : Nat)
    (hfind : findName tbl flashDevName ddMaxDev 0 = some (some k))
    (hstate : (tbl k).state = .opened ∨ (tbl k).state = .closed) :
    ∃ r, DrvModel.ddevOpen tbl flashDevName false op ret =
      some (Function.update tbl k (openSlot (tbl k)), r) ∧
        r.ret = (ddevMakeHandle k).toNat := by
  rw [DrvModel.ddevOpen, if_neg (by decide), hfind]
  rcases hstate with hopened | hclosed
  · simp only [openSlot, hopened]
    exact ⟨_, rfl, rfl⟩
  · simp only [openSlot, hclosed]
    exact ⟨_, rfl, rfl⟩

theorem ddevClose_slot {tbl : DrvDevTbl} {k : Nat} (hk : k < ddMaxDev) :
    ∃ r, DrvModel.ddevClose tbl (ddevMakeHandle k) =
      some (Function.update tbl k (closeSlot (tbl k)), r) := by
  rw [DrvModel.ddevClose, ddevGetId_makeHandle hk]
  simp only [if_neg (Nat.not_le.mpr hk), closeSlot]
  by_cases hzero : sub32 (tbl k).useCnt 1 = 0
  · rw [if_pos hzero, if_pos hzero]
    exact ⟨_, rfl⟩
  · rw [if_neg hzero, if_neg hzero]
    exact ⟨_, rfl⟩

/-- The flash device with its holders. -/
def flashDevice : Device DrvDev where
  acquire := openSlot
  release := closeSlot
  holders := slotOf (flashDevName, flashOp)
  bound := 2 ^ 32
  acquire_holders := by
    intro n hn
    cases n with
    | zero => rfl
    | succ n =>
      rw [openSlot, slotOf, slotOf, if_neg (Nat.succ_ne_zero n), if_neg (Nat.succ_ne_zero _)]
      simp only [u32_of_lt hn]
  release_holders := by
    intro n hn
    have hcnt : sub32 (n + 1) 1 = n := by
      rw [sub32_of_le (Nat.le_add_left 1 n) hn, Nat.add_sub_cancel]
    simp only [closeSlot, slotOf, hcnt, if_neg (Nat.succ_ne_zero n)]
    split_ifs <;> rfl

/-! ## The functions -/

/-- `ddev_open` -/
def ddevOpen : Call Unit := .perform .acquire

/-- `ddev_read`, `ddev_write` and `ddev_control` -/
def ddevAccess : Call Unit := .perform .use

/-- `ddev_close` -/
def ddevClose : Call Unit := .perform .release

/-- `n` accesses -/
def accesses : Nat → Call Unit
  | 0 => pure ()
  | n + 1 => do
    ddevAccess
    accesses n

/-- `manual_cal_search_opt_tab`; there is a header in the flash that gives the length. -/
def manualCalSearchOptTab (opt : Option Nat) : Call (Option Nat) := do
  ddevOpen
  ddevAccess
  ddevClose
  return opt

/-- What a search finds: the header, how many heads it reads, and the address. -/
structure Search where
  opt : Option Nat
  heads : Nat
  addr : Nat

/-- `manual_cal_search_txpwr_tab` -/
def manualCalSearchTxpwrTab (o : Search) : Call Nat := do
  match ← (manualCalSearchOptTab o.opt).nested with
  | none => return 0
  | some _ =>
    ddevOpen
    ddevAccess
    accesses o.heads
    ddevClose
    return o.addr

/-- The search finds an element. -/
def Search.Found (o : Search) : Prop := o.opt ≠ none ∧ o.addr ≠ 0

instance (o : Search) : Decidable o.Found := inferInstanceAs (Decidable (_ ∧ _))

/-- `bk_flash_enable_security` -/
def bkFlashEnableSecurity : Call Unit := do
  ddevOpen
  ddevAccess

/-- A pass from `write_again` on: whether the read, the write and the read of the check succeed,
the value is there already, and the check finds it. -/
structure Attempt where
  readOk : Bool
  same : Bool
  writeOk : Bool
  checkReadOk : Bool
  checkOk : Bool

/-- What an update finds: the header, its buffer, and the passes by the tries that are left. -/
structure Update where
  opt : Option Nat
  alloc : Bool
  attempt : Nat → Attempt

/-- From `write_again` on. -/
def writeAgain (addrOffset : Nat) (o : Update) : Nat → Call Nat
  | 0 => return 0
  | tries + 1 => do
    let a := o.attempt tries
    .onlyIf (addrOffset ≠ 0) ddevAccess
    if addrOffset ≠ 0 ∧ a.readOk = false then return 1
    if addrOffset ≠ 0 ∧ a.same = true then return 0
    bkFlashEnableSecurity.nested
    ddevAccess
    ddevAccess
    if a.writeOk = false then return 1
    bkFlashEnableSecurity.nested
    ddevAccess
    if a.checkReadOk = false then return 1
    if a.checkOk = true then return 0
    writeAgain addrOffset o tries

/-- `manual_cal_update_flash_area` -/
def manualCalUpdateFlashArea (addrOffset len : Nat) (o : Update) : Call Nat := do
  if addrOffset > BK_FLASH_SECTOR_SIZE then return 1
  if len = 0 then return 0
  let _ ← (manualCalSearchOptTab o.opt).nested
  if o.alloc = false then return 1
  ddevOpen
  let ret ← writeAgain addrOffset o BK_FLASH_WRITE_CHECK_TIMES
  ddevClose
  return ret

/-- The update does not come to its write. -/
def Update.Quiet (o : Update) (addrOffset len : Nat) : Prop :=
  addrOffset > BK_FLASH_SECTOR_SIZE ∨ len = 0 ∨ o.alloc = false ∨
    addrOffset ≠ 0 ∧ ((o.attempt 2).readOk = false ∨ (o.attempt 2).same = true)

/-- `manual_cal_read_flash`, which is `manual_cal_read_otp_flash` -/
def manualCalReadFlash (addrOffset : Nat) : Call Unit := do
  if addrOffset > BK_FLASH_SECTOR_SIZE then return
  ddevOpen
  ddevAccess
  ddevClose

/-- A table is looked up and read. -/
def loadTab (o : Search) : Call Unit := do
  let addr ← (manualCalSearchTxpwrTab o).nested
  .onlyIf (addr ≠ 0) (accesses 2)

/-- `manual_cal_load_txpwr_tab_flash`; a search for each type of a table. -/
def manualCalLoadTxpwrTabFlash (auto : Bool) (group enable : Search) (isReady : Nat)
    (tab : Nat → Search) : Call Nat := do
  if auto then return TXPWR_NONE_RD
  let addrStart ← (manualCalSearchTxpwrTab group).nested
  if addrStart = 0 then return TXPWR_NONE_RD
  let addr ← (manualCalSearchTxpwrTab enable).nested
  if addr = 0 then return TXPWR_NONE_RD
  ddevOpen
  accesses 2
  if isReady = TXPWR_NONE_RD then return TXPWR_NONE_RD
  .onlyIf (isReady &&& 0x1 ≠ 0) (loadTab (tab TXPWR_TAB_B_ID))
  .onlyIf (isReady &&& 0x2 ≠ 0) do
    loadTab (tab TXPWR_TAB_G_ID)
    loadTab (tab TXPWR_TAB_DIF_GN20_ID)
  .onlyIf (isReady &&& 0x4 ≠ 0) (loadTab (tab TXPWR_TAB_N_ID))
  loadTab (tab TXPWR_TAB_DIF_GN40_ID)
  .onlyIf (isReady &&& 0x8 ≠ 0) (loadTab (tab TXPWR_TAB_BLE_ID))
  ddevClose
  return isReady

/-- What a save finds: the header, its group, its buffer, and the update. -/
structure Save where
  opt : Option Nat
  group : Search
  alloc : Bool
  update : Update

/-- Where a save writes a group of `len` bytes, and how much. -/
def Save.area (o : Save) (flashLen len : Nat) : Nat × Nat :=
  if o.group.Found then (sub32 o.group.addr startAddr, len) else (0, u32 (flashLen + len))

/-- `manual_cal_save_txpwr_tab_to_flash`: `enable` is looked up in the group, or in the whole
partition when there is none. -/
def manualCalSaveTxpwrTabToFlash (o : Save) (enable : Search) : Call Nat := do
  ddevOpen
  match ← (manualCalSearchOptTab o.opt).nested with
  | none => return 0
  | some flashLen =>
    let addrStart ← (manualCalSearchTxpwrTab o.group).nested
    if o.alloc = false then return 0
    .onlyIf (addrStart = 0) do
      ddevAccess
      ddevClose
    let addr ← (manualCalSearchTxpwrTab enable).nested
    .onlyIf (addr ≠ 0) (accesses 2)
    ddevClose
    let area := o.area flashLen txpwrLen
    let _ ← (manualCalUpdateFlashArea area.1 area.2 o.update).nested
    return 1

/-- `manual_cal_save_chipinfo_tab_to_flash` -/
def manualCalSaveChipinfoTabToFlash (o : Save) : Call Nat := do
  ddevOpen
  match ← (manualCalSearchOptTab o.opt).nested with
  | none =>
    if o.alloc = false then return 0
    let _ ← (manualCalUpdateFlashArea 0 (chipinfoLen + sizeofTagTxpwr) o.update).nested
    return 1
  | some flashLen =>
    let addrStart ← (manualCalSearchTxpwrTab o.group).nested
    if o.alloc = false then return 0
    ddevAccess
    ddevClose
    let len := if addrStart = 0 then u32 (flashLen + chipinfoLen) else flashLen
    let _ ← (manualCalUpdateFlashArea 0 len o.update).nested
    return 1

/-- `manual_cal_save_cailmain_tx_tab_to_flash` and `manual_cal_save_cailmain_rx_tab_to_flash`, with
a group of `len` bytes. -/
def saveCailmain (len : Nat) (o : Save) : Call Nat := do
  ddevOpen
  match ← (manualCalSearchOptTab o.opt).nested with
  | none =>
    ddevClose
    return 0
  | some flashLen =>
    let addrStart ← (manualCalSearchTxpwrTab o.group).nested
    if o.alloc = false then
      ddevClose
      return 0
    .onlyIf (addrStart = 0) do
      ddevAccess
      ddevClose
    ddevClose
    let area := o.area flashLen len
    let _ ← (manualCalUpdateFlashArea area.1 area.2 o.update).nested
    return 1

def manualCalSaveCailmainTxTabToFlash (o : Save) : Call Nat := saveCailmain cailmainTxLen o

def manualCalSaveCailmainRxTabToFlash (o : Save) : Call Nat := saveCailmain cailmainRxLen o

/-- `manual_cal_get_macaddr_from_flash` and `manual_cal_get_rfcali_status_inflash`: an element of a
group is read. -/
def getElem (opt : Option Nat) (group elem : Search) : Call Nat := do
  ddevOpen
  match ← (manualCalSearchOptTab opt).nested with
  | none => return 0
  | some _ =>
    let addrStart ← (manualCalSearchTxpwrTab group).nested
    if addrStart = 0 then return 0
    let addr ← (manualCalSearchTxpwrTab elem).nested
    if addr = 0 then return 0
    accesses 2
    return 1

def manualCalGetMacaddrFromFlash (opt : Option Nat) (group elem : Search) : Call Nat :=
  getElem opt group elem

def manualCalGetRfcaliStatusInflash (opt : Option Nat) (group elem : Search) : Call Nat :=
  getElem opt group elem

/-- `manual_cal_g_rfcali_status`; the status is known, or the mode is automatic. -/
def manualCalGRfcaliStatus (known auto : Bool) (opt : Option Nat) (group elem : Search) :
    Call Unit := do
  if known then return
  if auto then return
  let _ ← (manualCalGetRfcaliStatusInflash opt group elem).nested
  return

/-- An element is looked up, and its value is read: `manual_cal_load_xtal_tag_from_flash`,
`manual_cal_load_temp_tag_from_flash` and `manual_cal_txpwr_tab_ready_in_flash`. -/
def loadValue (group elem : Search) : Call Unit := do
  let addrStart ← (manualCalSearchTxpwrTab group).nested
  if addrStart = 0 then return
  let addr ← (manualCalSearchTxpwrTab elem).nested
  if addr = 0 then return
  ddevOpen
  accesses 2

def manualCalLoadXtalTagFromFlash (group elem : Search) : Call Unit := loadValue group elem

def manualCalLoadTempTagFromFlash (group elem : Search) : Call Unit := loadValue group elem

def manualCalTxpwrTabReadyInFlash (group elem : Search) : Call Unit := loadValue group elem

/-- One of the two values of `manual_cal_load_differ_tag_from_flash`. -/
def loadDiffer (elem : Search) : Call Unit := do
  let addr ← (manualCalSearchTxpwrTab elem).nested
  .onlyIf (addr ≠ 0) do
    ddevOpen
    accesses 2

/-- `manual_cal_load_differ_tag_from_flash` -/
def manualCalLoadDifferTagFromFlash (group n20 n40 : Search) : Call Unit := do
  let addrStart ← (manualCalSearchTxpwrTab group).nested
  if addrStart = 0 then return
  loadDiffer n20
  loadDiffer n40

/-- `manual_cal_load_calimain_tag_from_flash`; the value fits where it goes. -/
def manualCalLoadCalimainTagFromFlash (opt : Option Nat) (tag : Nat) (group elem : Search)
    (fits : Bool) : Call Int := do
  match ← (manualCalSearchOptTab opt).nested with
  | none => return -1
  | some _ =>
    match calimainGroup tag with
    | none => return 0
    | some _ =>
      let addrStart ← (manualCalSearchTxpwrTab group).nested
      if addrStart = 0 then return -2
      let addr ← (manualCalSearchTxpwrTab elem).nested
      if addr = 0 then return -3
      ddevOpen
      ddevAccess
      .onlyIf (fits = true) ddevAccess
      return 1

/-- What `manual_cal_write_macaddr_to_flash` finds before it looks up `TXID`; `defXtal` is that the
crystal has its default value. -/
structure MacInit where
  opt : Option Nat
  defXtal : Bool
  xtalGroup : Search
  xtal : Search
  chipinfo : Save

/-- A partition without a header is set up. -/
def macInit (o : MacInit) (opt : Option Nat) : Call Bool := do
  if opt ≠ none then return true
  .onlyIf (o.defXtal = true) (manualCalLoadXtalTagFromFlash o.xtalGroup o.xtal).nested
  let saved ← (manualCalSaveChipinfoTabToFlash o.chipinfo).nested
  return saved ≠ 0

/-- `manual_cal_write_macaddr_to_flash` -/
def manualCalWriteMacaddrToFlash (o : MacInit) (group elem : Search) (update : Update) :
    Call Nat := do
  ddevOpen
  let opt ← (manualCalSearchOptTab o.opt).nested
  let ready ← macInit o opt
  if ready = false then return 0
  let addrStart ← (manualCalSearchTxpwrTab group).nested
  if addrStart = 0 then return 0
  let addr ← (manualCalSearchTxpwrTab elem).nested
  if addr = 0 then return 0
  ddevAccess
  let off := sub32 (u32 (addr + sizeofTagTxpwr)) startAddr
  let _ ← (manualCalUpdateFlashArea off 6 update).nested
  return 1

/-- `manual_cal_set_rfcali_status_inflash`; the mode is that of the calibration. -/
def manualCalSetRfcaliStatusInflash (inMode : Bool) (opt : Option Nat)
    (group status enable : Search) (update update' : Update) : Call Nat := do
  if inMode = false then return 0
  ddevOpen
  match ← (manualCalSearchOptTab opt).nested with
  | none => return 0
  | some _ =>
    let addrStart ← (manualCalSearchTxpwrTab group).nested
    if addrStart = 0 then return 0
    let addr ← (manualCalSearchTxpwrTab status).nested
    if addr = 0 then return 0
    ddevAccess
    let off := sub32 (u32 (addr + sizeofTagTxpwr)) startAddr
    let _ ← (manualCalUpdateFlashArea off 4 update).nested
    let addr ← (manualCalSearchTxpwrTab enable).nested
    if addr = 0 then return 0
    ddevAccess
    let off := sub32 (u32 (addr + sizeofTagTxpwr)) startAddr
    let _ ← (manualCalUpdateFlashArea off 4 update').nested
    return 1

/-- `manual_cal_show_otp_flash` -/
def manualCalShowOtpFlash (opt : Option Nat) (alloc : Bool) : Call Unit := do
  ddevOpen
  let _ ← (manualCalSearchOptTab opt).nested
  .onlyIf (alloc = true) ddevAccess
  ddevClose

/-- `manual_cal_wirte_otp_flash` -/
def manualCalWirteOtpFlash (addr len : Nat) (update : Update) : Call Nat := do
  let ret ← (manualCalUpdateFlashArea (sub32 addr startAddr) len update).nested
  return ret

/-- `manual_cal_clear_otp_flash` -/
def manualCalClearOtpFlash (update : Update) : Call Unit := do
  let _ ← (manualCalUpdateFlashArea 0 1024 update).nested
  return

/-! ## What they leave -/

variable {h : Handle}

@[simp] theorem open_leaves :
    ddevOpen.leaves h = if h = .opened then none else some .opened := Call.leaves_acquire

@[simp] theorem access_leaves :
    ddevAccess.leaves h = if h = .opened then some .opened else none := Call.leaves_use

@[simp] theorem close_leaves :
    ddevClose.leaves h = if h = .opened then some .closed else none := Call.leaves_release

@[simp] theorem accesses_leaves (n : Nat) : (accesses n).leaves .opened = some .opened := by
  induction n with
  | zero => rfl
  | succ n ih => simp [accesses, ih]

@[simp] theorem searchOptTab_leaves (opt : Option Nat) :
    (manualCalSearchOptTab opt).nested.leaves h = some h := Call.leaves_nested rfl

@[simp] theorem searchOptTab_ret (opt : Option Nat) : (manualCalSearchOptTab opt).ret = opt := rfl

theorem searchTxpwrTab_neutral (o : Search) : (manualCalSearchTxpwrTab o).Neutral := by
  rw [Call.neutral_iff_settled, manualCalSearchTxpwrTab]
  cases hopt : o.opt with
  | none => rfl
  | some len => simp [Handle.settled]

@[simp] theorem searchTxpwrTab_leaves (o : Search) :
    (manualCalSearchTxpwrTab o).nested.leaves h = some h :=
  Call.leaves_nested (searchTxpwrTab_neutral o)

@[simp] theorem searchTxpwrTab_ret (o : Search) :
    (manualCalSearchTxpwrTab o).ret = 0 ↔ ¬o.Found := by
  rw [manualCalSearchTxpwrTab, Search.Found]
  cases hopt : o.opt with
  | none => simp
  | some len => simp

theorem security_leaves : bkFlashEnableSecurity.nested.leaves h = none :=
  Call.leaves_nested_leak (by decide)

theorem writeAgain_leaves (addrOffset : Nat) (o : Update) :
    (writeAgain addrOffset o BK_FLASH_WRITE_CHECK_TIMES).leaves .opened =
      if addrOffset ≠ 0 ∧ ((o.attempt 2).readOk = false ∨ (o.attempt 2).same = true) then
        some .opened
      else none := by
  have hread : (Call.onlyIf (addrOffset ≠ 0) ddevAccess).leaves .opened = some .opened :=
    Call.leaves_onlyIf (by simp)
  rw [writeAgain]
  simp only [Call.leaves_bind, hread, Option.bind_some]
  by_cases hoff : addrOffset = 0
  · simp [hoff, security_leaves]
  · by_cases hok : (o.attempt 2).readOk = false
    · simp [hoff, hok]
    · by_cases hsame : (o.attempt 2).same = true
      · simp [hoff, hok, hsame]
      · simp [hoff, hok, hsame, security_leaves]

theorem update_neutral_iff (addrOffset len : Nat) (o : Update) :
    (manualCalUpdateFlashArea addrOffset len o).Neutral ↔ o.Quiet addrOffset len := by
  rw [manualCalUpdateFlashArea, Update.Quiet]
  by_cases hfar : addrOffset > BK_FLASH_SECTOR_SIZE
  · rw [if_pos hfar]
    exact iff_of_true rfl (.inl hfar)
  by_cases hlen : len = 0
  · rw [if_neg hfar, if_pos hlen]
    exact iff_of_true rfl (.inr (.inl hlen))
  rw [if_neg hfar, if_neg hlen, or_iff_right hfar, or_iff_right hlen]
  by_cases halloc : o.alloc = false
  · refine iff_of_true ?_ (.inl halloc)
    simp [Call.neutral_iff_settled, halloc, Handle.settled]
  rw [or_iff_right halloc, Call.neutral_iff_settled]
  simp only [Call.leaves_bind, searchOptTab_leaves, if_neg halloc, Option.bind_some, open_leaves,
    reduceCtorEq, if_false, writeAgain_leaves]
  split_ifs with hquiet
  · refine iff_of_true ?_ hquiet
    simp [Handle.settled]
  · exact iff_of_false (by simp) hquiet

/-! ## The calls -/

/-- A call of a function on the partition, with what it finds. -/
inductive Op where
  | searchOptTab (opt : Option Nat)
  | searchTxpwrTab (o : Search)
  | updateFlashArea (addrOffset len : Nat) (o : Update)
  | readFlash (addrOffset : Nat)
  | loadTxpwrTabFlash (auto : Bool) (group enable : Search) (isReady : Nat) (tab : Nat → Search)
  | saveTxpwrTabToFlash (o : Save) (enable : Search)
  | saveChipinfoTabToFlash (o : Save)
  | saveCailmainTxTabToFlash (o : Save)
  | saveCailmainRxTabToFlash (o : Save)
  | getMacaddrFromFlash (opt : Option Nat) (group elem : Search)
  | writeMacaddrToFlash (o : MacInit) (group elem : Search) (update : Update)
  | getRfcaliStatusInflash (opt : Option Nat) (group elem : Search)
  | gRfcaliStatus (known auto : Bool) (opt : Option Nat) (group elem : Search)
  | setRfcaliStatusInflash (inMode : Bool) (opt : Option Nat) (group status enable : Search)
      (update update' : Update)
  | loadXtalTagFromFlash (group elem : Search)
  | loadTempTagFromFlash (group elem : Search)
  | txpwrTabReadyInFlash (group elem : Search)
  | loadDifferTagFromFlash (group n20 n40 : Search)
  | loadCalimainTagFromFlash (opt : Option Nat) (tag : Nat) (group elem : Search) (fits : Bool)
  | showOtpFlash (opt : Option Nat) (alloc : Bool)
  | wirteOtpFlash (addr len : Nat) (update : Update)
  | clearOtpFlash (update : Update)

/-- What a call does with its handle. -/
def Op.events : Op → List Event
  | searchOptTab opt => (manualCalSearchOptTab opt).events
  | searchTxpwrTab o => (manualCalSearchTxpwrTab o).events
  | updateFlashArea addrOffset len o => (manualCalUpdateFlashArea addrOffset len o).events
  | readFlash addrOffset => (manualCalReadFlash addrOffset).events
  | loadTxpwrTabFlash auto group enable isReady tab =>
    (manualCalLoadTxpwrTabFlash auto group enable isReady tab).events
  | saveTxpwrTabToFlash o enable => (manualCalSaveTxpwrTabToFlash o enable).events
  | saveChipinfoTabToFlash o => (manualCalSaveChipinfoTabToFlash o).events
  | saveCailmainTxTabToFlash o => (manualCalSaveCailmainTxTabToFlash o).events
  | saveCailmainRxTabToFlash o => (manualCalSaveCailmainRxTabToFlash o).events
  | getMacaddrFromFlash opt group elem => (manualCalGetMacaddrFromFlash opt group elem).events
  | writeMacaddrToFlash o group elem update =>
    (manualCalWriteMacaddrToFlash o group elem update).events
  | getRfcaliStatusInflash opt group elem =>
    (manualCalGetRfcaliStatusInflash opt group elem).events
  | gRfcaliStatus known auto opt group elem =>
    (manualCalGRfcaliStatus known auto opt group elem).events
  | setRfcaliStatusInflash inMode opt group status enable update update' =>
    (manualCalSetRfcaliStatusInflash inMode opt group status enable update update').events
  | loadXtalTagFromFlash group elem => (manualCalLoadXtalTagFromFlash group elem).events
  | loadTempTagFromFlash group elem => (manualCalLoadTempTagFromFlash group elem).events
  | txpwrTabReadyInFlash group elem => (manualCalTxpwrTabReadyInFlash group elem).events
  | loadDifferTagFromFlash group n20 n40 => (manualCalLoadDifferTagFromFlash group n20 n40).events
  | loadCalimainTagFromFlash opt tag group elem fits =>
    (manualCalLoadCalimainTagFromFlash opt tag group elem fits).events
  | showOtpFlash opt alloc => (manualCalShowOtpFlash opt alloc).events
  | wirteOtpFlash addr len update => (manualCalWirteOtpFlash addr len update).events
  | clearOtpFlash update => (manualCalClearOtpFlash update).events

/-- A save comes to its update with a closed handle, and the update does not come to its write. -/
def Save.Quiet (o : Save) (len : Nat) : Prop :=
  o.group.Found ∧ o.update.Quiet (sub32 o.group.addr startAddr) len

/-- What a call has to find to be balanced. -/
def Op.Quiet : Op → Prop
  | searchOptTab _ => True
  | searchTxpwrTab _ => True
  | updateFlashArea addrOffset len o => o.Quiet addrOffset len
  | readFlash _ => True
  | loadTxpwrTabFlash auto group enable isReady _ =>
    auto = true ∨ ¬group.Found ∨ ¬enable.Found ∨ isReady ≠ TXPWR_NONE_RD
  | saveTxpwrTabToFlash o _ => o.opt ≠ none ∧ o.alloc = true ∧ o.Quiet txpwrLen
  | saveChipinfoTabToFlash o => ∃ flashLen, o.opt = some flashLen ∧ o.alloc = true ∧
      o.update.Quiet 0 (if o.group.Found then flashLen else u32 (flashLen + chipinfoLen))
  | saveCailmainTxTabToFlash o => o.opt = none ∨ o.alloc = false ∨ o.Quiet cailmainTxLen
  | saveCailmainRxTabToFlash o => o.opt = none ∨ o.alloc = false ∨ o.Quiet cailmainRxLen
  | getMacaddrFromFlash _ _ _ => False
  | writeMacaddrToFlash _ _ _ _ => False
  | getRfcaliStatusInflash _ _ _ => False
  | gRfcaliStatus known auto _ _ _ => known = true ∨ auto = true
  | setRfcaliStatusInflash inMode _ _ _ _ _ _ => inMode = false
  | loadXtalTagFromFlash group elem => ¬group.Found ∨ ¬elem.Found
  | loadTempTagFromFlash group elem => ¬group.Found ∨ ¬elem.Found
  | txpwrTabReadyInFlash group elem => ¬group.Found ∨ ¬elem.Found
  | loadDifferTagFromFlash group n20 n40 => ¬group.Found ∨ ¬n20.Found ∧ ¬n40.Found
  | loadCalimainTagFromFlash opt tag group elem _ =>
    opt = none ∨ calimainGroup tag = none ∨ ¬group.Found ∨ ¬elem.Found
  | showOtpFlash _ _ => True
  | wirteOtpFlash addr len update => update.Quiet (sub32 addr startAddr) len
  | clearOtpFlash update => update.Quiet 0 1024

theorem update_leaves {addrOffset len : Nat} {o : Update} (hquiet : o.Quiet addrOffset len) :
    (manualCalUpdateFlashArea addrOffset len o).nested.leaves h = some h :=
  Call.leaves_nested ((update_neutral_iff addrOffset len o).mpr hquiet)

theorem update_leaves_leak {addrOffset len : Nat} {o : Update}
    (hquiet : ¬o.Quiet addrOffset len) :
    (manualCalUpdateFlashArea addrOffset len o).nested.leaves h = none :=
  Call.leaves_nested_leak fun hn => hquiet ((update_neutral_iff addrOffset len o).mp hn)

theorem readFlash_neutral (addrOffset : Nat) : (manualCalReadFlash addrOffset).Neutral := by
  rw [manualCalReadFlash]
  split_ifs
  · rfl
  · rfl

theorem loadTab_leaves (o : Search) : (loadTab o).leaves .opened = some .opened := by
  simp only [loadTab, Call.leaves_bind, searchTxpwrTab_leaves, Option.bind_some]
  exact Call.leaves_onlyIf (accesses_leaves 2)

theorem loadTxpwrTabFlash_iff (auto : Bool) (group enable : Search) (isReady : Nat)
    (tab : Nat → Search) : (manualCalLoadTxpwrTabFlash auto group enable isReady tab).Neutral ↔
      auto = true ∨ ¬group.Found ∨ ¬enable.Found ∨ isReady ≠ TXPWR_NONE_RD := by
  rw [manualCalLoadTxpwrTabFlash, Call.neutral_iff_settled]
  by_cases hauto : auto = true
  · rw [if_pos hauto]
    exact iff_of_true rfl (.inl hauto)
  rw [if_neg hauto, or_iff_right hauto]
  simp only [Call.leaves_bind, searchTxpwrTab_leaves, Option.bind_some, Call.ret_nested,
    searchTxpwrTab_ret]
  by_cases hgroup : group.Found
  · by_cases henable : enable.Found
    · by_cases hready : isReady = TXPWR_NONE_RD
      · simp [hgroup, henable, hready, Handle.settled]
      · have hg : (do
            loadTab (tab TXPWR_TAB_G_ID)
            loadTab (tab TXPWR_TAB_DIF_GN20_ID)).leaves .opened = some .opened := by
          simp only [Call.leaves_bind, loadTab_leaves, Option.bind_some]
        simp [hgroup, henable, hready, Handle.settled, Call.leaves_onlyIf, loadTab_leaves, hg]
    · simp [hgroup, henable, Handle.settled]
  · simp [hgroup, Handle.settled]

/-- The whole partition is written when there is no group. -/
theorem Save.area_of_found {o : Save} (h : o.group.Found) (flashLen len : Nat) :
    o.area flashLen len = (sub32 o.group.addr startAddr, len) := if_pos h

theorem saveTxpwrTabToFlash_iff (o : Save) (enable : Search) :
    (manualCalSaveTxpwrTabToFlash o enable).Neutral ↔
      o.opt ≠ none ∧ o.alloc = true ∧ o.Quiet txpwrLen := by
  rw [manualCalSaveTxpwrTabToFlash, Call.neutral_iff_settled, Save.Quiet]
  simp only [Call.leaves_bind, open_leaves, reduceCtorEq, if_false, Option.bind_some,
    searchOptTab_leaves, Call.ret_nested, searchOptTab_ret]
  cases hopt : o.opt with
  | none => simp [Handle.settled]
  | some flashLen =>
    simp only [Call.leaves_bind, searchTxpwrTab_leaves, Option.bind_some, Call.ret_nested]
    by_cases halloc : o.alloc = false
    · simp [halloc, Handle.settled]
    by_cases hgroup : o.group.Found
    · by_cases hquiet : o.update.Quiet (sub32 o.group.addr startAddr) txpwrLen
      · simp [halloc, hgroup, Call.onlyIf_neg, Call.leaves_onlyIf, Save.area_of_found hgroup,
          update_leaves hquiet, hquiet, Handle.settled]
      · simp [halloc, hgroup, Call.onlyIf_neg, Save.area_of_found hgroup,
          update_leaves_leak hquiet, hquiet]
    · by_cases henable : enable.Found
      · simp [halloc, hgroup, henable, Call.onlyIf_pos, accesses]
      · simp [halloc, hgroup, henable, Call.onlyIf_pos, Call.onlyIf_neg]

theorem saveChipinfoTabToFlash_iff (o : Save) :
    (manualCalSaveChipinfoTabToFlash o).Neutral ↔ ∃ flashLen, o.opt = some flashLen ∧
      o.alloc = true ∧
        o.update.Quiet 0 (if o.group.Found then flashLen else u32 (flashLen + chipinfoLen)) := by
  rw [manualCalSaveChipinfoTabToFlash]
  cases hopt : o.opt with
  | none =>
    refine iff_of_false (Call.Holds.not_neutral ?_) (by simp)
    refine Call.Holds.bind (Call.holds_nested _) ?_
    simp only [Call.ret_nested, searchOptTab_ret]
    split_ifs
    · exact Call.holds_pure 0
    · exact Call.Holds.bind (Call.holds_nested _) (Call.holds_pure 1)
  | some flashLen =>
    rw [Call.neutral_iff_settled]
    simp only [Call.leaves_bind, open_leaves, reduceCtorEq, if_false, Option.bind_some,
      searchOptTab_leaves, Call.ret_nested, searchOptTab_ret, searchTxpwrTab_leaves,
      searchTxpwrTab_ret, Option.some.injEq, exists_eq_left', ite_not]
    by_cases halloc : o.alloc = false
    · simp [halloc, Handle.settled]
    · by_cases hquiet :
        o.update.Quiet 0 (if o.group.Found then flashLen else u32 (flashLen + chipinfoLen))
      · simp [halloc, update_leaves hquiet, hquiet, Handle.settled]
      · simp [halloc, update_leaves_leak hquiet, hquiet]

theorem saveCailmain_iff (len : Nat) (o : Save) : (saveCailmain len o).Neutral ↔
    o.opt = none ∨ o.alloc = false ∨ o.Quiet len := by
  rw [saveCailmain, Call.neutral_iff_settled, Save.Quiet]
  simp only [Call.leaves_bind, open_leaves, reduceCtorEq, if_false, Option.bind_some,
    searchOptTab_leaves, Call.ret_nested, searchOptTab_ret]
  cases hopt : o.opt with
  | none => simp [Handle.settled]
  | some flashLen =>
    simp only [Call.leaves_bind, searchTxpwrTab_leaves, Option.bind_some, Call.ret_nested]
    by_cases halloc : o.alloc = false
    · simp [halloc, Handle.settled]
    by_cases hgroup : o.group.Found
    · by_cases hquiet : o.update.Quiet (sub32 o.group.addr startAddr) len
      · simp [halloc, hgroup, Call.onlyIf_neg, Save.area_of_found hgroup, update_leaves hquiet,
          hquiet, Handle.settled]
      · simp [halloc, hgroup, Call.onlyIf_neg, Save.area_of_found hgroup,
          update_leaves_leak hquiet, hquiet]
    · simp [halloc, hgroup, Call.onlyIf_pos]

theorem access_holds : ddevAccess.Holds := Call.holds_use

theorem accesses_holds (n : Nat) : (accesses n).Holds := by
  induction n with
  | zero => exact Call.holds_pure ()
  | succ n ih => exact access_holds.bind ih

/-- An element that is read with a handle that is not closed. -/
theorem getElem_leaks (opt : Option Nat) (group elem : Search) :
    ¬(getElem opt group elem).Neutral := by
  refine Call.Holds.not_neutral (Call.Holds.bind (Call.holds_nested _) ?_)
  simp only [Call.ret_nested, searchOptTab_ret]
  cases opt with
  | none => exact Call.holds_pure 0
  | some len =>
    refine Call.Holds.bind (Call.holds_nested _) ?_
    split_ifs
    · exact Call.holds_pure 0
    refine Call.Holds.bind (Call.holds_nested _) ?_
    split_ifs
    · exact Call.holds_pure 0
    · exact (accesses_holds 2).bind (Call.holds_pure 1)

theorem gRfcaliStatus_iff (known auto : Bool) (opt : Option Nat) (group elem : Search) :
    (manualCalGRfcaliStatus known auto opt group elem).Neutral ↔ known = true ∨ auto = true := by
  rw [manualCalGRfcaliStatus]
  split_ifs with hknown hauto
  · exact iff_of_true rfl (.inl hknown)
  · exact iff_of_true rfl (.inr hauto)
  · refine iff_of_false ?_ (not_or.mpr ⟨hknown, hauto⟩)
    rw [Call.neutral_iff_settled, Call.leaves_bind, manualCalGetRfcaliStatusInflash,
      Call.leaves_nested_leak (getElem_leaks opt group elem)]
    exact Bool.false_ne_true

theorem loadValue_iff (group elem : Search) :
    (loadValue group elem).Neutral ↔ ¬group.Found ∨ ¬elem.Found := by
  rw [loadValue, Call.neutral_iff_settled]
  by_cases hgroup : group.Found
  · by_cases helem : elem.Found
    · simp [hgroup, helem, Handle.settled]
    · simp [hgroup, helem, Handle.settled]
  · simp [hgroup, Handle.settled]

theorem loadDifferTagFromFlash_iff (group n20 n40 : Search) :
    (manualCalLoadDifferTagFromFlash group n20 n40).Neutral ↔
      ¬group.Found ∨ ¬n20.Found ∧ ¬n40.Found := by
  rw [manualCalLoadDifferTagFromFlash, Call.neutral_iff_settled]
  by_cases hgroup : group.Found
  · by_cases h20 : n20.Found
    · by_cases h40 : n40.Found
      · simp [hgroup, h20, h40, loadDiffer, Call.onlyIf_pos]
      · simp [hgroup, h20, h40, loadDiffer, Call.onlyIf_pos, Call.onlyIf_neg, Handle.settled]
    · by_cases h40 : n40.Found
      · simp [hgroup, h20, h40, loadDiffer, Call.onlyIf_pos, Call.onlyIf_neg, Handle.settled]
      · simp [hgroup, h20, h40, loadDiffer, Call.onlyIf_neg, Handle.settled]
  · simp [hgroup, Handle.settled]

theorem loadCalimainTagFromFlash_iff (opt : Option Nat) (tag : Nat) (group elem : Search)
    (fits : Bool) : (manualCalLoadCalimainTagFromFlash opt tag group elem fits).Neutral ↔
      opt = none ∨ calimainGroup tag = none ∨ ¬group.Found ∨ ¬elem.Found := by
  rw [manualCalLoadCalimainTagFromFlash, Call.neutral_iff_settled]
  simp only [Call.leaves_bind, searchOptTab_leaves, Option.bind_some, Call.ret_nested,
    searchOptTab_ret]
  cases opt with
  | none => simp [Handle.settled]
  | some len =>
    cases calimainGroup tag with
    | none => simp [Handle.settled]
    | some type =>
      by_cases hgroup : group.Found
      · by_cases helem : elem.Found
        · simp [hgroup, helem, Call.leaves_onlyIf, Handle.settled]
        · simp [hgroup, helem, Handle.settled]
      · simp [hgroup, Handle.settled]

theorem macInit_holds (o : MacInit) (opt : Option Nat) : (macInit o opt).Holds := by
  unfold macInit
  split_ifs
  · exact Call.holds_pure true
  · refine (Call.holds_nested _).onlyIf.bind ?_
    exact (Call.holds_nested _).bind (Call.holds_pure _)

theorem writeMacaddrToFlash_leaks (o : MacInit) (group elem : Search) (update : Update) :
    ¬(manualCalWriteMacaddrToFlash o group elem update).Neutral := by
  refine Call.Holds.not_neutral (Call.Holds.bind (Call.holds_nested _) ?_)
  refine (macInit_holds o _).bind ?_
  split_ifs
  · exact Call.holds_pure 0
  refine (Call.holds_nested _).bind ?_
  split_ifs
  · exact Call.holds_pure 0
  refine (Call.holds_nested _).bind ?_
  split_ifs
  · exact Call.holds_pure 0
  · exact access_holds.bind ((Call.holds_nested _).bind (Call.holds_pure 1))

theorem setRfcaliStatusInflash_iff (inMode : Bool) (opt : Option Nat)
    (group status enable : Search) (update update' : Update) :
    (manualCalSetRfcaliStatusInflash inMode opt group status enable update update').Neutral ↔
      inMode = false := by
  rw [manualCalSetRfcaliStatusInflash]
  by_cases hmode : inMode = false
  · rw [if_pos hmode]
    exact iff_of_true rfl hmode
  rw [if_neg hmode]
  refine iff_of_false (Call.Holds.not_neutral (Call.Holds.bind (Call.holds_nested _) ?_)) hmode
  simp only [Call.ret_nested, searchOptTab_ret]
  cases opt with
  | none => exact Call.holds_pure 0
  | some len =>
    refine Call.Holds.bind (Call.holds_nested _) ?_
    split_ifs
    · exact Call.holds_pure 0
    refine Call.Holds.bind (Call.holds_nested _) ?_
    split_ifs
    · exact Call.holds_pure 0
    refine access_holds.bind (Call.Holds.bind (Call.holds_nested _) ?_)
    refine Call.Holds.bind (Call.holds_nested _) ?_
    split_ifs
    · exact Call.holds_pure 0
    · exact access_holds.bind ((Call.holds_nested _).bind (Call.holds_pure 1))

theorem showOtpFlash_neutral (opt : Option Nat) (alloc : Bool) :
    (manualCalShowOtpFlash opt alloc).Neutral := by
  rw [manualCalShowOtpFlash, Call.neutral_iff_settled]
  simp [Call.leaves_onlyIf, Handle.settled]

theorem wirteOtpFlash_iff (addr len : Nat) (update : Update) :
    (manualCalWirteOtpFlash addr len update).Neutral ↔ update.Quiet (sub32 addr startAddr) len :=
  Call.nested_neutral_iff.trans (update_neutral_iff _ _ _)

theorem clearOtpFlash_iff (update : Update) :
    (manualCalClearOtpFlash update).Neutral ↔ update.Quiet 0 1024 := by
  rw [manualCalClearOtpFlash, Call.neutral_iff_settled, Call.leaves_bind]
  by_cases hquiet : update.Quiet 0 1024
  · rw [update_leaves hquiet]
    exact iff_of_true rfl hquiet
  · rw [update_leaves_leak hquiet]
    exact iff_of_false Bool.false_ne_true hquiet

/-! ## Balance -/

/-- Every handle of the call is closed once and not used behind its close, and the device has as
many holders behind the call as before it, when its count does not run over. -/
def Op.Balances (op : Op) : Prop :=
  Balanced op.events ∧ ∀ n, n + opensAll op.events < 2 ^ 32 →
    onDeviceAll flashDevice (slotOf (flashDevName, flashOp) n) op.events =
      slotOf (flashDevName, flashOp) n

theorem Op.balanced_iff (op : Op) : Balanced op.events ↔ op.Quiet := by
  cases op with
  | searchOptTab opt => exact iff_of_true rfl trivial
  | searchTxpwrTab o => exact iff_of_true (searchTxpwrTab_neutral o) trivial
  | updateFlashArea addrOffset len o => exact update_neutral_iff addrOffset len o
  | readFlash addrOffset => exact iff_of_true (readFlash_neutral addrOffset) trivial
  | loadTxpwrTabFlash auto group enable isReady tab =>
    exact loadTxpwrTabFlash_iff auto group enable isReady tab
  | saveTxpwrTabToFlash o enable => exact saveTxpwrTabToFlash_iff o enable
  | saveChipinfoTabToFlash o => exact saveChipinfoTabToFlash_iff o
  | saveCailmainTxTabToFlash o => exact saveCailmain_iff cailmainTxLen o
  | saveCailmainRxTabToFlash o => exact saveCailmain_iff cailmainRxLen o
  | getMacaddrFromFlash opt group elem => exact iff_of_false (getElem_leaks opt group elem) id
  | writeMacaddrToFlash o group elem update =>
    exact iff_of_false (writeMacaddrToFlash_leaks o group elem update) id
  | getRfcaliStatusInflash opt group elem => exact iff_of_false (getElem_leaks opt group elem) id
  | gRfcaliStatus known auto opt group elem => exact gRfcaliStatus_iff known auto opt group elem
  | setRfcaliStatusInflash inMode opt group status enable update update' =>
    exact setRfcaliStatusInflash_iff inMode opt group status enable update update'
  | loadXtalTagFromFlash group elem => exact loadValue_iff group elem
  | loadTempTagFromFlash group elem => exact loadValue_iff group elem
  | txpwrTabReadyInFlash group elem => exact loadValue_iff group elem
  | loadDifferTagFromFlash group n20 n40 => exact loadDifferTagFromFlash_iff group n20 n40
  | loadCalimainTagFromFlash opt tag group elem fits =>
    exact loadCalimainTagFromFlash_iff opt tag group elem fits
  | showOtpFlash opt alloc => exact iff_of_true (showOtpFlash_neutral opt alloc) trivial
  | wirteOtpFlash addr len update => exact wirteOtpFlash_iff addr len update
  | clearOtpFlash update => exact clearOtpFlash_iff update

/-- A call is balanced just when it finds what keeps it from a leak. -/
theorem balances_iff (op : Op) : op.Balances ↔ op.Quiet := by
  rw [← op.balanced_iff]
  exact and_iff_left_of_imp fun h n hroom => h.holders flashDevice hroom

/-- An empty partition. -/
def nothing : Search := ⟨none, 0, 0⟩

/-- Getting the address from an empty partition leaves its handle open. -/
theorem not_balances : ¬(Op.getMacaddrFromFlash none nothing nothing).Balances :=
  fun h => absurd h.1 (by decide)

end TuyaSdk.ManualCal.Handles
