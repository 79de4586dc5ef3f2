import TuyaSdk.Flash.Device
import TuyaSdk.Lib.Tlv

/-!
# The calibration store (`manual_cal_bk7231U.c`)

The partition `BK_PARTITION_RF_FIRMWARE` holds one element `BK_FLASH_OPT_TLV_HEADER` of groups,
each an element of elements. A save looks its group up, lays it out in a buffer from the heap and
writes it with `manual_cal_update_flash_area`, in its place or behind the last group.

Allocations succeed, and a buffer has any contents. `none` is a search that does not end.
-/

namespace TuyaSdk.ManualCal
open TuyaSdk.Lib TuyaSdk.Flash

/-- `BK_FLASH_OPT_TLV_HEADER`. -/
abbrev BK_FLASH_OPT_TLV_HEADER : Nat := 0x00564c54

/-! ## Types of elements -/

abbrev TXID : Nat := 0x11111100
abbrev TXPWR_TAB_TAB : Nat := 0x22222200
abbrev CALI_MAIN_TX : Nat := 0x33333300
abbrev CALI_MAIN_RX : Nat := 0x44444400

abbrev TXID_ID : Nat := TXID + 1
abbrev TXID_MAC : Nat := TXID + 2
abbrev TXID_THERMAL : Nat := TXID + 3
abbrev TXID_CHANNEL : Nat := TXID + 4
abbrev TXID_XTAL : Nat := TXID + 5
abbrev TXID_ADC : Nat := TXID + 6
abbrev TXID_LPFCAP : Nat := TXID + 7

abbrev TXPWR_ENABLE_ID : Nat := TXPWR_TAB_TAB + 1
abbrev TXPWR_TAB_B_ID : Nat := TXPWR_TAB_TAB + 2
abbrev TXPWR_TAB_G_ID : Nat := TXPWR_TAB_TAB + 3
abbrev TXPWR_TAB_N_ID : Nat := TXPWR_TAB_TAB + 4
abbrev TXPWR_TAB_DIF_GN20_ID : Nat := TXPWR_TAB_TAB + 5
abbrev TXPWR_TAB_DIF_GN40_ID : Nat := TXPWR_TAB_TAB + 6
abbrev TXPWR_TAB_BLE_ID : Nat := TXPWR_TAB_TAB + 7
abbrev TXPWR_TAB_CALI_STATUTS : Nat := TXPWR_TAB_TAB + 8

/-- The types of the elements of `CALI_MAIN_TX`, from `CM_TX_DCOR_MOD` to `CM_TX_PHASE_TY2`. -/
abbrev cmTxType (i : Nat) : Nat := CALI_MAIN_TX + 1 + i

abbrev CM_RX_DC_GAIN_TAB : Nat := CALI_MAIN_RX + 1
abbrev CM_RX_AMP_ERR_WR : Nat := CALI_MAIN_RX + 2
abbrev CM_RX_PHASE_ERR_WR : Nat := CALI_MAIN_RX + 3

/-! ## Sizes and values -/

/-- `sizeof(TXPWR_ELEM_ST)`, which is also `sizeof(TAG_TXPWR_ST)`. -/
abbrev sizeofTagTxpwr : Nat := 8
/-- `sizeof(TAG_ENABLE_ST)`. -/
abbrev sizeofTagEnable : Nat := 12
/-- `sizeof(TAG_DIF_ST)`. -/
abbrev sizeofTagDif : Nat := 12
/-- `sizeof(TAG_TXPWR_TAB_ST)`. -/
abbrev sizeofTagTxpwrTab : Nat := 22
/-- `sizeof(TAG_TXPWR_TAB_BLE_ST)`. -/
abbrev sizeofTagTxpwrTabBle : Nat := 48
/-- `sizeof(TAG_COMM_ST)`. -/
abbrev sizeofTagComm : Nat := 12
/-- `sizeof(TAG_CHIPMAC_ST)`. -/
abbrev sizeofTagChipmac : Nat := 14
/-- `sizeof(TAG_LPF_IQ_ST)`. -/
abbrev sizeofTagLpfIq : Nat := 16
/-- `sizeof(TAG_RX_DC_ST)`. -/
abbrev sizeofTagRxDc : Nat := 40

abbrev DEFAULT_TXID_ID : Nat := 12345678
abbrev DEFAULT_TXID_CHANNEL : Nat := 22222222

/-- `TXPWR_NONE_RD`. -/
abbrev TXPWR_NONE_RD : Nat := 0

/-- `CALI_STA_NOFOUND`. -/
abbrev CALI_STA_NOFOUND : Nat := 0

/-- `manual_cal_txpwr_tab_is_fitted`: all four tables. -/
def manualCalTxpwrTabIsFitted : Nat := 0x1 ||| 0x2 ||| 0x4 ||| 0x8

/-- The current values that the saves read. -/
structure Globals where
  systemMac : Nat → Byte
  curTemp : Nat
  xtal : Nat
  saradcVal : Nat
  lpfCalI : Nat
  lpfCalQ : Nat
  txpwrTabB : Nat → Byte
  txpwrTabG : Nat → Byte
  txpwrTabN40 : Nat → Byte
  txpwrTabBle : Nat → Byte
  difGN20 : Nat
  difGN40 : Nat
  /-- `gtx_dcorMod`, `gtx_dcorPA`, `gtx_pre_gain` and what the `bk7011_get_tx_*` calls give. -/
  cailmainTx : Nat → Nat
  rxDcGainTab : Nat → Nat
  rxAmpErrWr : Nat
  rxPhaseErrWr : Nat

/-! ## Reading -/

/-- A read of `TXPWR_ELEM_ST` at `addr`: type and length. -/
def readElem (dev : FlashDev) (addr : Nat) : Nat × Nat :=
  let head := storeBytes (fun _ => 0) (flashRead dev sizeofTagTxpwr addr)
  (read32 head 0, read32 head 4)

/-- `pt->partition_start_addr`. -/
abbrev startAddr : Nat := 0x1D0000

/-- `manual_cal_search_opt_tab`: `*len`, when there is a header. -/
def manualCalSearchOptTab (dev : FlashDev) : Option Nat :=
  let head := readElem dev startAddr
  if BK_FLASH_OPT_TLV_HEADER = head.1 then some (u32 (head.2 + sizeofTagTxpwr)) else none

/-- `manual_cal_search_txpwr_tab`. The flash does not change meanwhile, so a search that has not
ended after `2 ^ 32` passes goes on forever. -/
def manualCalSearchTxpwrTab (dev : FlashDev) (type start : Nat) : Option Nat :=
  match manualCalSearchOptTab dev with
  | none => some 0
  | some _ =>
    let head := readElem dev start
    let addr := u32 (start + sizeofTagTxpwr)
    let endAddr := u32 (addr + head.2)
    (Loop.run (Tlv.searchPass (readElem dev) type endAddr) (2 ^ 32) addr).map fun addr =>
      if addr ≥ endAddr then 0 else addr

/-! ## Writing -/

/-- `BK_FLASH_SECTOR_SIZE`. -/
abbrev BK_FLASH_SECTOR_SIZE : Nat := 4 * 1024

/-- `BK_FLASH_WRITE_CHECK_TIMES`. -/
abbrev BK_FLASH_WRITE_CHECK_TIMES : Nat := 3

/-- The variables from `write_again` on. -/
structure UpdateVars where
  dev : FlashDev
  readBuf : Mem
  checkTimes : Nat

/-- From `write_again` on. -/
def updatePass (addrOffset : Nat) (buf : Mem) (len writeLen : Nat) (v : UpdateVars) :
    Pass UpdateVars FlashDev :=
  let readBuf :=
    if addrOffset ≠ 0 then storeBytes v.readBuf (flashRead v.dev writeLen startAddr)
    else v.readBuf
  if addrOffset ≠ 0 ∧ readBytes readBuf addrOffset len = readBytes buf 0 len then .exit v.dev
  else
    let readBuf := writeBytes readBuf addrOffset (readBytes buf 0 len)
    let dev := flashWrite (flashEraseSector v.dev startAddr) readBuf writeLen startAddr
    let checkBuf := storeBytes readBuf (flashRead dev len (u32 (startAddr + addrOffset)))
    if readBytes checkBuf 0 len = readBytes buf 0 len then .exit dev
    else if v.checkTimes - 1 ≠ 0 then .again ⟨dev, checkBuf, v.checkTimes - 1⟩
    else .exit dev

/-- `manual_cal_update_flash_area`; `readBuf` is what its own buffer holds at first. -/
def manualCalUpdateFlashArea (dev : FlashDev) (readBuf : Mem) (addrOffset : Nat) (buf : Mem)
    (len : Nat) : FlashDev :=
  if addrOffset > BK_FLASH_SECTOR_SIZE then dev
  else if len = 0 then dev
  else
    let writeLen :=
      match manualCalSearchOptTab dev with
      | some flashLen => if flashLen ≥ addrOffset + len then flashLen else u32 (addrOffset + len)
      | none => u32 (addrOffset + len)
    let vars : UpdateVars := ⟨dev, readBuf, BK_FLASH_WRITE_CHECK_TIMES⟩
    (Loop.run (updatePass addrOffset buf len writeLen) BK_FLASH_WRITE_CHECK_TIMES vars).getD dev

/-! ## The groups -/

/-- `chipinfo_len`. -/
def chipinfoLen : Nat :=
  sizeofTagTxpwr + sizeofTagComm + sizeofTagChipmac + sizeofTagComm + sizeofTagComm +
    sizeofTagComm + sizeofTagComm + sizeofTagLpfIq

/-- The elements of `TXID`. -/
def chipinfoElems (g : Globals) : List (Nat × List Byte) :=
  [(TXID_ID, wordBytes DEFAULT_TXID_ID), (TXID_MAC, readBytes g.systemMac 0 6),
    (TXID_THERMAL, wordBytes g.curTemp), (TXID_CHANNEL, wordBytes DEFAULT_TXID_CHANNEL),
    (TXID_XTAL, wordBytes g.xtal), (TXID_ADC, wordBytes g.saradcVal),
    (TXID_LPFCAP, wordBytes g.lpfCalI ++ wordBytes g.lpfCalQ)]

/-- `txpwr_len` of `manual_cal_save_txpwr_tab_to_flash`. -/
def txpwrLen : Nat :=
  sizeofTagTxpwr + sizeofTagEnable + 3 * sizeofTagTxpwrTab + 2 * sizeofTagDif +
    sizeofTagTxpwrTabBle + sizeofTagEnable + sizeofTagTxpwrTab

/-- The elements of `TXPWR_TAB_TAB`. Every table is fitted, so none is taken from the flash. -/
def txpwrElems (g : Globals) : List (Nat × List Byte) :=
  [(TXPWR_ENABLE_ID, wordBytes TXPWR_NONE_RD), (TXPWR_TAB_B_ID, readBytes g.txpwrTabB 0 14),
    (TXPWR_TAB_G_ID, readBytes g.txpwrTabG 0 14), (TXPWR_TAB_N_ID, readBytes g.txpwrTabN40 0 14),
    (TXPWR_TAB_DIF_GN20_ID, wordBytes g.difGN20), (TXPWR_TAB_DIF_GN40_ID, wordBytes g.difGN40),
    (TXPWR_TAB_BLE_ID, readBytes g.txpwrTabBle 0 40),
    (TXPWR_TAB_CALI_STATUTS, wordBytes CALI_STA_NOFOUND)]

/-- `txpwr_len` of `manual_cal_save_cailmain_tx_tab_to_flash`. -/
def cailmainTxLen : Nat := sizeofTagTxpwr + 11 * sizeofTagComm

/-- The elements of `CALI_MAIN_TX`. -/
def cailmainTxElems (g : Globals) : List (Nat × List Byte) :=
  (List.range 11).map fun i => (cmTxType i, wordBytes (g.cailmainTx i))

/-- `txpwr_len` of `manual_cal_save_cailmain_rx_tab_to_flash`. -/
def cailmainRxLen : Nat := sizeofTagTxpwr + sizeofTagRxDc + sizeofTagComm + sizeofTagComm

/-- The elements of `CALI_MAIN_RX`. -/
def cailmainRxElems (g : Globals) : List (Nat × List Byte) :=
  [(CM_RX_DC_GAIN_TAB, (List.range 8).flatMap fun i => wordBytes (g.rxDcGainTab i)),
    (CM_RX_AMP_ERR_WR, wordBytes g.rxAmpErrWr), (CM_RX_PHASE_ERR_WR, wordBytes g.rxPhaseErrWr)]

/-- A head of type and length at `off`. -/
def putHead (buf : Mem) (off type len : Nat) : Mem :=
  writeBytes buf off (wordBytes type ++ wordBytes len)

/-- A group of `len` bytes with its head at `off`, and the elements behind the head. -/
def putGroup (buf : Mem) (off type len : Nat) (es : List (Nat × List Byte)) : Mem :=
  Tlv.putElems (putHead buf off type (len - sizeofTagTxpwr)) (off + sizeofTagTxpwr) es

/-- The flash is copied to the buffer, with a header for `len` bytes. -/
def copyFlash (dev : FlashDev) (buf : Mem) (flashLen len : Nat) : Mem :=
  putHead (storeBytes buf (flashRead dev flashLen startAddr)) 0 BK_FLASH_OPT_TLV_HEADER
    (sub32 len sizeofTagTxpwr)

/-- The buffers that an allocation finds. -/
structure Heap where
  buf : Mem
  readBuf : Mem

/-- What `manual_cal_save_txpwr_tab_to_flash` and the two saves of `cailmain` have in common: the
result, and the flash. -/
def saveGroup (dev : FlashDev) (heap : Heap) (type groupLen : Nat) (es : List (Nat × List Byte)) :
    Option (Nat × FlashDev) :=
  match manualCalSearchOptTab dev with
  | none => some (0, dev)
  | some flashLen =>
    (manualCalSearchTxpwrTab dev type startAddr).map fun addrStart =>
      if addrStart = 0 then
        let len := u32 (flashLen + groupLen)
        let buf := putGroup (copyFlash dev heap.buf flashLen len) flashLen type groupLen es
        (1, manualCalUpdateFlashArea dev heap.readBuf 0 buf len)
      else
        let buf := putGroup heap.buf 0 type groupLen es
        (1, manualCalUpdateFlashArea dev heap.readBuf (sub32 addrStart startAddr) buf groupLen)

/-- `manual_cal_save_txpwr_tab_to_flash`. -/
def manualCalSaveTxpwrTabToFlash (dev : FlashDev) (heap : Heap) (g : Globals) :
    Option (Nat × FlashDev) :=
  saveGroup dev heap TXPWR_TAB_TAB txpwrLen (txpwrElems g)

/-- `manual_cal_save_cailmain_tx_tab_to_flash`. -/
def manualCalSaveCailmainTxTabToFlash (dev : FlashDev) (heap : Heap) (g : Globals) :
    Option (Nat × FlashDev) :=
  saveGroup dev heap CALI_MAIN_TX cailmainTxLen (cailmainTxElems g)

/-- `manual_cal_save_cailmain_rx_tab_to_flash`. -/
def manualCalSaveCailmainRxTabToFlash (dev : FlashDev) (heap : Heap) (g : Globals) :
    Option (Nat × FlashDev) :=
  saveGroup dev heap CALI_MAIN_RX cailmainRxLen (cailmainRxElems g)

/-- The buffer of `manual_cal_save_chipinfo_tab_to_flash` before `TXID` is laid out, its length,
and where `TXID` goes. -/
def chipinfoBuf (dev : FlashDev) (buf : Mem) : Option (Mem × Nat × Nat) :=
  match manualCalSearchOptTab dev with
  | none =>
    let len := chipinfoLen + sizeofTagTxpwr
    some (putHead buf 0 BK_FLASH_OPT_TLV_HEADER (len - sizeofTagTxpwr), len, sizeofTagTxpwr)
  | some flashLen =>
    (manualCalSearchTxpwrTab dev TXID startAddr).map fun addrStart =>
      if addrStart = 0 then
        let len := u32 (flashLen + chipinfoLen)
        (copyFlash dev buf flashLen len, len, flashLen)
      else
        (storeBytes buf (flashRead dev flashLen startAddr), flashLen, sizeofTagTxpwr)

/-- `manual_cal_save_chipinfo_tab_to_flash`. -/
def manualCalSaveChipinfoTabToFlash (dev : FlashDev) (heap : Heap) (g : Globals) :
    Option (Nat × FlashDev) :=
  (chipinfoBuf dev heap.buf).map fun (buf, len, off) =>
    let buf := putGroup buf off TXID chipinfoLen (chipinfoElems g)
    (1, manualCalUpdateFlashArea dev heap.readBuf 0 buf len)

/-- A value is written over that of the element `type` of the group at `group`. -/
def writeElem (dev : FlashDev) (readBuf : Mem) (group type : Nat) (value : List Byte) :
    Option (Nat × FlashDev) :=
  (manualCalSearchTxpwrTab dev type group).map fun addr =>
    if addr = 0 then (0, dev)
    else
      let off := sub32 (u32 (addr + sizeofTagTxpwr)) startAddr
      (1, manualCalUpdateFlashArea dev readBuf off (fun i => value.getD i 0) value.length)

/-- `manual_cal_write_macaddr_to_flash`; `defXtal` is what `manual_cal_load_xtal_tag_from_flash`
gives for a sector without a header, and `defaultTxidXtal` the value it is asked for at. -/
def manualCalWriteMacaddrToFlash (dev : FlashDev) (heap heap' : Heap) (g : Globals)
    (defaultTxidXtal defXtal : Nat) (mac : Nat → Byte) : Option (Nat × FlashDev) :=
  let xtal := if g.xtal = defaultTxidXtal then defXtal else g.xtal
  let init :=
    match manualCalSearchOptTab dev with
    | none => manualCalSaveChipinfoTabToFlash dev heap { g with xtal := xtal }
    | some _ => some (1, dev)
  init.bind fun r =>
    (manualCalSearchTxpwrTab r.2 TXID startAddr).bind fun addrStart =>
      if addrStart = 0 then some (0, r.2)
      else writeElem r.2 heap'.readBuf addrStart TXID_MAC (readBytes mac 0 6)

/-- `manual_cal_set_rfcali_status_inflash`, in the calibration mode. -/
def manualCalSetRfcaliStatusInflash (dev : FlashDev) (heap heap' : Heap) (rfStatus : Nat) :
    Option (Nat × FlashDev) :=
  match manualCalSearchOptTab dev with
  | none => some (0, dev)
  | some _ =>
    (manualCalSearchTxpwrTab dev TXPWR_TAB_TAB startAddr).bind fun addrStart =>
      if addrStart = 0 then some (0, dev)
      else
        (writeElem dev heap.readBuf addrStart TXPWR_TAB_CALI_STATUTS (wordBytes rfStatus)).bind
          fun r =>
            if r.1 = 0 then some r
            else
              let isReady := if rfStatus = 0 then TXPWR_NONE_RD else manualCalTxpwrTabIsFitted
              writeElem r.2 heap'.readBuf addrStart TXPWR_ENABLE_ID (wordBytes isReady)

/-- `manual_cal_get_macaddr_from_flash`: what it stores through `mac_ptr`, when it returns 1. -/
def manualCalGetMacaddrFromFlash (dev : FlashDev) : Option (Option (List Byte)) :=
  match manualCalSearchOptTab dev with
  | none => some none
  | some _ =>
    (manualCalSearchTxpwrTab dev TXID startAddr).bind fun addrStart =>
      if addrStart = 0 then some none
      else
        (manualCalSearchTxpwrTab dev TXID_MAC addrStart).map fun addr =>
          if addr = 0 then none
          else some (flashRead dev (readElem dev addr).2 (u32 (addr + sizeofTagTxpwr)))

end TuyaSdk.ManualCal
