import TuyaSdk.Flash.Device

/-!
# The net-parameter store

`net_param.c`: a table of items in the flash partition `BK_PARTITION_NET_PARAM`, each with a
head of type and length, behind a head of its own. `save_info_item` rebuilds the whole table
in memory and writes it back; `get_info_item` looks an item up in the flash.

`none` is a call that does not return, which takes a table whose lengths lead the search in a
circle.
-/

namespace TuyaSdk.NetParam
open TuyaSdk.Lib TuyaSdk.Flash

/-- `INFO_TLV_HEADER`. -/
abbrev infoTlvHeader : Nat := 0x00564c54

/-- `NET_INFO_ITEM`. -/
inductive NetInfoItem where
  | autoConnectItem
  | wifiModeItem
  | dhcpModeItem
  | wifiMacItem
  | ssidKeyItem
  | ipConfigItem
  | rfCfgTssiItem
  | rfCfgDistItem
  | rfCfgModeItem
  | chargeConfigItem
  | rfCfgTssiBItem
  deriving DecidableEq, Repr

/-- The values of the enumeration. -/
def NetInfoItem.code : NetInfoItem → Nat
  | autoConnectItem => 0x11111111
  | wifiModeItem => 0x22222222
  | dhcpModeItem => 0x33333333
  | wifiMacItem => 0x44444444
  | ssidKeyItem => 0x55555555
  | ipConfigItem => 0x66666666
  | rfCfgTssiItem => 0x77777777
  | rfCfgDistItem => 0x88888888
  | rfCfgModeItem => 0x99999999
  | chargeConfigItem => 0xaaaaaaaa
  | rfCfgTssiBItem => 0xbbbbbbbb

/-- `sizeof(INFO_ITEM_ST)`, which is also `sizeof(TLV_HEADER_ST)`. -/
abbrev sizeofInfoItem : Nat := 8
/-- `sizeof(ITEM_COMM_ST)`. -/
abbrev sizeofItemComm : Nat := 12
/-- `sizeof(ITEM_MAC_ADDR_ST)`. -/
abbrev sizeofItemMacAddr : Nat := 16
/-- `sizeof(ITEM_SSIDKEY_ST)`. -/
abbrev sizeofItemSsidkey : Nat := 104
/-- `sizeof(ITEM_IP_CONFIG_ST)`. -/
abbrev sizeofItemIpConfig : Nat := 56

/-- `pt->partition_start_addr`. -/
abbrev startAddr : Nat := 0x1D1000

/-- `INFO_ITEM_ST` and `TLV_HEADER_ST`. -/
structure InfoItem where
  type : Nat
  len : Nat

/-- A read of `INFO_ITEM_ST` at `addr`. -/
def readHead (dev : FlashDev) (addr : Nat) : InfoItem :=
  let head := storeBytes (fun _ => 0) (flashRead dev sizeofInfoItem addr)
  ⟨read32 head 0, read32 head 4⟩

/-- `search_info_tbl` without a buffer: `*cfg_len`, when there is a table. -/
def searchInfoTbl (dev : FlashDev) : Option Nat :=
  let head := readHead dev startAddr
  if infoTlvHeader = head.type then some (u32 (head.len + sizeofInfoItem)) else none

/-- The buffer after `search_info_tbl(buf, &tmp)`. -/
def loadInfoTbl (dev : FlashDev) (buf : Mem) : Mem :=
  match searchInfoTbl dev with
  | none => buf
  | some cfgLen => storeBytes buf (flashRead dev cfgLen startAddr)

/-- One pass of the search for an item. -/
def searchPass (dev : FlashDev) (type : NetInfoItem) (endAddr : Nat) (addr : Nat) : Pass Nat Nat :=
  if addr < endAddr then
    let head := readHead dev addr
    if type.code ≠ head.type then .again (u32 (u32 (addr + sizeofInfoItem) + head.len))
    else .exit addr
  else .exit addr

/-- `search_info_item`. The flash does not change meanwhile, so a search that has not ended
after `2 ^ 32` passes goes on forever. -/
def searchInfoItem (dev : FlashDev) (type : NetInfoItem) (startAddr : Nat) : Option Nat :=
  let head := readHead dev startAddr
  let addr := u32 (startAddr + sizeofInfoItem)
  let endAddr := u32 (addr + head.len)
  (Loop.run (searchPass dev type endAddr) (2 ^ 32) addr).map fun addr =>
    if endAddr ≤ addr then 0 else addr

/-- `info_item_len`. -/
def infoItemLen : NetInfoItem → Nat
  | .autoConnectItem | .wifiModeItem | .dhcpModeItem | .rfCfgTssiItem | .rfCfgDistItem
  | .rfCfgModeItem | .rfCfgTssiBItem => sizeofItemComm
  | .wifiMacItem => sizeofItemMacAddr
  | .ssidKeyItem => sizeofItemSsidkey
  | .ipConfigItem => sizeofItemIpConfig
  | .chargeConfigItem => sizeofItemComm

/-- What `get_info_item` returns, and the bytes it stores through its three pointers. -/
structure Got where
  ret : Nat
  out0 : List Byte
  out1 : List Byte
  out2 : List Byte
  deriving DecidableEq, Repr

/-- `get_info_item`; the flags say which of the pointers are not NULL. -/
def getInfoItem (dev : FlashDev) (item : NetInfoItem) (ptr0 ptr1 ptr2 : Bool) : Option Got :=
  match searchInfoTbl dev with
  | none => some ⟨0, [], [], []⟩
  | some _ =>
    (searchInfoItem dev item startAddr).map fun addrStart =>
      if addrStart = 0 then ⟨0, [], [], []⟩
      else
        let head := readHead dev addrStart
        let addrStart := u32 (addrStart + sizeofInfoItem)
        match item with
        | .autoConnectItem | .wifiModeItem | .dhcpModeItem | .wifiMacItem | .rfCfgTssiItem
        | .rfCfgDistItem | .rfCfgModeItem | .rfCfgTssiBItem =>
          if ptr0 then ⟨1, flashRead dev head.len addrStart, [], []⟩ else ⟨0, [], [], []⟩
        | .ssidKeyItem =>
          if ptr0 && ptr1 then
            ⟨1, flashRead dev 32 addrStart, flashRead dev 64 (u32 (addrStart + 32)), []⟩
          else ⟨0, [], [], []⟩
        | .ipConfigItem =>
          if ptr0 && ptr1 && ptr2 then
            ⟨1, flashRead dev 16 addrStart, flashRead dev 16 (u32 (addrStart + 16)),
              flashRead dev 16 (u32 (u32 (addrStart + 16) + 16))⟩
          else ⟨0, [], [], []⟩
        | .chargeConfigItem => ⟨0, [], [], []⟩

/-- `os_memcpy(buf + a, ptr, n)`. -/
def copyIn (buf : Mem) (a : Nat) (ptr : Nat → Byte) (n : Nat) : Mem :=
  writeBytes buf a (readBytes ptr 0 n)

/-- The switch of `save_info_item`, which copies the value to `itemBuf`. -/
def storeValue (item : NetInfoItem) (buf : Mem) (itemBuf : Nat) (ptr0 ptr1 ptr2 : Nat → Byte) :
    Mem :=
  match item with
  | .autoConnectItem | .wifiModeItem | .dhcpModeItem | .rfCfgTssiItem | .rfCfgDistItem
  | .rfCfgModeItem | .rfCfgTssiBItem => copyIn buf itemBuf ptr0 4
  | .wifiMacItem => copyIn buf itemBuf ptr0 6
  | .ssidKeyItem => copyIn (copyIn buf itemBuf ptr0 32) (itemBuf + 32) ptr1 64
  | .ipConfigItem =>
    copyIn (copyIn (copyIn buf itemBuf ptr0 16) (itemBuf + 16) ptr1 16) (itemBuf + 32) ptr2 16
  | .chargeConfigItem => copyIn buf itemBuf ptr0 4

/-- Where the new table ends, where the item lies in it, its length, and the buffer of
`save_info_item` before the item is stored. -/
structure Rebuild where
  cfgTblLen : Nat
  addrOffset : Nat
  headLen : Nat
  wrbuf : Mem

/-- The first part of `save_info_item`, up to the buffer. -/
def rebuild (dev : FlashDev) (item : NetInfoItem) : Option Rebuild :=
  let itemLen := infoItemLen item
  match searchInfoTbl dev with
  | none => some ⟨sizeofInfoItem + itemLen, sizeofInfoItem, itemLen, fun _ => 0⟩
  | some cfgTblLen =>
    (searchInfoItem dev item startAddr).map fun addrOffset =>
      if addrOffset = 0 then
        ⟨u32 (cfgTblLen + itemLen), cfgTblLen, sub32 (u32 (cfgTblLen + itemLen)) sizeofInfoItem,
          loadInfoTbl dev fun _ => 0⟩
      else
        ⟨cfgTblLen, sub32 addrOffset startAddr, sub32 cfgTblLen sizeofInfoItem,
          loadInfoTbl dev fun _ => 0⟩

/-- The second part of `save_info_item`: the buffer with the item and the table head. -/
def fillTable (r : Rebuild) (item : NetInfoItem) (ptr0 ptr1 ptr2 : Nat → Byte) : Mem :=
  let buf := storeValue item r.wrbuf (r.addrOffset + sizeofInfoItem) ptr0 ptr1 ptr2
  let buf := write32 buf r.addrOffset item.code
  let buf := write32 buf (r.addrOffset + 4) (infoItemLen item - sizeofInfoItem)
  write32 (write32 buf 0 infoTlvHeader) 4 r.headLen

/-- `save_info_item`: the result and the flash; `zalloc` says whether there is memory for the
buffer. -/
def saveInfoItem (dev : FlashDev) (zalloc : Bool) (item : NetInfoItem)
    (ptr0 ptr1 ptr2 : Nat → Byte) : Option (Nat × FlashDev) :=
  (rebuild dev item).map fun r =>
    if zalloc then
      (1, bkFlashWrite (bkFlashErase dev .netParam 0 r.cfgTblLen) .netParam 0
        (fillTable r item ptr0 ptr1 ptr2) r.cfgTblLen)
    else (0, dev)

end TuyaSdk.NetParam
