import TuyaSdk.Lib.Checked
import TuyaSdk.Lib.Machine

/-!
# The AirKiss decoder

`airkiss.c` recovers a password, a random byte and an SSID from the lengths of the 802.11
data frames of one source. `none` is an access outside an array, a shift by the width of its
operand, or the use of a pointer that was not set.

The four members of `union airkiss_data` are separate fields here: the union is cleared
whenever the state changes to one that uses another member, so that a member is all zero when
its state is entered.
-/

namespace TuyaSdk.Airkiss

open TuyaSdk.Lib.Checked

abbrev passwordMaxLen : Nat := 32
abbrev usrDataBuffMaxSize : Nat := 65
abbrev maxSrcNum : Nat := 10
abbrev maxMagicCodeRecord : Nat := 4
abbrev maxPrefixCodeRecord : Nat := 4
abbrev maxSeqCodeRecord : Nat := 6

def macFctrlTypeMask : UInt16 := 0x000C
def macFctrlDataT : UInt16 := 0x0008
def macFctrlTods : UInt16 := 0x0100
def macFctrlFromds : UInt16 := 0x0200
def macFctrlTodsFromds : UInt16 := macFctrlTods ||| macFctrlFromds

/-- The fields of `struct mac_hdr` that the decoder reads. -/
structure MacHdr where
  fctl : UInt16
  addr2 : Vector UInt8 6
  addr3 : Vector UInt8 6
  seq : UInt16
  deriving DecidableEq, Repr

/-- A received frame with the length it is passed with. -/
structure Frame where
  hdr : MacHdr
  length : UInt16
  deriving DecidableEq, Repr

inductive AirKissState
  | stoped
  | idle
  | srcLocked
  | magicCodeComplete
  | prefixCodeComplete
  | complete
  deriving DecidableEq, Repr

inductive AirkissStatus
  | continue
  | channelLocked
  | complete
  deriving DecidableEq, Repr

def AirkissStatus.code : AirkissStatus → Int
  | .continue => 0
  | .channelLocked => 1
  | .complete => 2

/-- `src_info_st`. -/
structure SrcInfo where
  crc : UInt8
  revCnt : Nat
  apSta : Nat
  seqCnt : Nat
  len : Nat
  seq : Nat
  deriving DecidableEq, Repr

/-- `memset` to zero of a `src_info_st`. -/
def SrcInfo.zero : SrcInfo := ⟨0, 0, 0, 0, 0, 0⟩

/-- `_airkiss_local_context`. The pointers `pwd` and `ssid` are offsets into `usr_data`. -/
structure LocalContext where
  pwd : Option Nat
  ssid : Option Nat
  pswdLen : Nat
  ssidLen : Nat
  randomNum : UInt8
  ssidCrc : Nat
  usrData : Vector UInt8 usrDataBuffMaxSize
  airkissState : AirKissState
  srcMacCrc : UInt8
  srcApSta : Nat
  baseLen : Nat
  needSeq : Nat
  totalLen : Nat
  pswdLencrc : Nat
  seqSuccessMap : Nat
  seqSuccessMapCmp : Nat
  srcInfo : Vector SrcInfo maxSrcNum
  srcNum : Nat
  magicCode : Vector Nat (maxMagicCodeRecord + 1)
  prefixCode : Vector Nat (maxPrefixCodeRecord + 1)
  seqCode : Vector Nat (maxSeqCodeRecord + 1)
  deriving DecidableEq, Repr

/-- The context after `memset` to zero. -/
def LocalContext.zero : LocalContext where
  pwd := none
  ssid := none
  pswdLen := 0
  ssidLen := 0
  randomNum := 0
  ssidCrc := 0
  usrData := Vector.replicate _ 0
  airkissState := .stoped
  srcMacCrc := 0
  srcApSta := 0
  baseLen := 0
  needSeq := 0
  totalLen := 0
  pswdLencrc := 0
  seqSuccessMap := 0
  seqSuccessMapCmp := 0
  srcInfo := Vector.replicate _ .zero
  srcNum := 0
  magicCode := Vector.replicate _ 0
  prefixCode := Vector.replicate _ 0
  seqCode := Vector.replicate _ 0

/-! ## CRC -/

/-- The loop of `calcrc_1byte` with the number of rounds left. -/
def calcrcRounds : Nat → UInt8 → UInt8 → UInt8
  | 0, crc1byte, _ => crc1byte
  | n + 1, crc1byte, abyte =>
    if (crc1byte ^^^ abyte) &&& 0x01 ≠ 0 then
      calcrcRounds n (((crc1byte ^^^ 0x18) >>> 1) ||| 0x80) (abyte >>> 1)
    else
      calcrcRounds n (crc1byte >>> 1) (abyte >>> 1)

def calcrc1byte (abyte : UInt8) : UInt8 := calcrcRounds 8 0 abyte

def calcrcBytes (p : List UInt8) : UInt8 :=
  p.foldl (fun crc b => calcrc1byte (crc ^^^ b)) 0

/-- `calcrc_bytes` of the six bytes of an address, through a pointer that may be unset. -/
def calcrcMac (macPtr : Option (Vector UInt8 6)) : Option UInt8 :=
  macPtr.map fun p => calcrcBytes p.toList

/-! ## Filters and tables -/

/-- `airkiss_resest_data`. -/
def airkissResestData (ak : LocalContext) : LocalContext :=
  { ak with
    srcInfo := Vector.replicate _ .zero
    srcNum := 0
    magicCode := Vector.replicate _ 0
    prefixCode := Vector.replicate _ 0
    seqCode := Vector.replicate _ 0 }

def airkissFilter (ak : LocalContext) (frame : Frame) : Option Bool :=
  let fmacHdr := frame.hdr
  let size := frame.length.toNat
  if macFctrlDataT ≠ fmacHdr.fctl &&& macFctrlTypeMask then
    some false
  else if size < ak.baseLen ∨ ak.baseLen + 512 < size then
    some false
  else if fmacHdr.fctl &&& macFctrlTodsFromds = macFctrlFromds then
    if ak.srcApSta ≠ 1 then some false
    else (calcrcMac (some fmacHdr.addr3)).map (ak.srcMacCrc == ·)
  else if fmacHdr.fctl &&& macFctrlTodsFromds = macFctrlTods then
    if ak.srcApSta ≠ 2 then some false
    else (calcrcMac (some fmacHdr.addr2)).map (ak.srcMacCrc == ·)
  else
    (calcrcMac none).map (ak.srcMacCrc == ·)

def airkissDiscoverFilter (frame : Frame) : Bool :=
  if macFctrlDataT ≠ frame.hdr.fctl &&& macFctrlTypeMask then false
  else if frame.length.toNat < 24 ∨ 1024 < frame.length.toNat then false
  else true

/-- The loop of `airkiss_record_move_ones`, after the given number of rounds. -/
def airkissRecordMoveOnes {n : Nat} (record : Vector Nat n) : Nat → Option (Vector Nat n)
  | 0 => some record
  | i + 1 => do
    let record ← airkissRecordMoveOnes record i
    let next ← read record (i + 1)
    write record i next

/-- What is recorded of a frame's length: a `u16` difference. -/
def recordOf (length baseLen : Nat) : Nat := (length + 0x10000 - baseLen) % 0x10000

def airkissAddSeqData (ak : LocalContext) (data : Vector UInt8 5) (seq : Nat) :
    Option LocalContext :=
  if seq < ak.needSeq ∧ seq * 4 + 4 ≤ usrDataBuffMaxSize then do
    let bit ← shl 32 1 seq
    if ak.seqSuccessMap &&& bit = 0 then do
      let usrData ← copy ak.usrData (seq * 4) data 1 4
      return { ak with usrData := usrData, seqSuccessMap := ak.seqSuccessMap ||| bit }
    else some ak
  else some ak

/-! ## Discovery of the source -/

/-- The first entry of the source, searched from entry `i` over `rest` entries. -/
def findSrc (srcInfo : Vector SrcInfo maxSrcNum) (macCrc : UInt8) (apSta : Nat) :
    Nat → Nat → Option (Option Nat)
  | _, 0 => some none
  | i, rest + 1 => do
    let info ← read srcInfo i
    if info.crc = macCrc ∧ info.apSta = apSta then return some i
    else findSrc srcInfo macCrc apSta (i + 1) rest

/-- The entry with the fewest frames, searched from entry `i` over `rest` entries. -/
def leastReceived (srcInfo : Vector SrcInfo maxSrcNum) :
    Nat → Nat → Nat → Nat → Option Nat
  | _, 0, _, minIdx => some minIdx
  | i, rest + 1, minRevCnt, minIdx => do
    let info ← read srcInfo i
    if info.revCnt < minRevCnt then leastReceived srcInfo (i + 1) rest info.revCnt i
    else leastReceived srcInfo (i + 1) rest minRevCnt minIdx

/-- The update of the entry of a source that sent another frame. -/
def SrcInfo.received (info : SrcInfo) (fLen fSeq : Nat) : SrcInfo :=
  { info with
    seqCnt := if fLen = info.len + 1 then (info.seqCnt + 1) % 256 else 0
    len := fLen
    seq := fSeq
    revCnt := (info.revCnt + 1) % 256 }

/-- A frame of the source in entry `i`, with whether the source is locked now. -/
def knownSrc (ak : LocalContext) (i fLen fSeq : Nat) : Option (LocalContext × Bool) := do
  let info ← read ak.srcInfo i
  if info.seq = fSeq then
    return (ak, false)
  else do
    let info := info.received fLen fSeq
    let srcInfo ← write ak.srcInfo i info
    let ak := { ak with srcInfo := srcInfo }
    if info.seqCnt = 3 then
      return ({ ak with
        baseLen := (info.len + 252) % 256
        srcApSta := info.apSta
        srcMacCrc := info.crc }, true)
    else
      return (ak, false)

/-- The entry that a new source is put into: the next one, or in a full table the one with the
fewest frames. -/
def newSrcIdx (ak : LocalContext) : Option Nat :=
  if ak.srcNum = maxSrcNum then leastReceived ak.srcInfo 0 maxSrcNum 255 0 else some ak.srcNum

/-- The first frame of a new source. `src_num` grows also where an entry is replaced. -/
def newSrc (ak : LocalContext) (macCrc : UInt8) (apSta fLen fSeq : Nat) : Option LocalContext := do
  let i ← newSrcIdx ak
  let srcInfo ← write ak.srcInfo i
    { crc := macCrc, len := fLen, seq := fSeq, revCnt := 1, seqCnt := 0, apSta := apSta }
  return { ak with srcInfo := srcInfo, srcNum := (ak.srcNum + 1) % 256 }

def airkissAddSrcMacinfo (ak : LocalContext) (macCrc : UInt8) (apSta fLen fSeq : Nat) :
    Option (LocalContext × Bool) := do
  match ← findSrc ak.srcInfo macCrc apSta 0 ak.srcNum with
  | some i => knownSrc ak i fLen fSeq
  | none => return (← newSrc ak macCrc apSta fLen fSeq, false)

/-- The source address by the direction bits and the kind of the source. -/
def sourceOf (fmacHdr : MacHdr) : Option (Vector UInt8 6) × Nat :=
  if fmacHdr.fctl &&& macFctrlTodsFromds = macFctrlFromds then (some fmacHdr.addr3, 1)
  else if fmacHdr.fctl &&& macFctrlTodsFromds = macFctrlTods then (some fmacHdr.addr2, 2)
  else (none, 0)

def airkissRecvDiscover (ak : LocalContext) (frame : Frame) : Option (LocalContext × Bool) := do
  let (macPtr, apSta) := sourceOf frame.hdr
  let macCrc ← calcrcMac macPtr
  let frameSeq := frame.hdr.seq.toNat >>> 4
  let (ak, success) ← airkissAddSrcMacinfo ak macCrc apSta frame.length.toNat frameSeq
  if success then
    return (airkissResestData { ak with airkissState := .srcLocked }, true)
  else
    return (ak, false)

/-! ## The phases of the decoding -/

/-- The four records carry the headers `base`, `base + 0x10`, `base + 0x20`, `base + 0x30`. -/
def codeHeaders (record : Vector Nat 5) (base : Nat) : Bool :=
  record[0] &&& 0x01f0 = base ∧ record[1] &&& 0x01f0 = base + 0x10 ∧
    record[2] &&& 0x01f0 = base + 0x20 ∧ record[3] &&& 0x01f0 = base + 0x30

def airkissProcessMagicCode (ak : LocalContext) (length : Nat) : Option LocalContext := do
  let record ← airkissRecordMoveOnes
    (ak.magicCode.set maxMagicCodeRecord (recordOf length ak.baseLen)) maxMagicCodeRecord
  let ak := { ak with magicCode := record }
  if codeHeaders record 0x0000 then
    return airkissResestData { ak with
      totalLen := ((record[0] &&& 0x0007) <<< 4) + (record[1] &&& 0x000F)
      ssidCrc := ((record[2] &&& 0x000F) <<< 4) + (record[3] &&& 0x000F)
      airkissState := .magicCodeComplete }
  else
    return ak

/-- What `airkiss_process_magic_code` leaves when the headers match. -/
def magicFound (ak : LocalContext) (record : Vector Nat 5) : LocalContext :=
  airkissResestData { ak with
    totalLen := ((record[0] &&& 0x0007) <<< 4) + (record[1] &&& 0x000F)
    ssidCrc := ((record[2] &&& 0x000F) <<< 4) + (record[3] &&& 0x000F)
    airkissState := .magicCodeComplete }

/-- The password length that a prefix code carries, zero where it is over the maximum. -/
def prefixPswdLen (record : Vector Nat 5) : Nat :=
  let pswdLen := ((record[0] &&& 0x000F) <<< 4) + (record[1] &&& 0x000F)
  if pswdLen > passwordMaxLen then 0 else pswdLen

/-- The checksum that a prefix code carries. -/
def prefixPswdLencrc (record : Vector Nat 5) : Nat :=
  ((record[2] &&& 0x000F) <<< 4) + (record[3] &&& 0x000F)

/-- The checksum of the prefix code is that of its password length. -/
def prefixCrcOk (record : Vector Nat 5) : Bool :=
  (calcrc1byte (UInt8.ofNat (prefixPswdLen record))).toNat = prefixPswdLencrc record

def airkissProcessPrefixCode (ak : LocalContext) (length : Nat) : Option LocalContext := do
  let record ← airkissRecordMoveOnes
    (ak.prefixCode.set maxPrefixCodeRecord (recordOf length ak.baseLen)) maxPrefixCodeRecord
  let ak := { ak with prefixCode := record }
  if codeHeaders record 0x0040 then
    let ak := { ak with pswdLen := prefixPswdLen record, pswdLencrc := prefixPswdLencrc record }
    if prefixCrcOk record then do
      let needSeq := (ak.totalLen + 3) / 4
      let bit ← shl 32 1 needSeq
      return airkissResestData { ak with
        airkissState := .prefixCodeComplete
        needSeq := needSeq
        seqSuccessMapCmp := (bit - 1) % 0x10000 }
    else
      return airkissResestData ak
  else
    return ak

/-- The two records that start a sequence group. -/
def seqHeader (record : Vector Nat 7) : Bool :=
  record[0] &&& 0x180 = 0x80 ∧ record[1] &&& 0x180 = 0x80

/-- `seq_byte`: the number of data bytes of the group `curSeq`, a `u8` cut down to four. -/
def seqByteOf (totalLen curSeq : Nat) : Nat :=
  let seqByte := (totalLen + 512 - (curSeq <<< 2)) % 256
  if seqByte > 4 then 4 else seqByte

/-- The loop over the data records of a group, from the `i`-th over `rest` of them; the inner
`none` is a record that is no data record. -/
def groupData (record : Vector Nat 7) : Nat → Nat → Vector UInt8 5 → Option (Option (Vector UInt8 5))
  | _, 0, data => some (some data)
  | i, rest + 1, data => do
    let pdata ← read record (2 + i)
    if pdata &&& 0x0100 ≠ 0x0100 then
      return none
    else do
      let data ← write data (1 + i) (UInt8.ofNat (pdata &&& 0xFF))
      groupData record (i + 1) rest data

/-- The last step: `usr_data` is printed and split into password, random byte and SSID. -/
def airkissSplit (ak : LocalContext) : Option LocalContext := do
  let _ ← readAll ak.usrData 0 ak.totalLen
  let randomNum ← read ak.usrData ak.pswdLen
  let usrData ← write ak.usrData ak.pswdLen 0
  let ssidLen := (ak.totalLen + 256 - ak.pswdLen) % 256
  let usrData ← write usrData (ak.pswdLen + 1 + ssidLen) 0
  return { ak with
    randomNum := randomNum
    usrData := usrData
    pwd := some 0
    ssidLen := ssidLen
    ssid := some (ak.pswdLen + 1)
    airkissState := .complete }

/-- A group whose records are all there: its checksum, its data, and the last step once the
map is full. -/
def airkissGroup (ak : LocalContext) (seqCrc curSeq seqByte : Nat) (data : Vector UInt8 5) :
    Option LocalContext := do
  let bytes ← readAll data 0 (seqByte + 1)
  if seqCrc = (calcrcBytes bytes).toNat &&& 0x7F then do
    let ak ← airkissAddSeqData ak data curSeq
    let ak := airkissResestData ak
    if ak.seqSuccessMapCmp = ak.seqSuccessMap then airkissSplit ak else return ak
  else
    return ak

def airkissProcessSequence (ak : LocalContext) (length : Nat) : Option LocalContext := do
  let record ← airkissRecordMoveOnes
    (ak.seqCode.set maxSeqCodeRecord (recordOf length ak.baseLen)) maxSeqCodeRecord
  let ak := { ak with seqCode := record }
  if seqHeader record then do
    let seqCrc := record[0] &&& 0x7F
    let curSeq := record[1] &&& 0x7F
    let bit ← shl 32 1 curSeq
    if ak.seqSuccessMap &&& bit ≠ 0 then
      return ak
    else if curSeq ≤ (ak.totalLen >>> 2) + 1 then do
      let seqByte := seqByteOf ak.totalLen curSeq
      match ← groupData record 0 seqByte #v[UInt8.ofNat curSeq, 0, 0, 0, 0] with
      | none => return ak
      | some data => airkissGroup ak seqCrc curSeq seqByte data
    else
      return ak
  else
    return ak

/-- The index that the second record of a group carries. -/
abbrev seqIndex (record : Vector Nat 7) : Nat := record[1] &&& 0x7F

/-- The data of the group that the window holds, if the group is new, inside the announced
length, all there, and its checksum right. -/
def acceptedGroup (ak : LocalContext) (record : Vector Nat 7) : Option (Vector UInt8 5) :=
  let curSeq := record[1] &&& 0x7F
  let seqByte := seqByteOf ak.totalLen curSeq
  if ak.seqSuccessMap &&& (1 <<< curSeq) = 0 ∧ curSeq ≤ (ak.totalLen >>> 2) + 1 then
    (groupData record 0 seqByte #v[UInt8.ofNat curSeq, 0, 0, 0, 0]).join.filter fun data =>
      record[0] &&& 0x7F = (calcrcBytes (data.toList.take (seqByte + 1))).toNat &&& 0x7F
  else none

/-! ## The interface -/

/-- `airkiss_init` on its two pointers: whether they are set. The local context fits into an
`airkiss_context_t`. -/
def airkissInit (akcontext : Option LocalContext) (context config : Bool) :
    Option LocalContext × Int :=
  if context ∧ config then (some { LocalContext.zero with airkissState := .idle }, 0)
  else (akcontext, -1)

def airkissChangeChannel (_ : LocalContext) : LocalContext :=
  { LocalContext.zero with airkissState := .idle }

/-- The `switch` of `airkiss_recv`. -/
def airkissDispatch (ak : LocalContext) (frame : Frame) : Option (LocalContext × AirkissStatus) :=
  match ak.airkissState with
  | .idle =>
    if airkissDiscoverFilter frame then do
      let (ak, isLocked) ← airkissRecvDiscover ak frame
      return (ak, if isLocked then .channelLocked else .continue)
    else
      some (ak, .continue)
  | .srcLocked => do
    let ak ← airkissProcessMagicCode ak frame.length.toNat
    return (ak, .continue)
  | .magicCodeComplete => do
    let ak ← airkissProcessPrefixCode ak frame.length.toNat
    return (ak, .continue)
  | .prefixCodeComplete => do
    let ak ← airkissProcessSequence ak frame.length.toNat
    return (ak, if ak.airkissState = .complete then .complete else .continue)
  | .stoped | .complete => some ({ ak with airkissState := .idle }, .continue)

def airkissRecv (ak : LocalContext) (frame : Frame) : Option (LocalContext × AirkissStatus) :=
  if ak.airkissState ≠ .idle then do
    if ← airkissFilter ak frame then airkissDispatch ak frame else return (ak, .continue)
  else
    airkissDispatch ak frame

/-- `airkiss_result_t`. -/
structure AirkissResult where
  pwd : Option Nat
  ssid : Option Nat
  pwdLength : Nat
  ssidLength : Nat
  random : UInt8
  reserved : Nat
  deriving DecidableEq, Repr

/-- `airkiss_get_result`: the head of the context is copied. -/
def airkissGetResult (ak : LocalContext) : AirkissResult where
  pwd := ak.pwd
  ssid := ak.ssid
  pwdLength := ak.pswdLen
  ssidLength := ak.ssidLen
  random := ak.randomNum
  reserved := ak.ssidCrc

/-- A call of the decoder. -/
inductive Call
  | init (context config : Bool)
  | changeChannel
  | recv (frame : Frame)
  deriving DecidableEq, Repr

/-- One call and what it returns; `akcontext` is unset before the first `airkiss_init`. -/
def step : Lib.Machine (Option LocalContext) Call Int
  | akcontext, .init context config => some (airkissInit akcontext context config)
  | none, .changeChannel => none
  | some ak, .changeChannel => some (some (airkissChangeChannel ak), 0)
  | none, .recv _ => none
  | some ak, .recv frame => (airkissRecv ak frame).map fun r => (some r.1, r.2.code)

end TuyaSdk.Airkiss
