import TuyaSdk.Flash.Device
import TuyaSdk.Lib.Machine

/-!
# The firmware upgrade receiver

`tkl_ota_start_notify`, `tkl_ota_data_process` and `tkl_ota_end_notify` over the flash
device. The image arrives in packs behind a header of 32 bytes; its first 512 bytes are
withheld in `frist_block_databuf` and written by `tkl_ota_end_notify` once the checksum of
the whole image is right.

What the calls depend on besides their arguments (which allocations succeed, which flash
writes fail, what a read through a NULL pointer gives) is `OtaEnv`. What they do to the heap
and the flash is recorded in order in `trace`, a flash operation with the cells it leaves.
-/

namespace TuyaSdk.TklOta
open TuyaSdk.Lib TuyaSdk.Flash

/-- `UG_START_ADDR`. -/
def ugStartAddr : Nat := 0x12A000

/-- `OTA_MAX_BIN_SIZE`. -/
def otaMaxBinSize : Nat := 664 * 1024

/-- `UG_STAT_E`. -/
inductive UgStat where
  | recvHeader
  | recvImgData
  | finish
  deriving DecidableEq, Repr

/-- `UPDATE_FILE_HDR_S`. -/
structure UpdateFileHdr where
  headerFlag : Nat
  swVersion : List Byte
  binLen : Nat
  binSum : Nat
  headSum : Nat
  tailFlag : Nat
  deriving DecidableEq, Repr

/-- `UG_PROC_S`. -/
structure UgProc where
  fileHeader : UpdateFileHdr
  flashAddr : Nat
  startAddr : Nat
  recvDataCnt : Nat
  stat : UgStat
  deriving DecidableEq, Repr

/-- A header cleared by `memset`. -/
def UpdateFileHdr.zero : UpdateFileHdr := ⟨0, List.replicate 12 0, 0, 0, 0, 0⟩

/-- `ug_proc` cleared by `memset`. -/
def UgProc.zero : UgProc := ⟨.zero, 0, 0, 0, .recvHeader⟩

/-- The results of the three calls. -/
inductive OpRet where
  /-- `OPRT_OK` -/
  | ok
  /-- `OPRT_COM_ERROR` -/
  | comError
  /-- `OPRT_OS_ADAPTER_INVALID_PARM` -/
  | invalidParm
  /-- `OPRT_MALLOC_FAILED` -/
  | mallocFailed
  /-- `OPRT_OS_ADAPTER_OTA_START_INFORM_FAILED` -/
  | startInformFailed
  /-- `OPRT_OS_ADAPTER_OTA_PKT_SIZE_FAILED` -/
  | pktSizeFailed
  /-- `OPRT_OS_ADAPTER_OTA_PROCESS_FAILED` -/
  | processFailed
  /-- `OPRT_OS_ADAPTER_OTA_END_INFORM_FAILED` -/
  | endInformFailed
  deriving DecidableEq, Repr

/-- The pointers the calls get blocks of `tkl_system_malloc` through. -/
inductive OtaBlock where
  | ugProc
  | fristBlockDatabuf
  | buf
  | tempbuf
  deriving DecidableEq, Repr

/-- What a call does to the heap and the flash. -/
inductive OtaEvent where
  | malloc (block : OtaBlock)
  | free (block : OtaBlock)
  /-- A sector erase of `tkl_flash_erase`. -/
  | eraseSector (addr : Nat) (after : Mem)
  /-- A `tkl_flash_write` of `tkl_ota_data_process`. -/
  | write (addr size : Nat) (after : Mem)
  /-- A header was accepted and its sectors are erased. -/
  | accepted (binLen : Nat)
  /-- The `tkl_flash_write` of `tkl_ota_end_notify`. -/
  | restore (addr size : Nat) (after : Mem)
  | reset

/-- The surroundings of one call: whether the allocation for a pointer succeeds, whether the
write of the data at an offset of the pack fails (after programming some of its bytes), and
the bytes read through NULL. -/
structure OtaEnv where
  malloc : OtaBlock → Bool
  writeFails : Nat → Option Nat
  nullByte : Nat → Byte

/-- The globals of the module, the flash device and the events so far. -/
structure OtaState where
  ugProc : Option UgProc
  fristBlockDatabuf : Option (Nat → Byte)
  firstBlock : Bool
  dev : FlashDev
  trace : List OtaEvent

namespace OtaState

/-- The state before the first call. -/
def boot (dev : FlashDev) : OtaState := ⟨none, none, true, dev, []⟩

def record (s : OtaState) (e : OtaEvent) : OtaState := { s with trace := s.trace ++ [e] }

def eraseSector (s : OtaState) (addr : Nat) : OtaState :=
  let dev := flashEraseSector s.dev addr
  { s with dev := dev, trace := s.trace ++ [.eraseSector addr dev.cells] }

/-- `tkl_flash_erase`. -/
def tklFlashErase (s : OtaState) (addr size : Nat) : OtaState :=
  (tklEraseSectors addr size).foldl eraseSector s

/-- The device after a `tkl_flash_write` that may fail. -/
def writeDev (dev : FlashDev) (fails : Option Nat) (addr : Nat) (src : Nat → Byte) (size : Nat) :
    FlashDev :=
  Flash.tklFlashWrite dev addr src (match fails with
    | none => size
    | some n => min n size)

/-- The `tkl_flash_write` of a part of the image. -/
def tklFlashWrite (s : OtaState) (fails : Option Nat) (addr : Nat) (src : Nat → Byte)
    (size : Nat) : OtaState :=
  let dev := writeDev s.dev fails addr src size
  { s with dev := dev, trace := s.trace ++ [.write addr size dev.cells] }

/-- The `tkl_flash_write` that puts the first sector back. -/
def restore (s : OtaState) (fails : Option Nat) (addr : Nat) (src : Nat → Byte) (size : Nat) :
    OtaState :=
  let dev := writeDev s.dev fails addr src size
  { s with dev := dev, trace := s.trace ++ [.restore addr size dev.cells] }

/-- Freeing `buf` if it is not NULL. -/
def freeBuf (s : OtaState) (buf : Bool) : OtaState := if buf then s.record (.free .buf) else s

/-- Freeing `pTempbuf`, `ug_proc` and `frist_block_databuf`, and setting them to NULL. -/
def release (s : OtaState) : OtaState :=
  let s := { (s.record (.free .tempbuf)).record (.free .ugProc) with ugProc := none }
  match s.fristBlockDatabuf with
  | none => s
  | some _ => { s.record (.free .fristBlockDatabuf) with fristBlockDatabuf := none }

end OtaState

/-! ## `tkl_ota_start_notify` -/

def startNotify (env : OtaEnv) (s : OtaState) (imageSize : Nat) : OtaState × OpRet :=
  if imageSize = 0 then (s, .invalidParm)
  else
    match s.ugProc with
    | some _ => ({ s with ugProc := some .zero, firstBlock := true }, .ok)
    | none =>
      if env.malloc .ugProc then
        ({ s.record (.malloc .ugProc) with ugProc := some .zero, firstBlock := true }, .ok)
      else (s, .mallocFailed)

/-! ## `tkl_ota_data_process` -/

/-- The bytes from `off` on of the data of a pack. -/
def packAt (data : List Byte) (off : Nat) : Nat → Byte := fun i => data.getD (off + i) 0

/-- The big-endian word at `i` of the data of a pack. -/
def packWord (data : List Byte) (i : Nat) : Nat :=
  2 ^ 24 * (data.getD i 0).toNat + 2 ^ 16 * (data.getD (i + 1) 0).toNat +
    2 ^ 8 * (data.getD (i + 2) 0).toNat + (data.getD (i + 3) 0).toNat

/-- Adding bytes to a 32-bit sum. -/
def addBytes (sum : Nat) (bytes : List Byte) : Nat :=
  bytes.foldl (fun sum b => u32 (sum + b.toNat)) sum

/-- The header fields at the start of a pack. -/
def parseHdr (data : List Byte) : UpdateFileHdr where
  headerFlag := packWord data 0
  swVersion := (data.drop 4).take 12
  binLen := packWord data 16
  binSum := packWord data 20
  headSum := packWord data 24
  tailFlag := packWord data 28

/-- The case `UGS_RECV_HEADER`: the state, the result, and `*remain_len` if it is stored. -/
def recvHeader (s : OtaState) (p : UgProc) (data : List Byte) : OtaState × OpRet × Option Nat :=
  if data.length < 32 then (s, .ok, some data.length)
  else
    let hdr := parseHdr data
    let sumTmp := addBytes 0 (data.take 24)
    if hdr.headerFlag ≠ 0x55aa55aa ∨ hdr.tailFlag ≠ 0xaa55aa55 ∨ hdr.headSum ≠ sumTmp then
      ({ s with ugProc := some { p with fileHeader := .zero } }, .startInformFailed, none)
    else if otaMaxBinSize ≤ hdr.binLen then
      ({ s with ugProc := some { p with fileHeader := .zero } }, .pktSizeFailed, none)
    else
      let p := { p with
        fileHeader := hdr
        startAddr := ugStartAddr
        flashAddr := ugStartAddr
        stat := .recvImgData
        recvDataCnt := 0 }
      let s := { s with ugProc := some p }.tklFlashErase p.startAddr hdr.binLen
      (s.record (.accepted hdr.binLen), .ok, some (data.length - 32))

/-- The variables of the `while` loop of `UGS_RECV_IMG_DATA`; `buf` tells whether the local
`buf` is allocated. -/
structure UnitVars where
  s : OtaState
  p : UgProc
  buf : Bool
  writeLen : Nat
  remainLen : Nat

/-- The end of a pass: one unit of 512 bytes further. -/
def UnitVars.advance (v : UnitVars) (s : OtaState) (buf : Bool) : UnitVars where
  s := s
  p := { v.p with
    flashAddr := u32 (v.p.flashAddr + 512)
    recvDataCnt := u32 (v.p.recvDataCnt + 512) }
  buf := buf
  writeLen := v.writeLen - 512
  remainLen := v.writeLen - 512

/-- One pass of the `while` loop. It exits with a result when the function returns from
inside the loop. -/
def unitPass (env : OtaEnv) (data : List Byte) (v : UnitVars) :
    Pass UnitVars (UnitVars × Option OpRet) :=
  if v.writeLen < 512 then .exit (v, none)
  else
    let off := data.length - v.writeLen
    if v.s.firstBlock then
      if v.s.fristBlockDatabuf.isNone ∧ env.malloc .fristBlockDatabuf = false then
        .exit (v, some .processFailed)
      else
        let s := if v.s.fristBlockDatabuf.isNone then v.s.record (.malloc .fristBlockDatabuf)
          else v.s
        let s := { s with fristBlockDatabuf := some (packAt data off) }
        if env.malloc .buf = false then .exit ({ v with s := s }, some .processFailed)
        else
          let s := (s.record (.malloc .buf)).tklFlashWrite (env.writeFails off) v.p.flashAddr
            (fun _ => Nor.blank) 512
          if (env.writeFails off).isSome then
            .exit ({ v with s := s.record (.free .buf), buf := false }, some .processFailed)
          else .again (v.advance { s with firstBlock := false } true)
    else
      let s := v.s.tklFlashWrite (env.writeFails off) v.p.flashAddr (packAt data off) 512
      if (env.writeFails off).isSome then
        .exit ({ v with s := s.freeBuf v.buf, buf := false }, some .processFailed)
      else .again (v.advance s v.buf)

/-- The check that ends `UGS_RECV_IMG_DATA`. -/
def finishCheck (v : UnitVars) : OtaState × OpRet × Option Nat :=
  if v.p.fileHeader.binLen ≤ v.p.recvDataCnt then
    ({ v.s.freeBuf v.buf with ugProc := some { v.p with stat := .finish } }, .ok, some v.remainLen)
  else ({ v.s with ugProc := some v.p }, .ok, some v.remainLen)

/-- What follows the `while` loop: the last, shorter write. -/
def imgTail (env : OtaEnv) (data : List Byte) (v : UnitVars) : OtaState × OpRet × Option Nat :=
  let binLen := v.p.fileHeader.binLen
  if sub32 binLen 512 < v.p.recvDataCnt ∧ sub32 binLen v.p.recvDataCnt ≤ v.writeLen then
    let off := data.length - v.writeLen
    let s := v.s.tklFlashWrite (env.writeFails off) v.p.flashAddr (packAt data off) v.writeLen
    if (env.writeFails off).isSome then
      ({ s.freeBuf v.buf with ugProc := some v.p }, .processFailed, some v.remainLen)
    else
      finishCheck { v with
        s := s
        p := { v.p with
          flashAddr := u32 (v.p.flashAddr + v.writeLen)
          recvDataCnt := u32 (v.p.recvDataCnt + v.writeLen) }
        writeLen := 0
        remainLen := 0 }
  else finishCheck v

/-- The case `UGS_RECV_IMG_DATA`. -/
def recvImgData (env : OtaEnv) (s : OtaState) (p : UgProc) (data : List Byte) :
    Option (OtaState × OpRet × Option Nat) :=
  if data.length < 512 ∧ p.recvDataCnt ≤ sub32 p.fileHeader.binLen 512 then
    some (s, .ok, some data.length)
  else
    match Loop.run (unitPass env data) (data.length + 1)
      ⟨s, p, false, data.length, data.length⟩ with
    | none => none
    | some (v, some ret) => some ({ v.s with ugProc := some v.p }, ret, some v.remainLen)
    | some (v, none) => some (imgTail env data v)

/-- `tkl_ota_data_process`: the state, the result, and `*remain_len` if it is stored. -/
def dataProcess (env : OtaEnv) (s : OtaState) (data : List Byte) :
    Option (OtaState × OpRet × Option Nat) :=
  match s.ugProc with
  | none => some (s, .comError, none)
  | some p =>
    match p.stat with
    | .recvHeader => some (recvHeader s p data)
    | .recvImgData => recvImgData env s p data
    | .finish => some (s, .ok, some 0)

/-! ## `tkl_ota_end_notify` -/

/-- `pTempbuf` after `memcpy(pTempbuf, frist_block_databuf, RT_IMG_WR_UNIT)`. -/
def firstBlockOver (env : OtaEnv) (s : OtaState) (tmp : Nat → Byte) : Nat → Byte := fun k =>
  if k < 512 then s.fristBlockDatabuf.getD env.nullByte k else tmp k

/-- One pass of the checksum loop, with `i` and `flash_checksum`. Only the `rlen` bytes just
read are looked at. -/
def checksumPass (env : OtaEnv) (s : OtaState) (p : UgProc) : Nat × Nat → Pass (Nat × Nat) Nat
  | (i, sum) =>
    if p.fileHeader.binLen ≤ i then .exit sum
    else
      let left := sub32 p.fileHeader.binLen i
      let rlen := if 4096 ≤ left then 4096 else left
      let bytes := Flash.tklFlashRead s.dev (u32 (p.startAddr + i)) rlen
      let tmp : Nat → Byte := fun k => bytes.getD k 0
      let tmp := if i = 0 then firstBlockOver env s tmp else tmp
      .again (u32 (i + 4096), addBytes sum ((List.range rlen).map tmp))

def endNotify (env : OtaEnv) (s : OtaState) (reset : Bool) : Option (OtaState × OpRet) :=
  match s.ugProc with
  | none => some (s, .invalidParm)
  | some p =>
    if env.malloc .tempbuf = false then some (s, .mallocFailed)
    else
      let s := s.record (.malloc .tempbuf)
      match Loop.run (checksumPass env s p) (p.fileHeader.binLen + 1) (0, 0) with
      | none => none
      | some sum =>
        if sum ≠ p.fileHeader.binSum then some (s.release, .endInformFailed)
        else
          let bytes := Flash.tklFlashRead s.dev p.startAddr 4096
          let s := s.tklFlashErase p.startAddr 4096
          let tmp := firstBlockOver env s fun k => bytes.getD k 0
          let s := (s.restore (env.writeFails 0) p.startAddr tmp 4096).release
          some (if reset then s.record .reset else s, .ok)

/-! ## The calls of the upper layer -/

/-- The data of a pack. A C object has fewer than `2 ^ 31` bytes. -/
structure OtaPack where
  data : List Byte
  length_lt : data.length < 2 ^ 31

/-- A call, with the surroundings it is made in. -/
inductive OtaCall where
  | startNotify (env : OtaEnv) (imageSize : Nat)
  | dataProcess (env : OtaEnv) (pack : OtaPack)
  | endNotify (env : OtaEnv) (reset : Bool)

/-- A call returns its result and, for `tkl_ota_data_process`, `*remain_len` if stored. -/
def step : Machine OtaState OtaCall (OpRet × Option Nat)
  | s, .startNotify env imageSize =>
    some ((startNotify env s imageSize).1, (startNotify env s imageSize).2, none)
  | s, .dataProcess env pack =>
    (dataProcess env s pack.data).map fun r => (r.1, r.2.1, r.2.2)
  | s, .endNotify env reset => (endNotify env s reset).map fun r => (r.1, r.2, none)

/-- Surroundings in which every allocation and every flash write succeeds. -/
def calm : OtaEnv := ⟨fun _ => true, fun _ => none, fun _ => 0⟩

/-- A flash of 2 MB, erased. -/
def blankFlash : FlashDev := ⟨0x200000, twoMegabytes_lt, fun _ => Nor.blank⟩

/-- A header for an image of one zero byte. -/
def tinyHdr : List Byte :=
  [0x55, 0xaa, 0x55, 0xaa, 0, 0, 0, 0, 0, 0, 0, 0, 0, 0, 0, 0, 0, 0, 0, 1, 0, 0, 0, 0, 0, 0, 1, 0xff,
    0xaa, 0x55, 0xaa, 0x55]

end TuyaSdk.TklOta
