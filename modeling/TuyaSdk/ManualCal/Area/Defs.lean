import TuyaSdk.ManualCal.Update

/-!
# Updating the sector on a failing flash

`manual_cal_update_flash_area` where the heap may be empty and a read or a program of the flash may
fail or give other bytes. The sector is erased as a whole, and what is written back is what
`manual_cal_search_opt_tab` says that the area has, or what the update reaches; the rest is lost.
For an update at the start the sector is not read at all. A pass whose check does not find the bytes
is followed by another, and the last one ends with 0 all the same; a program that fails leaves the
flash unprotected.
-/

namespace TuyaSdk.ManualCal.Area
open TuyaSdk.Lib TuyaSdk.Flash

/-- How a read or a program comes out: as it should, or with any bytes and either result. -/
inductive Outcome where
  | right
  | wrong (success : Bool) (bytes : Mem)

/-- `status == FLASH_SUCCESS` -/
def Outcome.success : Outcome → Bool
  | right => true
  | wrong success _ => success

/-- The operations of one pass. -/
structure Attempt where
  read : Outcome
  program : Outcome
  check : Outcome

/-- The commands that change the flash. -/
inductive Command where
  | eraseSector (address : Nat)
  | write (address count : Nat)
  deriving DecidableEq

/-- The flash with its protection, whether the call has locked it, and the commands so far. -/
structure Board where
  dev : FlashDev
  protectAll : Bool
  locked : Bool
  commands : List Command

/-- What happens in a call: the read of the head, the memory that the heap has, and the operations
of each pass by the value of `check_times`. -/
structure Setting where
  head : Outcome
  heap : Option Mem
  attempts : Nat → Attempt

/-! ## The functions -/

/-- `os_malloc`: the top bit of a size marks an allocated block, and no size with it is given. -/
def osMalloc (heap : Option Mem) (n : Nat) : Option Mem := if n < 2 ^ 31 then heap else none

/-- `ddev_read` -/
def ddevRead (o : Outcome) (dev : FlashDev) (buf : Mem) (count address : Nat) : Bool × Mem :=
  match o with
  | .right => (true, storeBytes buf (flashRead dev count address))
  | .wrong success bytes => (success, storeBytes buf (readBytes bytes 0 count))

/-- `ddev_write` -/
def ddevWrite (o : Outcome) (b : Board) (buf : Mem) (count address : Nat) : Bool × Board :=
  let commands := b.commands ++ [.write address count]
  match o with
  | .right => (true, { b with dev := flashWrite b.dev buf count address, commands := commands })
  | .wrong success bytes =>
    let cells := writeBytes b.dev.cells address (readBytes bytes 0 count)
    (success, { b with dev := { b.dev with cells := cells }, commands := commands })

/-- `CMD_FLASH_ERASE_SECTOR` -/
def eraseSector (b : Board) (address : Nat) : Board :=
  { b with dev := flashEraseSector b.dev address, commands := b.commands ++ [.eraseSector address] }

/-- `manual_cal_search_opt_tab`, which does not look at the result of its read. -/
def searchOptTab (o : Outcome) (dev : FlashDev) : Option Nat :=
  let head := (ddevRead o dev (fun _ => 0) sizeofTagTxpwr startAddr).2
  if BK_FLASH_OPT_TLV_HEADER = read32 head 0 then some (u32 (read32 head 4 + sizeofTagTxpwr))
  else none

/-- `write_len` -/
def writeLen (o : Outcome) (dev : FlashDev) (addrOffset len : Nat) : Nat :=
  match searchOptTab o dev with
  | some flashLen =>
    if flashLen ≥ u32 (addrOffset + len) then flashLen else u32 (addrOffset + len)
  | none => u32 (addrOffset + len)

section
variable (attempts : Nat → Attempt) (addrOffset : Nat) (buf : Mem) (len writeLen : Nat)

/-- From `write_again` on, with the value of `check_times`; `none` is a copy or a comparison beyond
the end of `read_buf`. -/
def writeAgain : Nat → Board → Mem → Option (Nat × Board)
  | 0, b, _ => some (0, b)
  | checkTimes + 1, b, readBuf =>
    let a := attempts (checkTimes + 1)
    let r := if addrOffset ≠ 0 then ddevRead a.read b.dev readBuf writeLen startAddr
      else (true, readBuf)
    if ¬ r.1 then some (1, b)
    else if writeLen < addrOffset + len then none
    else if addrOffset ≠ 0 ∧ readBytes r.2 addrOffset len = readBytes buf 0 len then some (0, b)
    else
      let readBuf := writeBytes r.2 addrOffset (readBytes buf 0 len)
      let b := { b with locked := true }
      let b := { b with protectAll := false }
      let b := eraseSector b startAddr
      let w := ddevWrite a.program b readBuf writeLen startAddr
      if ¬ w.1 then some (1, { w.2 with locked := false })
      else
        let b := { w.2 with protectAll := true }
        let b := { b with locked := false }
        let checkBuf := storeBytes readBuf (List.replicate len 0)
        let c := ddevRead a.check b.dev checkBuf len (u32 (startAddr + addrOffset))
        if ¬ c.1 then some (1, b)
        else if readBytes c.2 0 len = readBytes buf 0 len then some (0, b)
        else writeAgain checkTimes b c.2

end

/-- `manual_cal_update_flash_area` -/
def manualCalUpdateFlashArea (s : Setting) (b : Board) (addrOffset : Nat) (buf : Mem) (len : Nat) :
    Option (Nat × Board) :=
  if addrOffset > BK_FLASH_SECTOR_SIZE then some (1, b)
  else if len = 0 then some (0, b)
  else
    let n := writeLen s.head b.dev addrOffset len
    match osMalloc s.heap n with
    | none => some (1, b)
    | some readBuf =>
      writeAgain s.attempts addrOffset buf len n BK_FLASH_WRITE_CHECK_TIMES b readBuf

/-- `manual_cal_wirte_otp_flash` -/
def manualCalWirteOtpFlash (s : Setting) (b : Board) (addr len : Nat) (buf : Mem) :
    Option (Nat × Board) :=
  manualCalUpdateFlashArea s b (sub32 addr startAddr) buf len

/-- `manual_cal_clear_otp_flash`: what is set to `0xff` is `sizeof(flash_len)` bytes, and `none` is
also a store through `NULL`. -/
def manualCalClearOtpFlash (heap : Option Mem) (s : Setting) (b : Board) : Option Board :=
  let flashLen := 1024
  match osMalloc heap flashLen with
  | none => none
  | some buf =>
    let buf := storeBytes buf (List.replicate 4 0xff)
    (manualCalUpdateFlashArea s b 0 buf flashLen).map Prod.snd

/-! ## What they are for -/

/-- The bytes of the sector. -/
def sector (dev : FlashDev) : Mem := fun i =>
  if i < BK_FLASH_SECTOR_SIZE then dev.cells (startAddr + i) else Nor.blank

/-- The flash is protected, and not locked. -/
def Idle (b : Board) : Prop := b.protectAll = true ∧ b.locked = false

/-- The area of the update has its bytes, and every other byte of the sector is the old one. -/
def Right (old : Mem) (off : Nat) (buf : Mem) (len : Nat) (now : Mem) : Prop :=
  ∀ i < BK_FLASH_SECTOR_SIZE, now i = if off ≤ i ∧ i < off + len then buf (i - off) else old i

/-- The first 1024 bytes of the sector are erased. -/
def Blank (now : Mem) : Prop := ∀ i < 1024, now i = Nor.blank

/-- What a clear is to do. -/
def Clears (r : Option Board) : Prop := ∃ b', r = some b' ∧ Blank (sector b'.dev)

/-! ## When they do it -/

/-- The area of the update in `now` has the bytes already. -/
def Same (off : Nat) (buf : Mem) (len : Nat) (now : Mem) : Prop :=
  readBytes now off len = readBytes buf 0 len

instance (off : Nat) (buf : Mem) (len : Nat) (now : Mem) : Decidable (Same off buf len now) :=
  inferInstanceAs (Decidable (_ = _))

/-- What a read of `now` finds. -/
def Outcome.found (o : Outcome) (now : Mem) : Mem :=
  match o with
  | .right => now
  | .wrong _ bytes => bytes

/-- The sector after the first `n` bytes of `data` have been programmed, in a device that has room
for them or does not. -/
def Outcome.leaves (o : Outcome) (room : Bool) (n : Nat) (data : Mem) : Mem := fun i =>
  if i < n ∧ i < BK_FLASH_SECTOR_SIZE then
    match o with
    | .right => if room then data i else Nor.blank
    | .wrong _ bytes => bytes i
  else Nor.blank

/-- What a check of the area in `now` finds, from its start on. -/
def Outcome.checks (o : Outcome) (off : Nat) (now : Mem) : Mem :=
  match o with
  | .right => fun i => now (off + i)
  | .wrong _ bytes => bytes

section
variable (attempts : Nat → Attempt) (old heap : Mem) (room : Bool) (off : Nat) (buf : Mem)
  (len n : Nat)

/-- The sector after a pass that found `now`. -/
def Attempt.leaves (a : Attempt) (now : Mem) : Mem :=
  let base := if off = 0 then heap else a.read.found now
  a.program.leaves room n (writeBytes base off (readBytes buf 0 len))

/-- A pass stops before it erases when its read fails or finds the bytes of the update there. -/
def Attempt.Stops (a : Attempt) (now : Mem) : Prop :=
  off ≠ 0 ∧ (a.read.success = false ∨ Same off buf len (a.read.found now))

instance (a : Attempt) (now : Mem) : Decidable (a.Stops off buf len now) :=
  inferInstanceAs (Decidable (_ ∧ _))

/-- The passes of a clear from a sector `now` on: the last one that is made leaves the bytes
erased. -/
def Wipes : Nat → Mem → Prop
  | 0, now => Blank now
  | k + 1, now =>
    let a := attempts (k + 1)
    let next := a.leaves heap room off buf len n now
    if a.program.success ∧ a.check.success ∧ ¬ Same 0 buf len (a.check.checks off next) then
      Wipes k next
    else Blank next

end

/-- The device has room for the bytes that are written. -/
def room (dev : FlashDev) (n : Nat) : Bool := startAddr + n ≤ dev.size

/-- When a clear does what it is for. -/
def ClearsWhen (heap : Option Mem) (s : Setting) (b : Board) : Prop :=
  let n := writeLen s.head b.dev 0 1024
  match heap, osMalloc s.heap n with
  | none, _ => False
  | some _, none => Blank (sector b.dev)
  | some buf, some readBuf =>
    Wipes s.attempts readBuf (room b.dev n) 0 (storeBytes buf (List.replicate 4 0xff)) 1024 n
      BK_FLASH_WRITE_CHECK_TIMES (sector b.dev)

end TuyaSdk.ManualCal.Area
