import TuyaSdk.Lib.Bytes
import TuyaSdk.Lib.Interleave

/-!
# The audio ring buffer (`driver/audio/ring_buffer.c`)

`rb_write` and `rb_read` are written as programs of atomic actions on the `RB_ST`: each load
or store of an index and each `memcpy` is one action, and an index that is updated between
`RB_INT_DISABLE` and `RB_INT_RESTORE` is updated by one. A copy that leaves
`address[0..capacity)` is illegal. Positions are 32-bit words.
-/

namespace TuyaSdk.RingBuffer

open Lib

/-- `RWP_SAFE_INTERVAL` -/
abbrev rwpSafeInterval : Nat := 4

/-- `RB_ST` -/
structure RbSt where
  address : Mem
  capacity : Nat
  wp : Nat
  rp : Nat

/-- The places that interleavings are told apart by: `behindWp` is the writer between the
store of `wp` and the copy of the bytes behind the wrap, `fromStart` is the reader's copy of
the bytes behind the wrap. -/
inductive Place where
  | plain
  | behindWp
  | fromStart
  deriving DecidableEq, Repr

/-- `rb_init` -/
def rbInit (addr : Mem) (capacity : Nat) : RbSt := ⟨addr, capacity, 0, 0⟩

/-- `rb->wp = wp` -/
def RbSt.setWp (rb : RbSt) (wp : Nat) : RbSt := { rb with wp := wp }

/-- `rb->rp = rp` -/
def RbSt.setRp (rb : RbSt) (rp : Nat) : RbSt := { rb with rp := rp }

/-- `RB_MEMCPY(&rb->address[pos], ...)` of the bytes given. -/
def RbSt.fill (rb : RbSt) (pos : Nat) (bytes : List Byte) : RbSt :=
  { rb with address := writeBytes rb.address pos bytes }

/-- The copy into the cells from `pos` on. -/
def copyIn (l : Place) (pos : Nat) (bytes : List Byte) : Prog Place RbSt Unit :=
  .action l (fun rb => pos + bytes.length ≤ rb.capacity) (fun rb => rb.fill pos bytes) fun _ => ()

/-- `RB_MEMCPY(..., &rb->address[pos], n)` -/
def copyOut (l : Place) (pos n : Nat) : Prog Place RbSt (List Byte) :=
  .action l (fun rb => pos + n ≤ rb.capacity) id fun rb => readBytes rb.address pos n

/-! ## `rb_read` -/

/-- The copy and the update of `rp` of the branches that read without a wrap. -/
def rbReadRun (readBytes : Nat) : Prog Place RbSt (Nat × List Byte) := do
  let rp ← .load .plain RbSt.rp
  let bytes ← copyOut .plain rp readBytes
  .store .plain fun rb => rb.setRp (u32 (rb.rp + readBytes))
  pure (readBytes, bytes)

/-- `rb_read`: the number of bytes returned, and the bytes that `buffer` starts with. -/
def rbRead (size count : Nat) : Prog Place RbSt (Nat × List Byte) := do
  let requiredBytes := u32 (size * count)
  let wp ← .load .plain RbSt.wp
  if requiredBytes = 0 then pure (0, [])
  else do
    let rp ← .load .plain RbSt.rp
    if rp ≤ wp then do
      let remainBytes ← .load .plain fun rb => sub32 wp rb.rp
      if remainBytes < requiredBytes then rbReadRun remainBytes
      else rbReadRun requiredBytes
    else do
      let remainBytes ← .load .plain fun rb => sub32 rb.capacity rb.rp
      if remainBytes < requiredBytes then do
        let rp ← .load .plain RbSt.rp
        let bytes ← copyOut .plain rp remainBytes
        if wp < sub32 requiredBytes remainBytes then do
          let rest ← copyOut .fromStart 0 wp
          .store .plain fun rb => rb.setRp wp
          pure (u32 (remainBytes + wp), bytes ++ rest)
        else do
          let rest ← copyOut .fromStart 0 (sub32 requiredBytes remainBytes)
          .store .plain fun rb => rb.setRp (sub32 requiredBytes remainBytes)
          pure (requiredBytes, bytes ++ rest)
      else rbReadRun requiredBytes

/-! ## `rb_write` -/

/-- The end of `rb_write`: `wp` is wrapped, unless `rp` is 0. -/
def wrapWp (writeBytes : Nat) : Prog Place RbSt Nat := do
  let atEnd ← .load .plain fun rb => decide (rb.capacity ≤ rb.wp)
  if atEnd then do
    let rp ← .load .plain RbSt.rp
    if rp ≠ 0 then do
      .store .plain fun rb => rb.setWp 0
      pure writeBytes
    else pure writeBytes
  else pure writeBytes

/-- The copy and the update of `wp` of the branches that write without a wrap. -/
def rbWriteRun (buffer : List Byte) (writeBytes : Nat) : Prog Place RbSt Nat := do
  let wp ← .load .plain RbSt.wp
  copyIn .plain wp (buffer.take writeBytes)
  .store .plain fun rb => rb.setWp (u32 (rb.wp + writeBytes))
  wrapWp writeBytes

/-- The branch of `rb_write` that wraps: `wp` is stored before the bytes behind the wrap are
copied. -/
def rbWriteWrapped (buffer : List Byte) (writeBytes remainBytes : Nat) : Prog Place RbSt Nat := do
  let wp ← .load .plain RbSt.wp
  copyIn .plain wp (buffer.take remainBytes)
  .store .plain fun rb => rb.setWp (sub32 writeBytes remainBytes)
  let wp ← .load .behindWp RbSt.wp
  copyIn .behindWp 0 ((buffer.drop remainBytes).take wp)
  wrapWp writeBytes

/-- `rb_write` -/
def rbWrite (buffer : List Byte) (size count : Nat) : Prog Place RbSt Nat :=
  let writeBytes := u32 (size * count)
  if writeBytes = 0 then pure 0
  else do
    let rp ← .load .plain RbSt.rp
    let wp ← .load .plain RbSt.wp
    if rp ≤ wp then do
      let remainBytes ← .load .plain fun rb => u32 (sub32 rb.capacity rb.wp + rp)
      if u32 (writeBytes + rwpSafeInterval) ≤ remainBytes then do
        let remainBytes ← .load .plain fun rb => sub32 rb.capacity rb.wp
        if writeBytes ≤ remainBytes then rbWriteRun buffer writeBytes
        else rbWriteWrapped buffer writeBytes remainBytes
      else pure 0
    else do
      let remainBytes ← .load .plain fun rb => sub32 rp rb.wp
      if u32 (writeBytes + rwpSafeInterval) ≤ remainBytes then rbWriteRun buffer writeBytes
      else pure 0

/-! ## The sizes -/

/-- `rb_get_fill_size` -/
def rbGetFillSize (rb : RbSt) : Nat :=
  if rb.rp ≤ rb.wp then sub32 rb.wp rb.rp else u32 (sub32 rb.capacity rb.rp + rb.wp)

/-- `rb_get_free_size` -/
def rbGetFreeSize (rb : RbSt) : Nat :=
  let freeSize :=
    if rb.rp ≤ rb.wp then u32 (sub32 rb.capacity rb.wp + rb.rp) else sub32 rb.rp rb.wp
  if rwpSafeInterval < freeSize then sub32 freeSize rwpSafeInterval else 0

end TuyaSdk.RingBuffer
