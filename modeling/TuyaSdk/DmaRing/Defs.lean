import TuyaSdk.Lib.Bytes
import TuyaSdk.Lib.Machine

/-!
# The DMA ring buffers (`ring_buffer_dma_read.c`, `ring_buffer_dma_write.c`)

A buffer between the processor and a DMA channel that runs around it. The channel moves one byte
at a time, from the buffer (`RB_DMA_RD_ST`, the processor writes) or to it (`RB_DMA_WR_ST`, the
processor reads), and stops while it is at its pause address. Before every access of the
processor to the channel or to a byte of the buffer the channel may move any number of bytes
(`World.moves`).
-/

namespace TuyaSdk.DmaRing
open TuyaSdk.Lib

/-- A channel: the address of the next byte, the loop it runs in, and its pause address. -/
structure Gdma where
  addr : Nat
  loopStart : Nat
  loopEnd : Nat
  pauseAddr : Nat

/-- The memory, the channel, and the bytes it has moved. -/
structure World where
  mem : Mem
  gdma : Gdma
  moved : List Byte
  /-- The bytes that the peripheral gives to be stored, in order. -/
  supply : Nat → Byte
  /-- How many bytes the channel may move before an access. -/
  moves : Nat → Nat
  moment : Nat

/-- The channel goes on to the next byte. -/
def Gdma.next (d : Gdma) : Gdma :=
  { d with addr := if d.addr + 1 = d.loopEnd then d.loopStart else d.addr + 1 }

/-- The channel moves a byte from memory. -/
def World.moveOut (w : World) : World :=
  if w.gdma.addr = w.gdma.pauseAddr then w
  else { w with gdma := w.gdma.next, moved := w.moved ++ [w.mem w.gdma.addr] }

/-- The channel moves a byte to memory. -/
def World.moveIn (w : World) : World :=
  if w.gdma.addr = w.gdma.pauseAddr then w
  else
    { w with
      mem := write8 w.mem w.gdma.addr (w.supply w.moved.length)
      gdma := w.gdma.next
      moved := w.moved ++ [w.supply w.moved.length] }

/-- What the channel does before an access. -/
def World.tick (move : World → World) (w : World) : World :=
  { move^[w.moves w.moment] w with moment := w.moment + 1 }

/-- `CMD_GDMA_SET_SRC_PAUSE_ADDR` and `CMD_GDMA_SET_DST_PAUSE_ADDR`. -/
def World.setPauseAddr (w : World) (addr : Nat) : World :=
  { w with gdma := { w.gdma with pauseAddr := addr } }

/-- `RB_DMA_RD_ST`, and `RB_DMA_WR_ST`, without the number of the channel. -/
structure RbDma where
  address : Nat
  capacity : Nat
  wp : Nat
  rp : Nat

/-- `RWP_SAFE_INTERVAL`. -/
abbrev RWP_SAFE_INTERVAL : Nat := 4

/-- `audio_dac_config_dma`, and `audio_adc_config_dma`: the channel waits at the start of the
buffer. -/
def audioConfigDma (w : World) (buf bufLen : Nat) : World :=
  { w with gdma := ⟨buf, buf, u32 (buf + bufLen), buf⟩, moved := [] }

/-! ## The processor writes -/

/-- `rb_init_dma_read`. -/
def rbInitDmaRead (w : World) (addr capacity : Nat) : RbDma × World :=
  (⟨addr, capacity, 0, 0⟩, (w.tick World.moveOut).setPauseAddr (u32 (addr + 0)))

/-- `RB_DMA_RD_MEMCPY(dst, ..)` of the bytes given. -/
def copyIn (w : World) (dst : Nat) : List Byte → World
  | [] => w
  | b :: bs =>
    let w := w.tick World.moveOut
    copyIn { w with mem := write8 w.mem dst b } (dst + 1) bs

/-- The end of `rb_write_dma_read`. -/
def finishWrite (rb : RbDma) (w : World) (writeBytes : Nat) : Nat × RbDma × World :=
  let rb := if rb.wp ≥ rb.capacity ∧ rb.rp ≠ 0 then { rb with wp := 0 } else rb
  (writeBytes, rb, (w.tick World.moveOut).setPauseAddr (u32 (rb.address + rb.wp)))

/-- `rb_write_dma_read`. -/
def rbWriteDmaRead (rb : RbDma) (w : World) (buffer : List Byte) (size count : Nat) :
    Nat × RbDma × World :=
  let writeBytes := u32 (size * count)
  if writeBytes = 0 then (0, rb, w)
  else
    let w := w.tick World.moveOut
    let rp := sub32 w.gdma.addr rb.address
    let rb := { rb with rp := rp }
    if rb.wp ≥ rp then
      let remainBytes := u32 (sub32 rb.capacity rb.wp + rp)
      if remainBytes ≥ u32 (writeBytes + RWP_SAFE_INTERVAL) then
        let remainBytes := sub32 rb.capacity rb.wp
        if remainBytes ≥ writeBytes then
          let w := copyIn w (u32 (rb.address + rb.wp)) (buffer.take writeBytes)
          finishWrite { rb with wp := u32 (rb.wp + writeBytes) } w writeBytes
        else
          let w := copyIn w (u32 (rb.address + rb.wp)) (buffer.take remainBytes)
          let rb := { rb with wp := sub32 writeBytes remainBytes }
          let w := copyIn w rb.address ((buffer.drop remainBytes).take rb.wp)
          finishWrite rb w writeBytes
      else (0, rb, w)
    else
      let remainBytes := sub32 rp rb.wp
      if remainBytes ≥ u32 (writeBytes + RWP_SAFE_INTERVAL) then
        let w := copyIn w (u32 (rb.address + rb.wp)) (buffer.take writeBytes)
        finishWrite { rb with wp := u32 (rb.wp + writeBytes) } w writeBytes
      else (0, rb, w)

/-- The bytes from `rp` to `wp`. -/
def fillOf (rb : RbDma) : Nat :=
  if rb.wp ≥ rb.rp then sub32 rb.wp rb.rp else u32 (sub32 rb.capacity rb.rp + rb.wp)

/-- The bytes from `wp` to `rp` but for the safe interval. -/
def freeOf (rb : RbDma) : Nat :=
  let freeSize :=
    if rb.wp ≥ rb.rp then u32 (sub32 rb.capacity rb.wp + rb.rp) else sub32 rb.rp rb.wp
  if freeSize > RWP_SAFE_INTERVAL then sub32 freeSize RWP_SAFE_INTERVAL else 0

/-- The read pointer is taken from the channel. -/
def sampleRp (rb : RbDma) (w : World) : RbDma × World :=
  let w := w.tick World.moveOut
  ({ rb with rp := sub32 w.gdma.addr rb.address }, w)

/-- `rb_get_fill_size_dma_read`. -/
def rbGetFillSizeDmaRead (rb : RbDma) (w : World) : Nat × RbDma × World :=
  let r := sampleRp rb w
  (fillOf r.1, r)

/-- `rb_get_free_size_dma_read`. -/
def rbGetFreeSizeDmaRead (rb : RbDma) (w : World) : Nat × RbDma × World :=
  let r := sampleRp rb w
  (freeOf r.1, r)

/-! ## The processor reads -/

/-- `rb_init_dma_write`. -/
def rbInitDmaWrite (w : World) (addr capacity : Nat) : RbDma × World :=
  (⟨addr, capacity, 0, 0⟩,
    (w.tick World.moveIn).setPauseAddr (sub32 (u32 (addr + capacity)) RWP_SAFE_INTERVAL))

/-- `RB_DMA_WR_MEMCPY(.., src, n)`: the bytes copied. -/
def copyOut (w : World) (src : Nat) : Nat → List Byte × World
  | 0 => ([], w)
  | n + 1 =>
    let w := w.tick World.moveIn
    let rest := copyOut w (src + 1) n
    (w.mem src :: rest.1, rest.2)

/-- The end of `rb_read_dma_write`. -/
def finishRead (rb : RbDma) (w : World) (bytes : List Byte) (readBytes : Nat) :
    (Nat × List Byte) × RbDma × World :=
  let pause :=
    if rb.rp ≥ RWP_SAFE_INTERVAL then sub32 (u32 (rb.address + rb.rp)) RWP_SAFE_INTERVAL
    else sub32 (u32 (rb.address + rb.capacity + rb.rp)) RWP_SAFE_INTERVAL
  ((readBytes, bytes), rb, (w.tick World.moveIn).setPauseAddr pause)

/-- `rb_read_dma_write`: the result, and the bytes that `buffer` starts with. -/
def rbReadDmaWrite (rb : RbDma) (w : World) (size count : Nat) :
    (Nat × List Byte) × RbDma × World :=
  let requiredBytes := u32 (size * count)
  if requiredBytes = 0 then ((0, []), rb, w)
  else
    let w := w.tick World.moveIn
    let wp := sub32 w.gdma.addr rb.address
    let rb := { rb with wp := wp }
    if wp ≥ rb.rp then
      let remainBytes := sub32 wp rb.rp
      let readBytes := if requiredBytes > remainBytes then remainBytes else requiredBytes
      let r := copyOut w (u32 (rb.address + rb.rp)) readBytes
      finishRead { rb with rp := u32 (rb.rp + readBytes) } r.2 r.1 readBytes
    else
      let remainBytes := sub32 rb.capacity rb.rp
      if requiredBytes > remainBytes then
        let r := copyOut w (u32 (rb.address + rb.rp)) remainBytes
        if sub32 requiredBytes remainBytes > wp then
          let r' := copyOut r.2 rb.address wp
          finishRead { rb with rp := wp } r'.2 (r.1 ++ r'.1) (u32 (remainBytes + wp))
        else
          let r' := copyOut r.2 rb.address (sub32 requiredBytes remainBytes)
          finishRead { rb with rp := sub32 requiredBytes remainBytes } r'.2 (r.1 ++ r'.1)
            requiredBytes
      else
        let r := copyOut w (u32 (rb.address + rb.rp)) requiredBytes
        finishRead { rb with rp := u32 (rb.rp + requiredBytes) } r.2 r.1 requiredBytes

/-- The write pointer is taken from the channel. -/
def sampleWp (rb : RbDma) (w : World) : RbDma × World :=
  let w := w.tick World.moveIn
  ({ rb with wp := sub32 w.gdma.addr rb.address }, w)

/-- `rb_get_fill_size_dma_write`. -/
def rbGetFillSizeDmaWrite (rb : RbDma) (w : World) : Nat × RbDma × World :=
  let r := sampleWp rb w
  (fillOf r.1, r)

/-- `rb_get_free_size_dma_write`. -/
def rbGetFreeSizeDmaWrite (rb : RbDma) (w : World) : Nat × RbDma × World :=
  let r := sampleWp rb w
  (freeOf r.1, r)

end TuyaSdk.DmaRing
