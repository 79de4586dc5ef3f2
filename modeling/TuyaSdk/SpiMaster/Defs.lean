import TuyaSdk.Lib.Machine

/-!
# The SPI master with DMA

`bk_spi_master_dma_send`, `_recv` and `_xfer` program the DMA channel and the transfer length of
each direction, chunk by chunk, and wait for a semaphore that the finish interrupts of all
sources give. The task goes on step by step, and an interrupt may come between any two steps:
one for each direction that was enabled and each of its sources.
-/

namespace TuyaSdk.SpiMaster

open TuyaSdk.Lib

/-- `MAX_LEN_ONCE` -/
def maxLenOnce : Nat := 4095

/-- `struct spi_message`; address 0 is `NULL`. -/
structure Message where
  sendBuf : UInt32
  sendLen : UInt32
  recvBuf : UInt32
  recvLen : UInt32
  deriving DecidableEq

/-- A chunk as it was programmed: the address, the length meant, the lengths in the registers of
the SPI and of the DMA, and whether the chunk before it was finished. -/
structure Chunk where
  addr : UInt32
  len : UInt32
  transLen : UInt32
  dmaLen : UInt32
  fresh : Bool
  deriving DecidableEq

/-- One direction: its registers, the interrupts that will come from it, and the chunks programmed
for the call. -/
structure Engine where
  transLen : UInt32
  startAddr : UInt32
  dmaTransLen : UInt32
  /-- programmed, and not enabled yet -/
  programmed : Bool
  spiPending : Bool
  dmaPending : Bool
  chunks : List Chunk
  deriving DecidableEq

def Engine.init : Engine := ⟨0, 0, 0, false, false, false, []⟩

/-- Nothing is programmed and no interrupt will come. -/
def Engine.Quiet (e : Engine) : Prop :=
  e.programmed = false ∧ e.spiPending = false ∧ e.dmaPending = false

instance (e : Engine) : Decidable e.Quiet := inferInstanceAs (Decidable (_ ∧ _ ∧ _))

/-- `set_txtrans_len` and `set_rxtrans_len` -/
def transLenField (val : UInt32) : UInt32 := val &&& 0xFFF

/-- `gdma_set_transfer_length` -/
def gdmaLenField (len : UInt32) : UInt32 := (len - 1) &&& 0xFFFF

/-- The length of the SPI transfer, the start address and the length of the DMA transfer are
set. -/
def Engine.program (e : Engine) (transLen addr len : UInt32) : Engine :=
  { e with
    transLen := transLenField transLen
    startAddr := addr
    dmaTransLen := gdmaLenField len
    programmed := true
    chunks := e.chunks ++
      [⟨addr, len, transLenField transLen, gdmaLenField len + 1, decide e.Quiet⟩] }

/-- `spi_dma_tx_enable(1)` and `spi_dma_rx_enable(1)`. A finish interrupt of the SPI comes unless
its transfer length is 0, one of the DMA if it has a handler. -/
def Engine.enable (e : Engine) (finHandler : Bool) : Engine :=
  { e with programmed := false, spiPending := e.transLen ≠ 0, dmaPending := finHandler }

/-- Which function runs; `spci` is the send with one DMA transfer. -/
inductive Kind where
  | send
  | spci
  | recv
  | xfer
  deriving DecidableEq

/-- The local variables of the function, and the message, whose lengths it overwrites. -/
structure Active where
  kind : Kind
  msg : Message
  len : Int
  offset : Nat
  deriving DecidableEq

/-- Where the task is. -/
inductive Pc where
  | idle
  /-- at the condition of the loop -/
  | loop (a : Active)
  /-- before `spi_dma_tx_enable` -/
  | txEnable (a : Active)
  /-- before `spi_dma_rx_enable` -/
  | rxEnable (a : Active)
  /-- in `rtos_get_semaphore` -/
  | wait (a : Active)
  deriving DecidableEq

/-- `spi_dev` and the two directions; `job` is what the call that was accepted last has to move,
`ret` what the last call returned, `none` while one runs. -/
structure State where
  spciFlag : Bool
  busyFlag : Bool
  lastPack : Bool
  finishSem : Bool
  tx : Engine
  rx : Engine
  pc : Pc
  job : Message
  ret : Option Int
  deriving DecidableEq

/-- `bk_spi_master_dma_init` -/
def bkSpiMasterDmaInit (flag : UInt32) : State where
  spciFlag := flag &&& 1 ≠ 0
  busyFlag := false
  lastPack := false
  finishSem := false
  tx := .init
  rx := .init
  pc := .idle
  job := ⟨0, 0, 0, 0⟩
  ret := some (-1)

/-- The conversion of an unsigned length to `int`. -/
def intOf (n : UInt32) : Int := if n.toNat < 2 ^ 31 then n.toNat else n.toNat - 2 ^ 32

/-- `len > MAX_LEN_ONCE ? MAX_LEN_ONCE : len` -/
def chunkLen (len : Int) : UInt32 :=
  if maxLenOnce < len then UInt32.ofNat maxLenOnce else UInt32.ofNat len.toNat

namespace State

/-- `bk_spi_get_status` -/
def bkSpiGetStatus (s : State) : Bool := s.busyFlag

def fail (s : State) : State := { s with ret := some (-1) }

def done (s : State) : State := { s with pc := .idle, ret := some 0 }

/-- A call is accepted. -/
def accept (s : State) (job : Message) (a : Active) : State :=
  { s with
    busyFlag := true
    job := job
    ret := none
    tx := { s.tx with chunks := [] }
    rx := { s.rx with chunks := [] }
    pc := .loop a }

/-- `bk_spi_master_dma_send`, up to its loop -/
def bkSpiMasterDmaSend (s : State) : Option Message → State
  | none => s.fail
  | some msg =>
    if msg.sendBuf = 0 ∨ msg.sendLen = 0 then s.fail
    else
      s.accept ⟨msg.sendBuf, msg.sendLen, 0, 0⟩
        ⟨if s.spciFlag then .spci else .send, msg, intOf msg.sendLen, 0⟩

/-- `bk_spi_master_dma_recv`, up to its loop -/
def bkSpiMasterDmaRecv (s : State) : Option Message → State
  | none => s.fail
  | some msg =>
    if msg.recvBuf = 0 ∨ msg.recvLen = 0 then s.fail
    else s.accept ⟨0, 0, msg.recvBuf, msg.recvLen⟩ ⟨.recv, msg, intOf msg.recvLen, 0⟩

/-- The lengths of `NULL` buffers are set to 0. -/
def zeroNull (msg : Message) : Message :=
  { msg with
    recvLen := if msg.recvBuf = 0 then 0 else msg.recvLen
    sendLen := if msg.sendBuf = 0 then 0 else msg.sendLen }

/-- `bk_spi_master_dma_xfer`, up to its loop -/
def bkSpiMasterDmaXfer (s : State) : Option Message → State
  | none => s.fail
  | some msg =>
    let msg := zeroNull msg
    if msg.recvBuf ≠ 0 ∧ msg.sendBuf ≠ 0 ∧ msg.recvLen ≠ msg.sendLen then s.fail
    else
      s.accept msg
        ⟨.xfer, msg, intOf (if 0 < msg.recvLen then msg.recvLen else msg.sendLen), 0⟩

/-- The receive part of a loop body. -/
def programRx (s : State) (a : Active) : State × Active :=
  let recvLen := chunkLen a.len
  ({ s with
      lastPack := !(maxLenOnce < recvLen.toNat)
      rx := s.rx.program recvLen (a.msg.recvBuf + UInt32.ofNat a.offset) recvLen },
    { a with msg := { a.msg with recvLen := recvLen } })

/-- The send part of a loop body. -/
def programTx (s : State) (a : Active) : State × Active :=
  let sendLen := chunkLen a.len
  ({ s with
      lastPack := !(maxLenOnce < sendLen.toNat)
      tx := s.tx.program sendLen (a.msg.sendBuf + UInt32.ofNat a.offset) sendLen },
    { a with msg := { a.msg with sendLen := sendLen } })

/-- The loop condition, and the body up to the enabling; without a loop for `spci`. -/
def loopStep (s : State) (a : Active) : State :=
  match a.kind with
  | .spci =>
    { s with
      busyFlag := true
      tx := s.tx.program 0 (a.msg.sendBuf + UInt32.ofNat a.offset) a.msg.sendLen
      pc := .txEnable a }
  | .send =>
    if 0 < a.len then
      let r := s.programTx a
      { r.1 with pc := .txEnable r.2 }
    else s.done
  | .recv =>
    if 0 < a.len then
      let r := s.programRx a
      { r.1 with pc := .txEnable r.2 }
    else s.done
  | .xfer =>
    if 0 < a.len then
      let r := if a.msg.recvBuf ≠ 0 then s.programRx a else (s, a)
      let r := if a.msg.sendBuf ≠ 0 then r.1.programTx r.2 else r
      { r.1 with pc := .txEnable r.2 }
    else s.done

/-- The function enables the sending. -/
def sends (a : Active) : Bool :=
  match a.kind with
  | .spci | .send => true
  | .recv => false
  | .xfer => a.msg.sendBuf ≠ 0 && 0 < a.msg.sendLen

/-- The function enables the receiving. -/
def receives (a : Active) : Bool :=
  match a.kind with
  | .spci | .send => false
  | .recv => true
  | .xfer => a.msg.recvBuf ≠ 0 && 0 < a.msg.recvLen

/-- The length by which the function goes on. -/
def advance (a : Active) : Nat :=
  match a.kind with
  | .spci | .send => a.msg.sendLen.toNat
  | .recv => a.msg.recvLen.toNat
  | .xfer => if 0 < a.msg.recvLen then a.msg.recvLen.toNat else a.msg.sendLen.toNat

/-- After the semaphore was taken. -/
def woken (s : State) (a : Active) : State :=
  if a.kind = .spci then s.done
  else { s with pc := .loop { a with len := a.len - advance a, offset := a.offset + advance a } }

/-- One step of the task. -/
def taskStep (s : State) : State :=
  match s.pc with
  | .idle => s
  | .loop a => s.loopStep a
  | .txEnable a =>
    { s with tx := if sends a then s.tx.enable s.spciFlag else s.tx, pc := .rxEnable a }
  | .rxEnable a =>
    { s with rx := if receives a then s.rx.enable false else s.rx, pc := .wait a }
  | .wait a => if s.finishSem then woken { s with finishSem := false } a else s

/-- `bk_spi_dma_finish_callback` -/
def bkSpiDmaFinishCallback (s : State) : State :=
  { s with busyFlag := if s.lastPack then false else true, finishSem := true }

/-- `bk_spi_dma_irq_cb` -/
def bkSpiDmaIrqCb (s : State) : State := { s with busyFlag := false, finishSem := true }

end State

/-- A call of one of the three functions; `none` is a `NULL` message. -/
inductive Call where
  | send (msg : Option Message)
  | recv (msg : Option Message)
  | xfer (msg : Option Message)
  deriving DecidableEq

/-- A call is made, when no other runs. -/
def State.call (s : State) : Call → State
  | .send msg => s.bkSpiMasterDmaSend msg
  | .recv msg => s.bkSpiMasterDmaRecv msg
  | .xfer msg => s.bkSpiMasterDmaXfer msg

/-- What happens next. -/
inductive Input where
  /-- a call, when no other runs -/
  | call (call : Call)
  /-- a step of the task that runs the call -/
  | task
  | txFinish
  | rxFinish
  | dmaFinish
  deriving DecidableEq

/-- An interrupt comes, if it is pending. -/
def State.irq (s : State) : Input → State
  | .txFinish =>
    if s.tx.spiPending then
      { s with tx := { s.tx with spiPending := false } }.bkSpiDmaFinishCallback
    else s
  | .rxFinish =>
    if s.rx.spiPending then
      { s with rx := { s.rx with spiPending := false } }.bkSpiDmaFinishCallback
    else s
  | .dmaFinish =>
    if s.tx.dmaPending then { s with tx := { s.tx with dmaPending := false } }.bkSpiDmaIrqCb else s
  | _ => s

/-- One step -/
def step : Machine State Input Unit := fun s input =>
  match input with
  | .call c => some (if s.pc = .idle then s.call c else s, ())
  | .task => some (s.taskStep, ())
  | _ => some (s.irq input, ())

end TuyaSdk.SpiMaster
