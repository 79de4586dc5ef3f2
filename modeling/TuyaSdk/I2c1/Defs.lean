import TuyaSdk.Lib.Bytes
import TuyaSdk.Lib.Machine

/-!
# The first I2C master (`i2c1.c`)

A call fills the message block and starts the bus; the interrupt routine, once per byte on the
bus, gives the controller its next byte or takes the byte received, and sets the done flag at the
end. The call waits for the flag, or gives up. The bus may carry a byte between any two steps of
the call.
-/

namespace TuyaSdk.I2c1
open TuyaSdk.Lib

/-- `ADDR_WIDTH_8`. -/
abbrev ADDR_WIDTH_8 : Nat := 1

/-- `ADDR_WIDTH_16`. -/
abbrev ADDR_WIDTH_16 : Nat := 2

/-- `I2C1_MSG_ST`; a flag that is 0 or 1 is a `Bool`. -/
structure Msg where
  regAddr : BitVec 16
  remainNum : Nat
  pData : Nat
  salveId : BitVec 8
  addrFlag : BitVec 8
  transDone : Bool
  errorNo : Nat
  txMode : Bool
  addrWidth : Nat

/-- The bits of `REG_I2C1_CONFIG` that the calls and the interrupt routine use. -/
structure Config where
  ensmb : Bool
  sta : Bool
  sto : Bool
  ackTx : Bool
  txMode : Bool
  si : Bool
  ackRx : Bool

/-- The message block `gi2c1`, the registers, the memory, and the addresses that the interrupt
routine has read or written through `gi2c1.pData`. -/
structure Dev where
  msg : Msg
  config : Config
  dat : Byte
  mem : Mem
  touched : List Nat

/-- The decrement of a `UINT16`. -/
def dec16 (n : Nat) : Nat := (n + (2 ^ 16 - 1)) % 2 ^ 16

/-- `i2c1_config | I2C1_STO`. -/
def Dev.stop (d : Dev) : Dev := { d with config := { d.config with sto := true } }

/-- `gi2c1.TransDone = 1`. -/
def Dev.done (d : Dev) : Dev := { d with msg := { d.msg with transDone := true } }

/-- `gi2c1.ErrorNO = 1`. -/
def Dev.fail (d : Dev) : Dev := { d with msg := { d.msg with errorNo := 1 } }

/-- `REG_WRITE(REG_I2C1_DAT, ..)` of a part of the register address, with the flag that says
so. -/
def Dev.sendAddr (d : Dev) (b : Byte) (flag : BitVec 8) : Dev :=
  { d with dat := b, msg := { d.msg with addrFlag := flag } }

/-- `gi2c1.RegAddr & 0xFF`. -/
def Msg.low (m : Msg) : Byte := m.regAddr.setWidth 8

/-- `gi2c1.RegAddr >> 8`. -/
def Msg.high (m : Msg) : Byte := (m.regAddr >>> 8).setWidth 8

/-- The master write of `i2c1_isr`. -/
def isrWrite (d : Dev) : Dev :=
  if d.config.ackRx = false then d.stop.done.fail
  else if d.msg.addrFlag &&& 0x10 ≠ 0 then
    if d.msg.remainNum = 0 then d.stop.done
    else
      { d with
        dat := d.mem d.msg.pData
        msg := { d.msg with
          pData := d.msg.pData + 1
          remainNum := dec16 d.msg.remainNum }
        touched := d.touched ++ [d.msg.pData] }
  else if d.msg.addrFlag &&& 0x08 = 0 then
    if d.msg.addrWidth = ADDR_WIDTH_8 then d.sendAddr d.msg.low (d.msg.addrFlag ||| 0x13)
    else if d.msg.addrWidth = ADDR_WIDTH_16 then
      d.sendAddr d.msg.high (d.msg.addrFlag ||| 0x08)
    else d
  else d.sendAddr d.msg.low (d.msg.addrFlag ||| 0x10)

/-- `i2c1_config | I2C1_ACK_TX`, or without it. -/
def Dev.answer (d : Dev) (ack : Bool) : Dev := { d with config := { d.config with ackTx := ack } }

/-- A byte is taken from `REG_I2C1_DAT`. -/
def Dev.take (d : Dev) : Dev :=
  { d with
    mem := write8 d.mem d.msg.pData d.dat
    msg := { d.msg with
      pData := d.msg.pData + 1
      remainNum := dec16 d.msg.remainNum }
    touched := d.touched ++ [d.msg.pData] }

/-- The master read of `i2c1_isr`; `sta` is the bit as it was read. -/
def isrRead (d : Dev) (sta : Bool) : Dev :=
  if d.msg.addrFlag &&& 0x10 = 0 ∧ d.config.ackRx = false then d.stop.done.fail
  else if sta = true ∧ d.config.ackRx = false then d.stop.done
  else if d.msg.addrFlag &&& 0x10 ≠ 0 then
    let d := { d with config := { d.config with txMode := false } }
    if sta = true then d.answer true
    else
      let d := d.take
      if d.msg.remainNum = 0 then (d.answer false).stop.done else d.answer true
  else if d.msg.addrFlag &&& 0x08 = 0 then
    if d.msg.addrWidth = ADDR_WIDTH_8 then
      d.sendAddr d.msg.low (d.msg.addrFlag &&& ~~~0x0B ||| 0x0A)
    else if d.msg.addrWidth = ADDR_WIDTH_16 then
      d.sendAddr d.msg.high (d.msg.addrFlag &&& ~~~0x0B ||| 0x08)
    else d
  else if d.msg.addrFlag &&& 0x02 = 0 then
    d.sendAddr d.msg.low (d.msg.addrFlag &&& ~~~0x0B ||| 0x0A)
  else
    let d := { d with config := { d.config with sta := true } }
    d.sendAddr (d.msg.salveId <<< 1 ||| 0x01) (d.msg.addrFlag ||| 0x13)

/-- `i2c1_isr`. -/
def i2c1Isr (d : Dev) : Dev :=
  if d.config.si = false then d
  else
    let sta := d.config.sta
    let d := { d with config := { d.config with sta := false, sto := false } }
    let d := if d.msg.txMode = true then isrWrite d else isrRead d sta
    { d with config := { d.config with si := false } }

/-! ## Calls -/

/-- `I2C_OP_ST`, the buffer and the direction of `i2c1_read` (`txMode` false) or
`i2c1_write`. -/
structure Call where
  txMode : Bool
  userBuf : Nat
  count : Nat
  addrWidth : Nat
  salveId : BitVec 8
  opAddr : BitVec 16

/-- What a call does with interrupts disabled: the message block is filled and the bus is
started with the slave address. -/
def start (d : Dev) (c : Call) : Dev :=
  { d with
    msg :=
      { regAddr := c.opAddr, remainNum := c.count % 2 ^ 16, pData := c.userBuf,
        salveId := c.salveId, addrFlag := 0, transDone := false, errorNo := 0,
        txMode := c.txMode, addrWidth := c.addrWidth }
    config := { d.config with ensmb := true, txMode := true, sta := true }
    dat := (c.salveId &&& 0x7f) <<< 1 }

/-- Where the caller is. -/
inductive Task where
  | idle
  /-- The done flag was clear. -/
  | entered (c : Call)
  /-- In the wait loop. -/
  | waiting (c : Call)
  /-- Behind the wait loop. -/
  | leaving (c : Call)
  /-- The done flag is cleared. -/
  | returning (c : Call)

/-- The call whose transfer was started. -/
def Task.running : Task → Option Call
  | .idle => none
  | .entered _ => none
  | .waiting c => some c
  | .leaving c => some c
  | .returning c => some c

/-- What the bus carries: a start or repeated start, a byte from the master with the answer of
the slave, a byte from the slave with the answer of the master, a stop. -/
inductive BusItem where
  | start
  | sent (b : Byte) (ack : Bool)
  | received (b : Byte) (ack : Bool)
  | stop
deriving DecidableEq

/-- The device, the bus (whether a transfer is on it, and what it has carried since the last was
started) and the caller. -/
structure State where
  dev : Dev
  busy : Bool
  log : List BusItem
  task : Task

/-- What happens next. -/
inductive Event where
  /-- A call reads the done flag. -/
  | enter (c : Call)
  /-- The bus is started. -/
  | begin
  /-- A byte passes on the bus: the slave's answer, and its byte if it is the one who sends. -/
  | byte (ack : Bool) (b : Byte)
  /-- The wait loop reads the done flag, and its time may be over. -/
  | poll (timeOver : Bool)
  /-- The done flag is cleared. -/
  | clear
  | ret

/-- The items before and behind the interrupt of a byte. The controller starts if it was told to,
and sends or receives by its mode; a byte received is answered after the interrupt. -/
def State.byte (s : State) (ack : Bool) (b : Byte) : State :=
  let c := s.dev.config
  let log := if c.sta = true then s.log ++ [.start] else s.log
  let d := i2c1Isr
    { s.dev with
      config := { c with si := true, ackRx := ack }
      dat := if c.txMode = true then s.dev.dat else b }
  let log := log ++ [if c.txMode = true then .sent s.dev.dat ack else .received b d.config.ackTx]
  if d.config.sto = true then { s with dev := d, busy := false, log := log ++ [.stop] }
  else { s with dev := d, log := log }

/-- One step; a call that returns gives its result. -/
def step : Machine State Event (Option Nat) := fun s e =>
  match e, s.task with
  | .enter c, .idle =>
    if s.dev.msg.transDone = true then some (s, some 0)
    else some ({ s with task := .entered c }, none)
  | .begin, .entered c =>
    some ({ s with dev := start s.dev c, busy := true, log := [], task := .waiting c }, none)
  | .byte ack b, _ => if s.busy = true then some (s.byte ack b, none) else none
  | .poll timeOver, .waiting c =>
    if s.dev.msg.transDone = true then some ({ s with task := .leaving c }, none)
    else if timeOver = true then some ({ s with dev := s.dev.fail, task := .leaving c }, none)
    else some (s, none)
  | .clear, .leaving c =>
    let msg := { s.dev.msg with transDone := false }
    some ({ s with dev := { s.dev with msg := msg }, task := .returning c }, none)
  | .ret, .returning _ => some ({ s with task := .idle }, some s.dev.msg.errorNo)
  | _, _ => none

/-- `i2c1_init`, and `i2c1_open` without the divisor. -/
def i2c1Init (mem : Mem) : State where
  dev :=
    { msg := ⟨0, 0, 0, 0, 0, false, 0, false, 0⟩
      config := ⟨false, false, false, false, false, false, false⟩
      dat := 0
      mem := mem
      touched := [] }
  busy := false
  log := []
  task := .idle

end TuyaSdk.I2c1
