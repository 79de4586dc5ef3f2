import Mathlib

/-!
# The pins (`gpio.c`)

Each of the forty pins has a configuration word. The first 32 have a bit in the enable register,
a bit in the status register and a field of two bits in one of two level registers.

Registers are kept by address. The status register is apart: the hardware may raise flags before
every access, and a write of a one clears the flag. What is shifted by 32 or more is not defined
by the language; it is `wild` here, and the counts of all shifts by an index are kept.
-/

namespace TuyaSdk.Gpio

/-! ## The registers -/

/-- `GPIO_BASE_ADDR`. -/
def gpioBaseAddr : BitVec 32 := 0x0802800

/-- `REG_GPIO_INTEN`. -/
def regGpioInten : BitVec 32 := gpioBaseAddr + 33 * 4

/-- `REG_GPIO_INTLV0`. -/
def regGpioIntlv0 : BitVec 32 := gpioBaseAddr + 34 * 4

/-- `REG_GPIO_INTLV1`. -/
def regGpioIntlv1 : BitVec 32 := gpioBaseAddr + 35 * 4

/-- `REG_GPIO_INTSTA`. -/
def regGpioIntsta : BitVec 32 := gpioBaseAddr + 36 * 4

/-- `REG_GPIO_CFG_BASE_ADDR + id * 4`. -/
def gpioCfgAddr (id : BitVec 32) : BitVec 32 := gpioBaseAddr + id * 4

/-- `GPIONUM`. -/
def gpioNum : BitVec 32 := 40

/-- The registers and the table of handlers. -/
structure Dev (φ : Type*) where
  regs : BitVec 32 → BitVec 32
  /-- The status register. -/
  pending : BitVec 32
  /-- The flags that come up right before the access of a moment. -/
  raises : Nat → BitVec 32
  moment : Nat
  /-- The flags that each write of the status register has cleared. -/
  cleared : List (BitVec 32)
  /-- The counts of the shifts by an index. -/
  shifts : List Nat
  /-- `p_gpio_intr_handler`. -/
  handler : Nat → Option φ

variable {φ : Type*}

/-- What the hardware does before an access. -/
def Dev.tick (s : Dev φ) : Dev φ :=
  { s with pending := s.pending ||| s.raises s.moment, moment := s.moment + 1 }

/-- `REG_READ`. -/
def Dev.regRead (s : Dev φ) (addr : BitVec 32) : BitVec 32 × Dev φ :=
  (if addr = regGpioIntsta then s.tick.pending else s.regs addr, s.tick)

/-- `REG_WRITE`. -/
def Dev.regWrite (s : Dev φ) (addr value : BitVec 32) : Dev φ :=
  if addr = regGpioIntsta then
    { s.tick with
      pending := s.tick.pending &&& ~~~value
      cleared := s.cleared ++ [s.tick.pending &&& value] }
  else { s.tick with regs := Function.update s.regs addr value }

/-- A register is read, changed and written back. -/
def Dev.modify (s : Dev φ) (addr : BitVec 32) (f : BitVec 32 → BitVec 32) : Dev φ :=
  (s.regRead addr).2.regWrite addr (f (s.regRead addr).1)

/-- There is a shift by `n`. -/
def Dev.shift (s : Dev φ) (n : Nat) : Dev φ := { s with shifts := s.shifts ++ [n] }

/-- An entry of the table is set. -/
def Dev.setHandler (s : Dev φ) (index : Nat) (h : Option φ) : Dev φ :=
  { s with handler := Function.update s.handler index h }

variable (wild : BitVec 32 → Nat → BitVec 32)

/-- `x << n`. -/
def shl (x : BitVec 32) (n : Nat) : BitVec 32 := if n < 32 then x <<< n else wild x n

/-! ## Configuration and levels of output -/

/-- The word of a pin, counted from the first one. -/
def pinWord (id : BitVec 32) : BitVec 32 := if id ≥ 32 then id + 16 else id

/-- `GMODE_INPUT_PULLDOWN`. -/
def gmodeInputPulldown : BitVec 32 := 0

/-- `GMODE_INPUT_PULLUP`. -/
def gmodeInputPullup : BitVec 32 := 3

/-- The word for a mode; two modes of the enumeration have none. -/
def modeVal (mode : BitVec 32) : Option (BitVec 32) :=
  if mode = gmodeInputPulldown then some 0x2C
  else if mode = 1 then some 0x00
  else if mode = 2 then some 0x48
  else if mode = gmodeInputPullup then some 0x3C
  else if mode = 4 then some 0x0C
  else if mode = 5 then some 0x78
  else if mode = 8 ∨ mode = 7 then some 0x08
  else none

/-- `gpio_config`. -/
def gpioConfig (s : Dev φ) (index mode : BitVec 32) : Dev φ :=
  if index ≥ gpioNum then s
  else
    match modeVal mode with
    | some val => s.regWrite (gpioCfgAddr (pinWord index)) val
    | none => s

/-- `GCFG_INPUT_BIT`. -/
def gcfgInputBit : BitVec 32 := 1 <<< 0

/-- `GCFG_OUTPUT_BIT`. -/
def gcfgOutputBit : BitVec 32 := 1 <<< 1

/-- `gpio_input`. -/
def gpioInput (s : Dev φ) (id : BitVec 32) : BitVec 32 × Dev φ :=
  let val := s.regRead (gpioCfgAddr (pinWord id))
  (val.1 &&& gcfgInputBit, val.2)

/-- `gpio_output`. -/
def gpioOutput (s : Dev φ) (id val : BitVec 32) : Dev φ :=
  s.modify (gpioCfgAddr (pinWord id)) fun regVal =>
    (regVal &&& ~~~gcfgOutputBit) ||| ((val &&& 0x01) <<< 1)

/-- `gpio_output_reverse`. -/
def gpioOutputReverse (s : Dev φ) (id : BitVec 32) : Dev φ :=
  s.modify (gpioCfgAddr (pinWord id)) (· ^^^ gcfgOutputBit)

/-! ## Interrupts -/

/-- The level register of a pin. -/
def levelReg (index : BitVec 32) : BitVec 32 := if index < 16 then regGpioIntlv0 else regGpioIntlv1

/-- The position of its field. -/
def levelPos (index : BitVec 32) : BitVec 32 :=
  if index < 16 then index <<< 1 else (index - 16) <<< 1

/-- The level field of a pin is set. -/
def setLevel (s : Dev φ) (index mode : BitVec 32) : Dev φ :=
  let pos := (levelPos index).toNat
  ((s.shift pos).shift pos).modify (levelReg index) fun value =>
    (value &&& ~~~shl wild 0x03 pos) ||| shl wild mode pos

/-- The enable bit of a pin is set. -/
def setEnable (s : Dev φ) (index : BitVec 32) : Dev φ :=
  (s.shift index.toNat).modify regGpioInten (· ||| shl wild 0x01 index.toNat)

/-- `gpio_int_disable`. -/
def gpioIntDisable (s : Dev φ) (index : BitVec 32) : Dev φ :=
  (s.shift index.toNat).modify regGpioInten (· &&& ~~~shl wild 0x01 index.toNat)

/-- A pass of the loop of `gpio_int_enable`. -/
def clearPass (s : Dev φ) (index : BitVec 32) : Dev φ :=
  let ulIntStatus := s.regRead regGpioIntsta
  let s := ulIntStatus.2.shift index.toNat
  if ulIntStatus.1 &&& shl wild 0x1 index.toNat ≠ 0 then
    (s.shift index.toNat).modify regGpioIntsta (· ||| shl wild 0x1 index.toNat)
  else s

/-- The passes that are left. -/
def clearLoop (index : BitVec 32) : Nat → Dev φ → Dev φ
  | 0, s => s
  | n + 1, s => clearLoop index n (clearPass wild s index)

/-- What `gpio_int_enable` does to a pin before its loop. -/
def intArm (s : Dev φ) (index mode : BitVec 32) : Dev φ :=
  let s := gpioConfig s index
    (if mode = 0 ∨ mode = 3 then gmodeInputPullup else gmodeInputPulldown)
  setEnable wild (setLevel wild s index mode) index

/-- `gpio_int_enable`. -/
def gpioIntEnable (s : Dev φ) (index mode : BitVec 32) (pIntHandler : Option φ) : Dev φ :=
  if index ≥ gpioNum then s
  else
    (clearLoop wild index 250 (intArm wild s index (mode &&& 0x03))).setHandler index.toNat
      pIntHandler

/-- `gpio_int_config`. -/
def gpioIntConfig (s : Dev φ) (index mode : BitVec 32) (pIntHandler : Option φ) : Dev φ :=
  if index ≥ gpioNum then s
  else setEnable wild ((setLevel wild s index mode).setHandler index.toNat pIntHandler) index

/-- What a pass of the loop of `gpio_isr` found and did. -/
structure IsrPass (φ : Type*) where
  /-- The pin, by which a one is shifted. -/
  pin : Nat
  /-- The entry of the pin in the table. -/
  entry : Option φ
  called : Option φ

/-- A pass of the loop of `gpio_isr`; `call f i` is what the handler `f` does. -/
def isrPass (call : φ → Nat → Dev φ → Dev φ) (ulIntStatus : BitVec 32) (s : Dev φ) (i : Nat) :
    Dev φ × IsrPass φ :=
  let s := s.shift i
  if ulIntStatus &&& shl wild 0x01 i ≠ 0 then
    match s.handler i with
    | some f => (call f i s, ⟨i, s.handler i, some f⟩)
    | none => (s, ⟨i, s.handler i, none⟩)
  else (s, ⟨i, s.handler i, none⟩)

/-- The passes of the loop. -/
def isrLoop (call : φ → Nat → Dev φ → Dev φ) (ulIntStatus : BitVec 32) :
    Dev φ → List Nat → Dev φ × List (IsrPass φ)
  | s, [] => (s, [])
  | s, i :: is =>
    let pass := isrPass wild call ulIntStatus s i
    let rest := isrLoop call ulIntStatus pass.1 is
    (rest.1, pass.2 :: rest.2)

/-- What `gpio_isr` does. -/
structure IsrRun (φ : Type*) where
  ulIntStatus : BitVec 32
  passes : List (IsrPass φ)
  /-- The flags that its write of the status register clears. -/
  cleared : BitVec 32
  dev : Dev φ

/-- `gpio_isr`. -/
def gpioIsr (call : φ → Nat → Dev φ → Dev φ) (s : Dev φ) : IsrRun φ :=
  let ulIntStatus := s.regRead regGpioIntsta
  let loop := isrLoop wild call ulIntStatus.1 ulIntStatus.2 (List.range gpioNum.toNat)
  { ulIntStatus := ulIntStatus.1
    passes := loop.2
    cleared := loop.1.tick.pending &&& ulIntStatus.1
    dev := loop.1.regWrite regGpioIntsta ulIntStatus.1 }

/-! ## Calls -/

/-- The calls on the pins. -/
inductive Op (φ : Type*) where
  | config (index mode : BitVec 32)
  | input (id : BitVec 32)
  | output (id val : BitVec 32)
  | outputReverse (id : BitVec 32)
  | intEnable (index mode : BitVec 32) (pIntHandler : Option φ)
  | intConfig (index mode : BitVec 32) (pIntHandler : Option φ)
  | intDisable (index : BitVec 32)
  | isr

/-- A call is made. -/
def Op.run (call : φ → Nat → Dev φ → Dev φ) (s : Dev φ) : Op φ → Dev φ
  | config index mode => gpioConfig s index mode
  | input id => (gpioInput s id).2
  | output id val => gpioOutput s id val
  | outputReverse id => gpioOutputReverse s id
  | intEnable index mode h => gpioIntEnable wild s index mode h
  | intConfig index mode h => gpioIntConfig wild s index mode h
  | intDisable index => gpioIntDisable wild s index
  | isr => (gpioIsr wild call s).dev

/-- Calls are made one after another. -/
def runOps (call : φ → Nat → Dev φ → Dev φ) (s : Dev φ) (ops : List (Op φ)) : Dev φ :=
  ops.foldl (Op.run wild call) s

end TuyaSdk.Gpio
