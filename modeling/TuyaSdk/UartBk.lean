import TuyaSdk.DrvModel

/-!
# The life of the UART1 device (`driver/uart/uart_bk.c`)

`uart1_init` allocates the two FIFOs of the port and registers the device; `uart1_exit` undoes
it. The device's open callback is `uart1_init`, its close callback `uart1_exit`: they run from
inside `ddev_open` and `ddev_close` and change the table these work on. Memory is a ledger of
the objects that are allocated; freeing anything else does not return, and neither does an
`ASSERT` that fails.
-/

namespace TuyaSdk.UartBk

open Lib DrvModel

/-! ## The FIFOs -/

/-- The number of the next object, and the objects allocated and not freed. -/
structure Heap where
  next : Nat
  live : List Nat

/-- `os_malloc`; `noMem` tells which allocations fail. -/
def Heap.malloc (noMem : Nat → Bool) (heap : Heap) : Option Nat × Heap :=
  if noMem heap.next then (none, { heap with next := heap.next + 1 })
  else (some heap.next, ⟨heap.next + 1, heap.next :: heap.live⟩)

/-- `os_free` of an object. -/
def Heap.free (heap : Heap) (obj : Nat) : Option Heap :=
  if obj ∈ heap.live then some { heap with live := heap.live.erase obj } else none

/-- `KFIFO_T`, by the objects that hold it and its buffer. -/
structure KFifo where
  obj : Nat
  buffer : Nat
  deriving DecidableEq, Repr

/-- `kfifo_alloc` -/
def kfifoAlloc (noMem : Nat → Bool) (heap : Heap) : Option (Heap × Option KFifo) :=
  match heap.malloc noMem with
  | (none, heap) => some (heap, none)
  | (some buffer, heap) =>
    match heap.malloc noMem with
    | (some obj, heap) => some (heap, some ⟨obj, buffer⟩)
    | (none, heap) => (heap.free buffer).map fun heap => (heap, none)

/-- `kfifo_free` -/
def kfifoFree (heap : Heap) (fifo : KFifo) : Option Heap := do
  let heap ← heap.free fifo.buffer
  heap.free fifo.obj

/-- `UART_S` -/
structure UartS where
  rx : Option KFifo
  tx : Option KFifo
  deriving DecidableEq, Repr

/-- The driver's part of the state: the device table, `uart[UART1_PORT]` and the memory. -/
structure Uart where
  tbl : DrvDevTbl
  uart : UartS
  heap : Heap

/-- Slot `i` of the table becomes `dev`. -/
def Uart.setSlot (s : Uart) (i : Nat) (dev : DrvDev) : Uart :=
  { s with tbl := Function.update s.tbl i dev }

/-- A FIFO is freed unless its pointer is `NULL`. -/
def freeUnlessNull (heap : Heap) : Option KFifo → Option Heap
  | none => some heap
  | some fifo => kfifoFree heap fifo

variable (noMem : Nat → Bool)

/-- `uart_sw_init`, and whether it succeeds. -/
def uartSwInit (s : Uart) : Option (Uart × Bool) := do
  let (heap, rx) ← kfifoAlloc noMem s.heap
  let (heap, tx) ← kfifoAlloc noMem heap
  if tx = none ∨ rx = none then
    let heap ← freeUnlessNull heap tx
    let heap ← freeUnlessNull heap rx
    some ({ s with uart := ⟨rx, tx⟩, heap := heap }, false)
  else some ({ s with uart := ⟨rx, tx⟩, heap := heap }, true)

/-- `uart_sw_uninit` -/
def uartSwUninit (s : Uart) : Option Uart := do
  let heap ← freeUnlessNull s.heap s.uart.tx
  let heap ← freeUnlessNull heap s.uart.rx
  some { s with uart := ⟨none, none⟩, heap := heap }

/-! ## The device -/

/-- `UART1_DEV_NAME`, the characters of "uart1". -/
def uart1DevName : Name := [0x75, 0x61, 0x72, 0x74, 0x31]

/-- `uart1_op` -/
def uart1Op : DdOperations := ⟨true, true⟩

/-- `uart1_init` -/
def uart1Init (s : Uart) : Option Uart := do
  let (s, ok) ← uartSwInit noMem s
  -- ASSERT(UART_SUCCESS == ret)
  if ok then
    let (tbl, _) ← ddevRegisterDev s.tbl (some uart1DevName) (some uart1Op)
    some { s with tbl := tbl }
  else none

/-- `uart1_exit` -/
def uart1Exit (s : Uart) : Option Uart := do
  let (tbl, _) ← ddevUnregisterDev s.tbl uart1DevName
  uartSwUninit { s with tbl := tbl }

/-- `ddev_open` of the device, with its callback at work on the same table. -/
def uart1DdevOpen (s : Uart) : Option (Uart × BitVec 32) :=
  match findName s.tbl uart1DevName ddMaxDev 0 with
  | some (some i) =>
    match (s.tbl i).state with
    | .opened =>
      some (s.setSlot i { s.tbl i with useCnt := u32 ((s.tbl i).useCnt + 1) }, ddevMakeHandle i)
    | .closed => do
      let s ← if (s.tbl i).op.any DdOperations.hasOpen then uart1Init noMem s else some s
      some (s.setSlot i { s.tbl i with state := .opened, useCnt := u32 (0 + 1) },
        ddevMakeHandle i)
    | _ => none
  | _ => none

/-- `ddev_close`, with the callback at work on the same table. -/
def uart1DdevClose (s : Uart) (handle : BitVec 32) : Option Uart :=
  match ddevGetIdFromHandle handle with
  | none => some s
  | some id =>
    if ddMaxDev ≤ id then none
    else
      let useCnt := sub32 (s.tbl id).useCnt 1
      let s := s.setSlot id { s.tbl id with useCnt := useCnt }
      if useCnt = 0 then do
        let s ← if (s.tbl id).op.any DdOperations.hasClose then uart1Exit s else some s
        some (s.setSlot id { s.tbl id with state := .closed })
      else some s

/-! ## Its life -/

/-- The slots that `ddev_register_dev` can take. -/
def freeSlots (tbl : DrvDevTbl) : Nat :=
  ((List.range ddMaxDev).filter fun i => (tbl i).name = none ∧ (tbl i).state = .noDevice).length

/-- The slots with the name of the device. -/
def namedSlots (tbl : DrvDevTbl) : List Nat :=
  (List.range ddMaxDev).filter fun i => (tbl i).name = some uart1DevName

/-- The driver, with the handles held and the number of slots that were free when each was
opened. -/
structure Sys where
  dev : Uart
  held : List (BitVec 32 × Nat)

/-- A call. -/
inductive Call where
  | init
  | open
  | close (handle : BitVec 32)
  | exit
  deriving DecidableEq, Repr

/-- One call. -/
def step : Machine Sys Call Unit := fun s c =>
  match c with
  | .init => (uart1Init noMem s.dev).map fun dev => ({ s with dev := dev }, ())
  | .open => (uart1DdevOpen noMem s.dev).map fun r =>
      (⟨r.1, (r.2, freeSlots s.dev.tbl) :: s.held⟩, ())
  | .close handle => (uart1DdevClose s.dev handle).map fun dev =>
      (⟨dev, s.held.eraseP (·.1 = handle)⟩, ())
  | .exit => (uart1Exit s.dev).map fun dev => ({ s with dev := dev }, ())

/-- A handle is closed that is held. -/
def OpenBeforeClose (s : Sys) : Call → Prop
  | .close handle => handle ∈ s.held.map Prod.fst
  | _ => True

/-- The objects of the FIFOs that the port points to. -/
def UartS.objects (uart : UartS) : List Nat :=
  (uart.rx.toList ++ uart.tx.toList).flatMap fun fifo => [fifo.obj, fifo.buffer]

/-- At most one slot has the name of the device, and the objects that are allocated are those
of the FIFOs the port points to: none is lost, and none is freed already. -/
def Intact (s : Sys) : Prop :=
  (namedSlots s.dev.tbl).length ≤ 1 ∧ s.dev.heap.live.Perm s.dev.uart.objects

/-- The close of the last handle leaves as many slots free as there were before its open. -/
def SlotsKept (s : Sys) (c : Call) (s' : Sys) : Prop :=
  ∀ handle free, c = .close handle → s.held = [(handle, free)] → freeSlots s'.dev.tbl = free

/-- The device is intact throughout the calls, each of which returns. -/
def StaysIntact : Sys → List Call → Prop
  | s, [] => Intact s
  | s, c :: cs => Intact s ∧
      ∃ s', step noMem s c = some (s', ()) ∧ SlotsKept s c s' ∧ StaysIntact s' cs

/-- The device is registered. -/
def Registered (s : Sys) : Prop := namedSlots s.dev.tbl ≠ []

/-- `uart1_init` and `uart1_exit` take turns, with a slot and the memory for the FIFOs at
hand, and the device is not opened. -/
def TakesTurns (s : Sys) : Call → Prop
  | .init => ¬ Registered s ∧ 0 < freeSlots s.dev.tbl ∧
      ∀ k < 4, noMem (s.dev.heap.next + k) = false
  | .exit => Registered s
  | .open | .close _ => False

instance (noMem : Nat → Bool) (s : Sys) : ∀ c : Call, Decidable (TakesTurns noMem s c)
  | .init => inferInstanceAs (Decidable (¬ namedSlots s.dev.tbl ≠ [] ∧ _ ∧ _))
  | .exit => inferInstanceAs (Decidable (namedSlots s.dev.tbl ≠ []))
  | .open | .close _ => inferInstanceAs (Decidable False)

instance (s : Sys) : ∀ c : Call, Decidable (OpenBeforeClose s c)
  | .close handle => inferInstanceAs (Decidable (handle ∈ s.held.map Prod.fst))
  | .init | .exit | .open => inferInstanceAs (Decidable True)

/-- Before the first call, with the devices of a registry registered. -/
def start (reg : Registry) : Sys := ⟨⟨reg.table, ⟨none, none⟩, ⟨0, []⟩⟩, []⟩

/-! ## The FIFOs in memory -/

variable {noMem}

theorem kfifoAlloc_eq {heap : Heap} (h₀ : noMem heap.next = false)
    (h₁ : noMem (heap.next + 1) = false) :
    kfifoAlloc noMem heap =
      some (⟨heap.next + 2, (heap.next + 1) :: heap.next :: heap.live⟩,
        some ⟨heap.next + 1, heap.next⟩) := by
  simp only [kfifoAlloc, Heap.malloc, h₀, h₁, if_neg Bool.false_ne_true]

theorem kfifoAlloc_some {heap heap' : Heap} {fifo : KFifo}
    (h : kfifoAlloc noMem heap = some (heap', some fifo)) :
    noMem heap.next = false ∧ noMem (heap.next + 1) = false := by
  by_cases h₀ : noMem heap.next = true
  · simp [kfifoAlloc, Heap.malloc, h₀] at h
  · by_cases h₁ : noMem (heap.next + 1) = true
    · simp [kfifoAlloc, Heap.malloc, h₀, h₁] at h
    · exact ⟨Bool.eq_false_iff.mpr h₀, Bool.eq_false_iff.mpr h₁⟩

/-- The FIFOs that `uart_sw_init` allocates from object `n` on. -/
def fifosFrom (n : Nat) : UartS := ⟨some ⟨n + 1, n⟩, some ⟨n + 3, n + 2⟩⟩

theorem uartSwInit_eq {s : Uart} (h : ∀ k < 4, noMem (s.heap.next + k) = false) :
    uartSwInit noMem s = some ({ s with
      uart := fifosFrom s.heap.next
      heap := ⟨s.heap.next + 4, [s.heap.next + 3, s.heap.next + 2, s.heap.next + 1, s.heap.next] ++
        s.heap.live⟩ }, true) := by
  have hrx : kfifoAlloc noMem s.heap = _ := kfifoAlloc_eq (h 0 (by decide)) (h 1 (by decide))
  have htx : kfifoAlloc noMem
      ⟨s.heap.next + 2, (s.heap.next + 1) :: s.heap.next :: s.heap.live⟩ = _ :=
    kfifoAlloc_eq (h 2 (by decide)) (h 3 (by decide))
  rw [uartSwInit, hrx]
  exact congrArg (fun r => Option.bind r _) htx

theorem uartSwInit_true {s s' : Uart} (h : uartSwInit noMem s = some (s', true)) :
    ∀ k < 4, noMem (s.heap.next + k) = false := by
  obtain ⟨⟨heap, rx⟩, hrx, h⟩ := Option.bind_eq_some_iff.mp h
  obtain ⟨⟨heap', tx⟩, htx, h⟩ := Option.bind_eq_some_iff.mp h
  cases rx with
  | none => simp [Option.bind_eq_some_iff] at h
  | some rx =>
    cases tx with
    | none => simp [Option.bind_eq_some_iff] at h
    | some tx =>
      obtain ⟨h₀, h₁⟩ := kfifoAlloc_some hrx
      obtain ⟨h₂, h₃⟩ := kfifoAlloc_some htx
      rw [kfifoAlloc_eq h₀ h₁] at hrx
      cases hrx
      intro k hk
      match k, hk with
      | 0, _ => exact h₀
      | 1, _ => exact h₁
      | 2, _ => exact h₂
      | 3, _ => exact h₃

theorem uartSwUninit_eq {s : Uart} {n : Nat} (hu : s.uart = fifosFrom n)
    (hlive : s.heap.live = [n + 3, n + 2, n + 1, n]) :
    uartSwUninit s = some { s with uart := ⟨none, none⟩, heap := { s.heap with live := [] } } := by
  simp [uartSwUninit, hu, fifosFrom, freeUnlessNull, kfifoFree, Heap.free, hlive]

/-! ## The table -/

/-- No device of the registry has a name that starts as that of UART1. -/
def Others (reg : Registry) : Prop := ∀ d ∈ reg.devs, uart1DevName.isPrefixOf d.1 = false

/-- The registry with UART1 registered last. -/
def withUart1 (reg : Registry) : Registry :=
  { reg with devs := reg.devs ++ [(uart1DevName, uart1Op)] }

variable {reg : Registry}

theorem uart1DevName_isPrefixOf : uart1DevName.isPrefixOf uart1DevName = true := by decide

theorem mem_namedSlots {i : Nat} :
    i ∈ namedSlots reg.table ↔ i < ddMaxDev ∧ ∃ op, reg.devs[i]? = some (uart1DevName, op) := by
  rw [namedSlots, List.mem_filter, List.mem_range, decide_eq_true_iff]
  apply and_congr_right
  intro _
  constructor
  · intro h
    have hname : (reg.table i).name ≠ none := by
      rw [h]
      nofun
    obtain ⟨d, hd⟩ := Registry.get_of_name hname
    rw [Registry.table_of_get hd] at h
    exact ⟨d.2, by rw [hd, ← Option.some.inj h]⟩
  · rintro ⟨op, hd⟩
    rw [Registry.table_of_get hd]
    rfl

theorem namedSlots_others (h : Others reg) : namedSlots reg.table = [] := by
  apply List.eq_nil_iff_forall_not_mem.mpr
  intro i hi
  obtain ⟨-, op, hd⟩ := mem_namedSlots.mp hi
  exact Bool.noConfusion (uart1DevName_isPrefixOf.symm.trans (h _ (List.mem_of_getElem? hd)))

theorem mem_namedSlots_withUart1 (h : Others reg) {i : Nat}
    (hi : i ∈ namedSlots (withUart1 reg).table) : i = reg.devs.length := by
  obtain ⟨-, op, hd⟩ := mem_namedSlots.mp hi
  rcases Nat.lt_trichotomy i reg.devs.length with hlt | heq | hgt
  · rw [withUart1, List.getElem?_append_left hlt] at hd
    exact Bool.noConfusion (uart1DevName_isPrefixOf.symm.trans (h _ (List.mem_of_getElem? hd)))
  · exact heq
  · rw [withUart1, List.getElem?_eq_none (by rw [List.length_append]; exact hgt)] at hd
    cases hd

theorem freeSlots_pos : 0 < freeSlots reg.table ↔ reg.devs.length < ddMaxDev := by
  rw [freeSlots, List.length_pos_iff_exists_mem]
  constructor
  · rintro ⟨i, hi⟩
    rw [List.mem_filter, List.mem_range, decide_eq_true_iff] at hi
    rcases Nat.lt_or_ge i reg.devs.length with hlt | hge
    · rw [Registry.table_of_get (List.getElem?_eq_getElem hlt)] at hi
      cases hi.2.1
    · exact Nat.lt_of_le_of_lt hge hi.1
  · intro hlt
    refine ⟨reg.devs.length, ?_⟩
    rw [List.mem_filter, List.mem_range, decide_eq_true_iff, Registry.table_of_le (Nat.le_refl _)]
    exact ⟨hlt, rfl, rfl⟩

/-- Without UART1, the search of `ddev_open` finds no slot. -/
theorem findName_others (h : Others reg) (n i : Nat) :
    ∀ k, findName reg.table uart1DevName n i ≠ some (some k) := by
  induction n generalizing i with
  | zero =>
    intro k hk
    cases hk
  | succ n ih =>
    intro k hk
    rw [findName] at hk
    split at hk
    · cases hk
    · rename_i name hname
      have hsome : (reg.table i).name ≠ none := by
        rw [hname]
        exact Option.some_ne_none name
      obtain ⟨d, hd⟩ := Registry.get_of_name hsome
      have hno : strncmpEq name uart1DevName uart1DevName.length = false := by
        rw [strncmpEq_eq]
        rw [Registry.table_of_get hd] at hname
        cases hname
        exact h d (List.mem_of_getElem? hd)
      rw [hno, if_neg Bool.false_ne_true] at hk
      exact ih (i + 1) k hk

theorem findName_withUart1 (h : Others reg) (hlt : reg.devs.length < ddMaxDev) :
    findName (withUart1 reg).table uart1DevName ddMaxDev 0 = some (some reg.devs.length) := by
  have hidx : ((withUart1 reg).devs.drop 0).findIdx? (fun d => uart1DevName.isPrefixOf d.1) =
      some reg.devs.length := by
    rw [withUart1, List.drop_zero, List.findIdx?_append]
    have hnone : reg.devs.findIdx? (fun d => uart1DevName.isPrefixOf d.1) = none := by
      rw [List.findIdx?_eq_none_iff]
      exact h
    have hone : List.findIdx? (fun d : Name × DdOperations => uart1DevName.isPrefixOf d.1)
        [(uart1DevName, uart1Op)] = some 0 := by decide
    rw [hnone, hone, Option.none_or, Option.map_some, Nat.zero_add]
  have hlen : (withUart1 reg).devs.length ≤ ddMaxDev := by
    rw [withUart1, List.length_append]
    exact hlt
  rw [Registry.findName_eq hlen rfl hidx, Nat.zero_add]

theorem withUart1_get : (withUart1 reg).devs[reg.devs.length]? = some (uart1DevName, uart1Op) :=
  List.getElem?_concat_length

/-- Registering takes the first free slot, or there is none. -/
theorem register_uart1 (hf : reg.Fits) {r : DrvDevTbl × Reply}
    (h : ddevRegisterDev reg.table (some uart1DevName) (some uart1Op) = some r) :
    reg.devs.length < ddMaxDev ∧ r.1 = (withUart1 reg).table ∧ (withUart1 reg).Fits := by
  have hlt : reg.devs.length < ddMaxDev := by
    by_contra hge
    have hfull : ∀ n i, n + i = ddMaxDev → findFree reg.table n i = none := by
      intro n
      induction n with
      | zero => intros; rfl
      | succ n ih =>
        intro i hi
        have hget : i < reg.devs.length := by omega
        rw [findFree, if_neg, ih (i + 1) (by omega)]
        rw [Registry.table_of_get (List.getElem?_eq_getElem hget)]
        exact fun hn => nomatch hn.1
    simp only [ddevRegisterDev, hfull ddMaxDev 0 rfl] at h
    cases h
  have hc : Callable reg.table (.register (some uart1DevName) (some uart1Op)) :=
    ⟨⟨reg.devs.length, hlt⟩, by rw [Registry.table_of_le (Nat.le_refl _)]; exact ⟨rfl, rfl⟩⟩
  obtain ⟨heq, hfits⟩ := Registry.register_eq hf hc
  rw [heq] at h
  exact ⟨hlt, congrArg Prod.fst (Option.some.inj h).symm, hfits⟩

theorem unregister_uart1 (hf : reg.Fits) (h : Others reg) (hlt : reg.devs.length < ddMaxDev) :
    ddevUnregisterDev (withUart1 reg).table uart1DevName =
      some (reg.table, ⟨drvSuccess, none, []⟩) := by
  have hz := hf.holders_zero _ (Nat.le_refl _)
  have hback : Function.update (withUart1 reg).table reg.devs.length
      { (withUart1 reg).table reg.devs.length with
        name := none, op := none, state := .noDevice } = reg.table := by
    rw [Registry.table_of_get withUart1_get]
    rw [withUart1, Registry.table_register _ hz, Function.update_idem]
    funext j
    by_cases hj : j = reg.devs.length
    · subst hj
      rw [Function.update_self, Registry.table_of_le (Nat.le_refl _)]
      change (⟨none, reg.holders reg.devs.length, .noDevice, none⟩ : DrvDev) = _
      rw [hz]
    · rw [Function.update_of_ne hj]
  rw [ddevUnregisterDev, if_neg (by decide), findName_withUart1 h hlt]
  exact congrArg (fun tbl => some (tbl, (⟨drvSuccess, none, []⟩ : Reply))) hback

/-! ## Turns -/

/-- The device is not registered, and the port has no FIFOs. -/
structure Off (reg : Registry) (s : Sys) : Prop where
  tbl : s.dev.tbl = reg.table
  uart : s.dev.uart = ⟨none, none⟩
  live : s.dev.heap.live = []
  held : s.held = []

/-- The device is registered, and the port has the FIFOs allocated last. -/
structure On (reg : Registry) (s : Sys) (n : Nat) : Prop where
  tbl : s.dev.tbl = (withUart1 reg).table
  uart : s.dev.uart = fifosFrom n
  live : s.dev.heap.live = [n + 3, n + 2, n + 1, n]
  held : s.held = []
  lt : reg.devs.length < ddMaxDev
  fits : (withUart1 reg).Fits

variable {s : Sys} {n : Nat}

theorem Off.intact (h : Off reg s) (ho : Others reg) : Intact s := by
  constructor
  · rw [h.tbl, namedSlots_others ho]
    exact Nat.zero_le _
  · rw [h.live, h.uart]
    exact List.Perm.refl _

theorem On.intact (h : On reg s n) (ho : Others reg) : Intact s := by
  constructor
  · rw [h.tbl]
    have hnd : (namedSlots (withUart1 reg).table).Nodup := List.nodup_range.filter _
    have hsub : namedSlots (withUart1 reg).table ⊆ [reg.devs.length] := fun i hi =>
      List.mem_singleton.mpr (mem_namedSlots_withUart1 ho hi)
    exact (List.subperm_of_subset hnd hsub).length_le
  · rw [h.live, h.uart]
    have hperm : ([n + 3, n + 2] ++ [n + 1, n]).Perm ([n + 1, n] ++ [n + 3, n + 2]) :=
      List.perm_append_comm
    exact hperm

theorem Off.not_registered (h : Off reg s) (ho : Others reg) : ¬ Registered s := by
  rw [Registered, h.tbl, namedSlots_others ho]
  exact fun hn => hn rfl

theorem On.registered (h : On reg s n) : Registered s := by
  rw [Registered, h.tbl]
  exact List.ne_nil_of_mem (mem_namedSlots.mpr ⟨h.lt, uart1Op, withUart1_get⟩)

/-- `uart1_init` returns only with a slot and memory, and then it has added a FIFO pair and a
slot. -/
theorem uart1Init_some {dev dev' : Uart} (hf : reg.Fits) (htbl : dev.tbl = reg.table)
    (h : uart1Init noMem dev = some dev') :
    (∀ k < 4, noMem (dev.heap.next + k) = false) ∧ reg.devs.length < ddMaxDev ∧
      dev'.tbl = (withUart1 reg).table ∧ dev'.uart = fifosFrom dev.heap.next ∧
      dev'.heap.live = [dev.heap.next + 3, dev.heap.next + 2, dev.heap.next + 1, dev.heap.next] ++
        dev.heap.live ∧ (withUart1 reg).Fits := by
  obtain ⟨⟨dev₁, ok⟩, hsw, h⟩ := Option.bind_eq_some_iff.mp h
  cases ok with
  | false => cases h
  | true =>
    have hmem := uartSwInit_true hsw
    rw [uartSwInit_eq hmem] at hsw
    cases hsw
    obtain ⟨r, hreg, h⟩ := Option.bind_eq_some_iff.mp h
    rw [htbl] at hreg
    obtain ⟨hlt, htbl', hfits⟩ := register_uart1 hf hreg
    cases h
    exact ⟨hmem, hlt, htbl', rfl, rfl, hfits⟩

theorem uart1Init_isSome {dev : Uart} (hf : reg.Fits) (htbl : dev.tbl = reg.table)
    (hmem : ∀ k < 4, noMem (dev.heap.next + k) = false) (hlt : reg.devs.length < ddMaxDev) :
    ∃ dev', uart1Init noMem dev = some dev' := by
  have hc : Callable reg.table (.register (some uart1DevName) (some uart1Op)) :=
    ⟨⟨reg.devs.length, hlt⟩, by rw [Registry.table_of_le (Nat.le_refl _)]; exact ⟨rfl, rfl⟩⟩
  have hreg := (Registry.register_eq hf hc).1
  rw [← htbl] at hreg
  refine ⟨⟨(withUart1 reg).table, fifosFrom dev.heap.next, ⟨dev.heap.next + 4,
    [dev.heap.next + 3, dev.heap.next + 2, dev.heap.next + 1, dev.heap.next] ++ dev.heap.live⟩⟩, ?_⟩
  rw [uart1Init, uartSwInit_eq hmem]
  exact congrArg (fun r => Option.bind r _) hreg

/-- A second registration leaves two slots with the name. -/
theorem not_intact_of_twice {s' : Sys} (hlt : (withUart1 reg).devs.length < ddMaxDev)
    (hname : ∀ i, (s'.dev.tbl i).name = ((withUart1 (withUart1 reg)).table i).name) :
    ¬ Intact s' := by
  intro hi
  have hslots : namedSlots s'.dev.tbl = namedSlots (withUart1 (withUart1 reg)).table := by
    unfold namedSlots
    simp only [hname]
  have hlen : reg.devs.length + 1 < ddMaxDev := by
    rw [withUart1, List.length_append] at hlt
    exact hlt
  have hfirst : reg.devs.length ∈ namedSlots s'.dev.tbl := by
    rw [hslots]
    refine mem_namedSlots.mpr ⟨Nat.lt_of_succ_lt hlen, uart1Op, ?_⟩
    rw [withUart1, List.getElem?_append_left
      (by rw [withUart1, List.length_append]; exact Nat.lt_succ_self _)]
    exact withUart1_get
  have hsecond : reg.devs.length + 1 ∈ namedSlots s'.dev.tbl := by
    rw [hslots]
    refine mem_namedSlots.mpr ⟨hlen, uart1Op, ?_⟩
    have h : (withUart1 (withUart1 reg)).devs[(withUart1 reg).devs.length]? = _ := withUart1_get
    rwa [show (withUart1 reg).devs.length = reg.devs.length + 1 from List.length_append] at h
  have hsub : [reg.devs.length, reg.devs.length + 1] ⊆ namedSlots s'.dev.tbl := by
    intro i hmem
    rcases List.mem_cons.mp hmem with rfl | hmem
    · exact hfirst
    · rw [List.mem_singleton.mp hmem]
      exact hsecond
  have hnd : [reg.devs.length, reg.devs.length + 1].Nodup := by simp
  have hle := (List.subperm_of_subset hnd hsub).length_le
  exact absurd (Nat.le_trans hle hi.1) (by simp)

/-! ## Steps -/

theorem uart1DdevOpen_off {dev : Uart} (ho : Others reg) (htbl : dev.tbl = reg.table) :
    uart1DdevOpen noMem dev = none := by
  rw [uart1DdevOpen, htbl]
  split
  · rename_i i hi
    exact absurd hi (findName_others ho _ _ i)
  · rfl

theorem uart1Exit_off {dev : Uart} (ho : Others reg) (htbl : dev.tbl = reg.table) :
    uart1Exit dev = none := by
  have hun : ddevUnregisterDev dev.tbl uart1DevName = none := by
    rw [ddevUnregisterDev, if_neg (by decide), htbl]
    split
    · rename_i i hi
      exact absurd hi (findName_others ho _ _ i)
    · rfl
  rw [uart1Exit, hun]
  rfl

/-- The first open registers the device a second time. -/
theorem uart1DdevOpen_on {r : Uart × BitVec 32} (hf : reg.Fits) (h : On reg s n) (ho : Others reg)
    (hr : uart1DdevOpen noMem s.dev = some r) : (withUart1 reg).devs.length < ddMaxDev ∧
      ∀ i, (r.1.tbl i).name = ((withUart1 (withUart1 reg)).table i).name := by
  have hslot : s.dev.tbl reg.devs.length = slotOf (uart1DevName, uart1Op) 0 := by
    rw [h.tbl, Registry.table_of_get withUart1_get]
    exact congrArg _ (hf.holders_zero _ (Nat.le_refl _))
  have hfind : findName s.dev.tbl uart1DevName ddMaxDev 0 = some (some reg.devs.length) := by
    rw [h.tbl]
    exact findName_withUart1 ho h.lt
  have hstate : (slotOf (uart1DevName, uart1Op) 0).state = .closed := rfl
  have hop : (slotOf (uart1DevName, uart1Op) 0).op.any DdOperations.hasOpen = true := rfl
  simp only [uart1DdevOpen, hfind, hslot, hstate, hop, if_true] at hr
  obtain ⟨dev, hinit, hr⟩ := Option.bind_eq_some_iff.mp hr
  obtain ⟨-, hlt, htbl, -⟩ := uart1Init_some h.fits h.tbl hinit
  cases hr
  refine ⟨hlt, fun i => ?_⟩
  rw [← htbl]
  change (Function.update dev.tbl reg.devs.length _ i).name = _
  by_cases hi : i = reg.devs.length
  · subst hi
    rw [Function.update_self]
  · rw [Function.update_of_ne hi]

theorem On.exit (hf : reg.Fits) (h : On reg s n) (ho : Others reg) :
    ∃ s', step noMem s .exit = some (s', ()) ∧ Off reg s' := by
  have hun : ddevUnregisterDev s.dev.tbl uart1DevName =
      some (reg.table, ⟨drvSuccess, none, []⟩) := by
    rw [h.tbl]
    exact unregister_uart1 hf ho h.lt
  have hexit : uart1Exit s.dev =
      some ⟨reg.table, ⟨none, none⟩, { s.dev.heap with live := [] }⟩ := by
    rw [uart1Exit, hun]
    exact uartSwUninit_eq (s := { s.dev with tbl := reg.table }) h.uart h.live
  refine ⟨⟨⟨reg.table, ⟨none, none⟩, { s.dev.heap with live := [] }⟩, s.held⟩, ?_, ?_⟩
  · rw [step, hexit]
    rfl
  · exact ⟨rfl, rfl, rfl, h.held⟩

theorem Off.init_some (hf : reg.Fits) (h : Off reg s) {s' : Sys}
    (hs : step noMem s .init = some (s', ())) :
    (∀ k < 4, noMem (s.dev.heap.next + k) = false) ∧ reg.devs.length < ddMaxDev ∧
      ∃ n, On reg s' n := by
  obtain ⟨dev, hdev, heq⟩ := Option.map_eq_some_iff.mp hs
  obtain ⟨hmem, hlt, htbl, huart, hlive, hfits⟩ := uart1Init_some hf h.tbl hdev
  cases heq
  rw [h.live, List.append_nil] at hlive
  exact ⟨hmem, hlt, _, htbl, huart, hlive, h.held, hlt, hfits⟩

/-- The device is off or on. -/
def Turn (reg : Registry) (s : Sys) : Prop := Off reg s ∨ ∃ n, On reg s n

theorem Turn.intact (h : Turn reg s) (ho : Others reg) : Intact s := by
  rcases h with h | ⟨n, h⟩
  · exact h.intact ho
  · exact h.intact ho

/-- A call that takes its turn returns, with the device on or off again. -/
theorem Turn.step (hf : reg.Fits) (ho : Others reg) (h : Turn reg s) {c : Call}
    (hc : TakesTurns noMem s c) : ∃ s', step noMem s c = some (s', ()) ∧ Turn reg s' := by
  cases c with
  | «init» =>
    rcases h with h | ⟨n, h⟩
    · obtain ⟨-, hfree, hmem⟩ := hc
      rw [h.tbl, freeSlots_pos] at hfree
      obtain ⟨dev, hdev⟩ := uart1Init_isSome hf h.tbl hmem hfree
      have hs : UartBk.step noMem s .init = some ({ s with dev := dev }, ()) := by
        rw [UartBk.step, hdev]
        rfl
      exact ⟨_, hs, Or.inr (h.init_some hf hs).2.2⟩
    · exact absurd h.registered hc.1
  | exit =>
    rcases h with h | ⟨n, h⟩
    · exact absurd hc (h.not_registered ho)
    · obtain ⟨s', hs, hoff⟩ := h.exit hf ho
      exact ⟨s', hs, Or.inl hoff⟩
  | «open» => exact False.elim hc
  | close handle => exact False.elim hc

/-- A call that leaves the device intact has taken its turn. -/
theorem Turn.takesTurns (hf : reg.Fits) (ho : Others reg) (h : Turn reg s) {c : Call} {s' : Sys}
    (hb : OpenBeforeClose s c) (hs : UartBk.step noMem s c = some (s', ())) (hi : Intact s') :
    TakesTurns noMem s c := by
  cases c with
  | «init» =>
    rcases h with h | ⟨n, h⟩
    · obtain ⟨hmem, hlt, -⟩ := h.init_some hf hs
      refine ⟨h.not_registered ho, ?_, hmem⟩
      rw [h.tbl]
      exact freeSlots_pos.mpr hlt
    · obtain ⟨dev, hdev, heq⟩ := Option.map_eq_some_iff.mp hs
      obtain ⟨-, hlt, htbl, -⟩ := uart1Init_some h.fits h.tbl hdev
      cases heq
      refine absurd hi (not_intact_of_twice hlt fun i => ?_)
      change (dev.tbl i).name = _
      rw [htbl]
  | exit =>
    rcases h with h | ⟨n, h⟩
    · rw [UartBk.step, uart1Exit_off ho h.tbl] at hs
      cases hs
    · exact h.registered
  | «open» =>
    rcases h with h | ⟨n, h⟩
    · rw [UartBk.step, uart1DdevOpen_off ho h.tbl] at hs
      cases hs
    · obtain ⟨r, hr, heq⟩ := Option.map_eq_some_iff.mp hs
      obtain ⟨hlt, hname⟩ := uart1DdevOpen_on hf h ho hr
      cases heq
      exact absurd hi (not_intact_of_twice hlt hname)
  | close handle =>
    have hheld : s.held = [] := by
      rcases h with h | ⟨n, h⟩
      · exact h.held
      · exact h.held
    rw [OpenBeforeClose, hheld] at hb
    exact absurd hb List.not_mem_nil

theorem StaysIntact.intact {cs : List Call} (h : StaysIntact noMem s cs) : Intact s := by
  cases cs with
  | nil => exact h
  | cons c cs => exact h.1

theorem Turn.staysIntact_iff (hf : reg.Fits) (ho : Others reg) {cs : List Call} (h : Turn reg s)
    (hl : Machine.Legal (UartBk.step noMem) OpenBeforeClose s cs) :
    StaysIntact noMem s cs ↔ Machine.Legal (UartBk.step noMem) (TakesTurns noMem) s cs := by
  induction cs generalizing s with
  | nil => exact ⟨fun _ => trivial, fun _ => h.intact ho⟩
  | cons c cs ih =>
    constructor
    · rintro ⟨-, s', hs, -, hrest⟩
      have hc := h.takesTurns hf ho hl.1 hs hrest.intact
      refine ⟨hc, fun s'' o hs'' => ?_⟩
      obtain ⟨s₁, hs₁, h₁⟩ := h.step hf ho hc
      rw [hs] at hs'' hs₁
      cases hs''
      cases hs₁
      exact (ih h₁ (hl.2 _ _ hs)).mp hrest
    · intro ⟨hc, hrest⟩
      obtain ⟨s', hs, h'⟩ := h.step hf ho hc
      refine ⟨h.intact ho, s', hs, ?_, (ih h' (hl.2 _ _ hs)).mpr (hrest _ _ hs)⟩
      rintro handle free rfl -
      exact False.elim hc

/-- The device stays intact throughout a run exactly if `uart1_init` and `uart1_exit` take
turns and it is never opened. -/
theorem stays_intact_iff_takes_turns (noMem : Nat → Bool) (hf : reg.Fits) (ho : Others reg)
    (cs : List Call) (hl : Machine.Legal (step noMem) OpenBeforeClose (start reg) cs) :
    StaysIntact noMem (start reg) cs ↔
      Machine.Legal (step noMem) (TakesTurns noMem) (start reg) cs :=
  Turn.staysIntact_iff hf ho (Or.inl ⟨rfl, rfl, rfl, rfl⟩) hl

/-- The device is registered, removed and registered again. -/
theorem three_turns_intact :
    StaysIntact (fun _ => false) (start Registry.empty) [.init, .exit, .init] :=
  (stays_intact_iff_takes_turns _ Registry.fits_empty (fun _ hd => absurd hd List.not_mem_nil) _
    (Machine.legal_of_check (by decide +kernel))).mpr (Machine.legal_of_check (by decide +kernel))

/-- The first open registers the device a second time, and loses its FIFOs. -/
theorem opened_not_intact :
    ¬ ∀ cs : List Call,
      Machine.Legal (step fun _ => false) OpenBeforeClose (start Registry.empty) cs →
      StaysIntact (fun _ => false) (start Registry.empty) cs := by
  intro h
  have hl : Machine.Legal (step fun _ => false) OpenBeforeClose (start Registry.empty)
      [.init, .open] := Machine.legal_of_check (by decide +kernel)
  have hturn : Turn Registry.empty (start Registry.empty) := Or.inl ⟨rfl, rfl, rfl, rfl⟩
  have ho : Others Registry.empty := fun _ hd => absurd hd List.not_mem_nil
  obtain ⟨hinit, hopen⟩ := (hturn.staysIntact_iff Registry.fits_empty ho hl).mp (h _ hl)
  obtain ⟨s', hs, -⟩ := hturn.step Registry.fits_empty ho hinit
  exact (hopen s' () hs).1

end TuyaSdk.UartBk
