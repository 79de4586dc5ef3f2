import TuyaSdk.Lib.Bytes
import TuyaSdk.Lib.Machine

/-!
# The driver model (`drv_model.c`)

Drivers are registered in a table of `DD_MAX_DEV` slots, opened by name and closed by a
handle that carries the slot. A slot counts its holders and has a state of its own; the
driver's callbacks run when the state changes. `none` is a call that does not return: an
`ASSERT` that fails (they are compiled in: `CFG_RELEASE_FIRMWARE` is 0), or an access
through `NULL` or outside the table.

`Registry` says what the driver model is for: who is registered, and how many holders each
device has.
-/

namespace TuyaSdk.DrvModel

open Lib

abbrev drvFailure : Nat := 2 ^ 32 - 5
abbrev drvSuccess : Nat := 0
abbrev ddMaxDev : Nat := 8
abbrev ddMaxNameLen : Nat := 16

abbrev ddHandleMagicWord : BitVec 32 := 0xA5A50000
abbrev ddHandleMagicMask : BitVec 32 := 0xFFFF0000
abbrev ddHandleIdMask : BitVec 32 := 0x0000FFFF
abbrev ddHandleUnvalid : BitVec 32 := 0xFFFFFFFF

/-- `DD_STATE` -/
inductive DdState where
  | noDevice
  | closed
  | opened
  | break
  | success
  deriving DecidableEq, Repr

/-- `DD_OPERATIONS`, as far as the driver model looks at it: which of the two callbacks are
not `NULL`. -/
structure DdOperations where
  hasOpen : Bool
  hasClose : Bool
  deriving DecidableEq, Repr

/-- The bytes of a C string before its NUL. -/
abbrev Name := List Byte

/-- `DRV_DEV_S` -/
structure DrvDev where
  name : Option Name
  useCnt : Nat
  state : DdState
  op : Option DdOperations
  deriving DecidableEq, Repr

/-- `drv_dev_tbl` -/
abbrev DrvDevTbl := Nat → DrvDev

/-- A call of a driver's callback. -/
inductive Callback where
  | open (id : Nat) (opFlag : Nat)
  | close (id : Nat)
  deriving DecidableEq, Repr

/-- What a call returns, what it stores to `*status`, and the callbacks it makes. -/
structure Reply where
  ret : Nat
  status : Option Nat
  callbacks : List Callback
  deriving DecidableEq, Repr

/-- `drv_model_init` clears the table. -/
def drvModelInit : DrvDevTbl := fun _ => ⟨none, 0, .noDevice, none⟩

/-! ## Handles -/

/-- `ddev_make_handle` -/
def ddevMakeHandle (id : Nat) : BitVec 32 :=
  if ddMaxDev ≤ id then ddHandleUnvalid else BitVec.ofNat 32 id + ddHandleMagicWord

/-- `ddev_get_id_from_handle`; `none` is `DD_ID_UNVALID`. -/
def ddevGetIdFromHandle (handle : BitVec 32) : Option Nat :=
  if handle &&& ddHandleMagicMask ≠ ddHandleMagicWord then none
  else some (handle &&& ddHandleIdMask).toNat

theorem ddevGetId_makeHandle {id : Nat} (h : id < ddMaxDev) :
    ddevGetIdFromHandle (ddevMakeHandle id) = some id := by
  have hall : ∀ i : Fin ddMaxDev, ddevGetIdFromHandle (ddevMakeHandle i) = some i.val := by decide
  exact hall ⟨id, h⟩

/-! ## The functions -/

/-- `os_strncmp(s, t, n) == 0` -/
def strncmpEq : Name → Name → Nat → Bool
  | _, _, 0 => true
  | [], [], _ + 1 => true
  | [], _ :: _, _ + 1 => false
  | _ :: _, [], _ + 1 => false
  | a :: s, b :: t, n + 1 => a == b && strncmpEq s t n

/-- The search loop of `ddev_open`, with `n` slots from `i` left. -/
def findName (tbl : DrvDevTbl) (devName : Name) : Nat → Nat → Option (Option Nat)
  | 0, _ => some none
  | n + 1, i =>
    match (tbl i).name with
    | none => none
    | some name =>
      if strncmpEq name devName devName.length then some (some i)
      else findName tbl devName n (i + 1)

/-- `ddev_open`; `ret` is what the driver's callback returns, if it is called. -/
def ddevOpen (tbl : DrvDevTbl) (devName : Name) (statusNull : Bool) (opFlag ret : Nat) :
    Option (DrvDevTbl × Reply) :=
  if statusNull || ddMaxNameLen < devName.length then some (tbl, ⟨ddHandleUnvalid.toNat, none, []⟩)
  else
    match findName tbl devName ddMaxDev 0 with
    | none => none
    -- ASSERT(DD_HANDLE_UNVALID != handle)
    | some none => none
    | some (some i) =>
      match (tbl i).state with
      | .opened =>
        some (Function.update tbl i { tbl i with useCnt := u32 ((tbl i).useCnt + 1) },
          ⟨(ddevMakeHandle i).toNat, some drvFailure, []⟩)
      | .closed =>
        let hasOpen := (tbl i).op.any DdOperations.hasOpen
        some (Function.update tbl i { tbl i with state := .opened, useCnt := u32 (0 + 1) },
          ⟨(ddevMakeHandle i).toNat, some (if hasOpen then ret else drvFailure),
            if hasOpen then [.open i opFlag] else []⟩)
      -- ASSERT(DD_HANDLE_UNVALID != handle)
      | _ => none

/-- `ddev_close` -/
def ddevClose (tbl : DrvDevTbl) (handle : BitVec 32) : Option (DrvDevTbl × Reply) :=
  match ddevGetIdFromHandle handle with
  | none => some (tbl, ⟨drvFailure, none, []⟩)
  | some id =>
    if ddMaxDev ≤ id then none
    else
      let useCnt := sub32 (tbl id).useCnt 1
      let dev := { tbl id with useCnt := useCnt }
      if useCnt = 0 then
        let hasClose := dev.op.any DdOperations.hasClose
        some (Function.update tbl id { dev with state := .closed },
          ⟨drvSuccess, none, if hasClose then [.close id] else []⟩)
      else some (Function.update tbl id dev, ⟨drvSuccess, none, []⟩)

/-- The search loop of `ddev_register_dev`, with `n` slots from `i` left. -/
def findFree (tbl : DrvDevTbl) : Nat → Nat → Option Nat
  | 0, _ => none
  | n + 1, i =>
    if (tbl i).name = none ∧ (tbl i).state = .noDevice then some i else findFree tbl n (i + 1)

/-- `ddev_register_dev`; `devName` and `optr` are `none` for `NULL`. -/
def ddevRegisterDev (tbl : DrvDevTbl) (devName : Option Name) (optr : Option DdOperations) :
    Option (DrvDevTbl × Reply) :=
  match devName, optr with
  | some name, some op =>
    match findFree tbl ddMaxDev 0 with
    -- ASSERT(DD_MAX_DEV != i)
    | none => none
    | some i =>
      some (Function.update tbl i { tbl i with name := some name, op := some op, state := .closed },
        ⟨drvSuccess, none, []⟩)
  | _, _ => some (tbl, ⟨drvFailure, none, []⟩)

/-- `ddev_unregister_dev`. Its loop runs to `DD_MAX_SDEV`, so that a search that finds nothing
leaves the table. -/
def ddevUnregisterDev (tbl : DrvDevTbl) (devName : Name) : Option (DrvDevTbl × Reply) :=
  if ddMaxNameLen < devName.length then some (tbl, ⟨drvFailure, none, []⟩)
  else
    match findName tbl devName ddMaxDev 0 with
    | some (some i) =>
      some (Function.update tbl i { tbl i with name := none, op := none, state := .noDevice },
        ⟨drvSuccess, none, []⟩)
    | _ => none

/-- A call on the driver model. -/
inductive Call where
  | register (devName : Option Name) (optr : Option DdOperations)
  | open (devName : Name) (statusNull : Bool) (opFlag ret : Nat)
  | close (handle : BitVec 32)
  deriving DecidableEq, Repr

/-- One call. -/
def step (tbl : DrvDevTbl) : Call → Option (DrvDevTbl × Reply)
  | .register devName optr => ddevRegisterDev tbl devName optr
  | .open devName statusNull opFlag ret => ddevOpen tbl devName statusNull opFlag ret
  | .close handle => ddevClose tbl handle

/-! ## The registry -/

/-- The registered devices in order, and how many holders each has. -/
structure Registry where
  devs : List (Name × DdOperations)
  holders : Nat → Nat

/-- No device. -/
def Registry.empty : Registry := ⟨[], fun _ => 0⟩

/-- Device `i` has `n` holders. -/
def Registry.setHolders (reg : Registry) (i n : Nat) : Registry :=
  { reg with holders := Function.update reg.holders i n }

/-- The first device whose name starts with `devName`. -/
def Registry.find (reg : Registry) (devName : Name) : Option Nat :=
  reg.devs.findIdx? fun d => devName.isPrefixOf d.1

/-- One call: a device's open callback is called when its first holder comes, its close
callback when its last holder goes; a close by no holder changes nothing. -/
def Registry.step (reg : Registry) : Call → Registry × Reply
  | .register (some name) (some op) =>
    ({ reg with devs := reg.devs ++ [(name, op)] }, ⟨drvSuccess, none, []⟩)
  | .register _ _ => (reg, ⟨drvFailure, none, []⟩)
  | .open devName statusNull opFlag ret =>
    if statusNull || ddMaxNameLen < devName.length then
      (reg, ⟨ddHandleUnvalid.toNat, none, []⟩)
    else
      match reg.find devName with
      | none => (reg, ⟨ddHandleUnvalid.toNat, none, []⟩)
      | some i =>
        let first := reg.holders i = 0 ∧ reg.devs[i]?.any (·.2.hasOpen)
        (reg.setHolders i (reg.holders i + 1),
          ⟨(ddevMakeHandle i).toNat, some (if first then ret else drvFailure),
            if first then [.open i opFlag] else []⟩)
  | .close handle =>
    match ddevGetIdFromHandle handle with
    | none => (reg, ⟨drvFailure, none, []⟩)
    | some i =>
      let last := reg.holders i = 1 ∧ reg.devs[i]?.any (·.2.hasClose)
      (reg.setHolders i (reg.holders i - 1),
        ⟨drvSuccess, none, if last then [.close i] else []⟩)

/-- The slot of a device with `holders` holders. -/
def slotOf (d : Name × DdOperations) (holders : Nat) : DrvDev :=
  ⟨some d.1, holders, if holders = 0 then .closed else .opened, some d.2⟩

/-- The table that a registry stands for. -/
def Registry.table (reg : Registry) : DrvDevTbl := fun i =>
  match reg.devs[i]? with
  | some d => slotOf d (reg.holders i)
  | none => ⟨none, 0, .noDevice, none⟩

/-- The registry is what the table can hold. -/
structure Registry.Fits (reg : Registry) : Prop where
  length_le : reg.devs.length ≤ ddMaxDev
  holders_lt : ∀ i, reg.holders i < 2 ^ 32
  holders_zero : ∀ i, reg.devs.length ≤ i → reg.holders i = 0

/-- The calls that the driver model is made for: a device is registered while a slot is
free, and opened and closed when it is registered. -/
def Callable (tbl : DrvDevTbl) : Call → Prop
  | .register (some _) (some _) =>
    ∃ i : Fin ddMaxDev, (tbl i).name = none ∧ (tbl i).state = .noDevice
  | .register _ _ => True
  | .open devName statusNull _ _ =>
    statusNull ∨ ddMaxNameLen < devName.length ∨
      ∃ i : Fin ddMaxDev, (tbl i).name.any devName.isPrefixOf
  | .close handle =>
    match ddevGetIdFromHandle handle with
    | none => True
    | some id => id < ddMaxDev ∧ (tbl id).name ≠ none

/-- A close is made on a device with a holder, and an open on a device with fewer than
`2 ^ 32 - 1` of them. -/
def Counted (tbl : DrvDevTbl) : Call → Prop
  | .register _ _ => True
  | .open devName _ _ _ =>
    match findName tbl devName ddMaxDev 0 with
    | some (some id) => (tbl id).useCnt + 1 < 2 ^ 32
    | _ => True
  | .close handle =>
    match ddevGetIdFromHandle handle with
    | none => True
    | some id => 0 < (tbl id).useCnt

instance (tbl : DrvDevTbl) (call : Call) : Decidable (Callable tbl call) := by
  unfold Callable
  split <;> first | infer_instance | (split <;> infer_instance)

instance (tbl : DrvDevTbl) (call : Call) : Decidable (Counted tbl call) := by
  unfold Counted
  split <;> first | infer_instance | (split <;> infer_instance)

/-! ## The functions on the table of a registry -/

theorem strncmpEq_eq (s t : Name) : strncmpEq s t t.length = t.isPrefixOf s := by
  induction t generalizing s with
  | nil => cases s <;> rfl
  | cons b t ih =>
    cases s with
    | nil => rfl
    | cons a s =>
      rw [List.length_cons, strncmpEq, ih, List.isPrefixOf, Bool.beq_comm]

namespace Registry

variable {reg : Registry}

theorem table_of_get {r : Registry} {i : Nat} {d : Name × DdOperations}
    (h : r.devs[i]? = some d) : r.table i = slotOf d (r.holders i) := by
  simp only [table, h]

theorem table_of_le {r : Registry} {i : Nat} (h : r.devs.length ≤ i) :
    r.table i = ⟨none, 0, .noDevice, none⟩ := by
  simp only [table, List.getElem?_eq_none h]

theorem get_of_name {i : Nat} (h : (reg.table i).name ≠ none) : ∃ d, reg.devs[i]? = some d := by
  cases hd : reg.devs[i]? with
  | none => exact absurd (congrArg DrvDev.name (table_of_le (List.getElem?_eq_none_iff.mp hd))) h
  | some d => exact ⟨d, rfl⟩

@[simp] theorem setHolders_devs (i n : Nat) : (reg.setHolders i n).devs = reg.devs := rfl

@[simp] theorem setHolders_same (i n : Nat) : (reg.setHolders i n).holders i = n := by
  simp only [setHolders, Function.update_self]

theorem setHolders_other {i j n : Nat} (h : j ≠ i) :
    (reg.setHolders i n).holders j = reg.holders j := by
  simp only [setHolders, Function.update_of_ne h]

/-- Changing the number of holders of a device changes its slot. -/
theorem table_setHolders {i n : Nat} {d : Name × DdOperations} (h : reg.devs[i]? = some d) :
    (reg.setHolders i n).table = Function.update reg.table i (slotOf d n) := by
  funext j
  by_cases hj : j = i
  · subst hj
    have h' : (reg.setHolders j n).devs[j]? = some d := h
    rw [Function.update_self, table_of_get h', setHolders_same]
  · rw [Function.update_of_ne hj]
    simp only [table, setHolders_devs, setHolders_other hj]

/-- A device registered last takes the first free slot. -/
theorem table_register (d : Name × DdOperations) (h : reg.holders reg.devs.length = 0) :
    table { reg with devs := reg.devs ++ [d] } =
      Function.update reg.table reg.devs.length (slotOf d 0) := by
  funext j
  rcases Nat.lt_trichotomy j reg.devs.length with hlt | rfl | hgt
  · rw [Function.update_of_ne (Nat.ne_of_lt hlt)]
    simp only [table, List.getElem?_append_left hlt]
  · rw [Function.update_self, ← h]
    exact table_of_get (r := { reg with devs := reg.devs ++ [d] }) List.getElem?_concat_length
  · rw [Function.update_of_ne (Nat.ne_of_gt hgt), table_of_le (Nat.le_of_lt hgt)]
    refine table_of_le (r := { reg with devs := reg.devs ++ [d] }) ?_
    rw [List.length_append]
    exact hgt

/-- The loop of `ddev_open` finds the first device whose name starts with `devName`. -/
theorem findName_eq (hlen : reg.devs.length ≤ ddMaxDev) {devName : Name} {n i k : Nat}
    (hn : n + i = ddMaxDev)
    (h : (reg.devs.drop i).findIdx? (fun d => devName.isPrefixOf d.1) = some k) :
    findName reg.table devName n i = some (some (i + k)) := by
  have hilt : i < reg.devs.length := by
    rcases Nat.lt_or_ge i reg.devs.length with hlt | hge
    · exact hlt
    · rw [List.drop_eq_nil_of_le hge] at h
      cases h
  induction n generalizing i k with
  | zero => omega
  | succ n ih =>
    rw [List.drop_eq_getElem_cons hilt, List.findIdx?_cons] at h
    have hname : (reg.table i).name = some reg.devs[i].1 := by
      rw [table_of_get (List.getElem?_eq_getElem hilt)]
      rfl
    simp only [findName, hname, strncmpEq_eq]
    split at h
    · next hp =>
      cases h
      rw [if_pos hp]
      rfl
    · next hp =>
      obtain ⟨k', hk, rfl⟩ := Option.map_eq_some_iff.mp h
      have hlt : i + 1 < reg.devs.length := by
        rcases Nat.lt_or_ge (i + 1) reg.devs.length with hlt | hge
        · exact hlt
        · rw [List.drop_eq_nil_of_le hge] at hk
          cases hk
      rw [if_neg hp, ih (by omega) hk hlt]
      congr 2
      omega

/-- The loop of `ddev_register_dev` finds the first slot behind the devices. -/
theorem findFree_eq {n i : Nat} (hi : i ≤ reg.devs.length) (hn : reg.devs.length < n + i) :
    findFree reg.table n i = some reg.devs.length := by
  induction n generalizing i with
  | zero => omega
  | succ n ih =>
    unfold findFree
    rcases Nat.lt_or_eq_of_le hi with hlt | rfl
    · rw [if_neg, ih hlt (by omega)]
      rw [table_of_get (List.getElem?_eq_getElem hlt)]
      exact fun h => nomatch h.1
    · rw [if_pos]
      rw [table_of_le (Nat.le_refl _)]
      exact ⟨rfl, rfl⟩

theorem find_of_name {devName : Name} {i : Nat}
    (h : (reg.table i).name.any devName.isPrefixOf) : ∃ k d, reg.find devName = some k ∧
      reg.devs[k]? = some d ∧ k < reg.devs.length := by
  have hname : (reg.table i).name ≠ none := by
    intro hn
    rw [hn] at h
    cases h
  obtain ⟨d, hd⟩ := get_of_name hname
  have hany : ∃ d ∈ reg.devs, devName.isPrefixOf d.1 = true := by
    refine ⟨d, List.mem_of_getElem? hd, ?_⟩
    rw [table_of_get hd] at h
    exact h
  have hlt := List.findIdx_lt_length_of_exists hany
  exact ⟨_, _, List.findIdx?_eq_some_of_exists hany, List.getElem?_eq_getElem hlt, hlt⟩

theorem Fits.setHolders (hf : reg.Fits) {i n : Nat} (hi : i < reg.devs.length)
    (hn : n < 2 ^ 32) : (reg.setHolders i n).Fits where
  length_le := hf.length_le
  holders_lt := by
    intro j
    by_cases hj : j = i
    · subst hj
      rw [setHolders_same]
      exact hn
    · rw [setHolders_other hj]
      exact hf.holders_lt j
  holders_zero := by
    intro j hj
    rw [setHolders_devs] at hj
    rw [setHolders_other (Nat.ne_of_gt (Nat.lt_of_lt_of_le hi hj))]
    exact hf.holders_zero j hj

theorem register_eq (hf : reg.Fits) {name : Name} {op : DdOperations}
    (hc : Callable reg.table (.register (some name) (some op))) :
    ddevRegisterDev reg.table (some name) (some op) =
        some (table { reg with devs := reg.devs ++ [(name, op)] }, ⟨drvSuccess, none, []⟩) ∧
      Fits { reg with devs := reg.devs ++ [(name, op)] } := by
  obtain ⟨i, hname, -⟩ := hc
  have hlen : reg.devs.length < ddMaxDev := by
    rcases Nat.lt_or_ge i reg.devs.length with hlt | hge
    · rw [table_of_get (List.getElem?_eq_getElem hlt)] at hname
      cases hname
    · exact Nat.lt_of_le_of_lt hge i.isLt
  have hz := hf.holders_zero _ (Nat.le_refl _)
  constructor
  · rw [table_register _ hz]
    simp only [ddevRegisterDev, findFree_eq (Nat.zero_le _) hlen, table_of_le (Nat.le_refl _)]
    rfl
  · refine ⟨?_, hf.holders_lt, ?_⟩
    · rw [List.length_append]
      exact hlen
    · intro j hj
      rw [List.length_append] at hj
      exact hf.holders_zero j (Nat.le_of_lt hj)

theorem open_eq (hf : reg.Fits) {devName : Name} {statusNull : Bool} {opFlag ret : Nat}
    (hc : Callable reg.table (.open devName statusNull opFlag ret))
    (hn : Counted reg.table (.open devName statusNull opFlag ret)) :
    ddevOpen reg.table devName statusNull opFlag ret =
        some ((reg.step (.open devName statusNull opFlag ret)).1.table,
          (reg.step (.open devName statusNull opFlag ret)).2) ∧
      (reg.step (.open devName statusNull opFlag ret)).1.Fits := by
  by_cases harg : (statusNull || decide (ddMaxNameLen < devName.length)) = true
  · simp only [ddevOpen, Registry.step, if_pos harg]
    exact ⟨trivial, hf⟩
  · obtain ⟨i, hi⟩ : ∃ i : Fin ddMaxDev, (reg.table i).name.any devName.isPrefixOf := by
      simp only [Bool.or_eq_true, decide_eq_true_eq, not_or] at harg
      exact (hc.resolve_left harg.1).resolve_left harg.2
    obtain ⟨k, d, hk, hd, hlt⟩ := find_of_name hi
    have hfind : findName reg.table devName ddMaxDev 0 = some (some k) := by
      rw [findName_eq hf.length_le rfl (i := 0) (k := k) hk, Nat.zero_add]
    have hcnt : reg.holders k + 1 < 2 ^ 32 := by
      simp only [Counted, hfind, table_of_get hd] at hn
      exact hn
    simp only [ddevOpen, Registry.step, if_neg harg, hfind, hk, table_of_get hd, slotOf]
    refine ⟨?_, hf.setHolders hlt hcnt⟩
    rw [table_setHolders hd]
    by_cases hz : reg.holders k = 0
    · simp only [hz, if_true, hd, Option.any_some, true_and]
      rfl
    · simp only [hz, false_and, if_false, u32_of_lt hcnt, slotOf,
        if_neg (Nat.succ_ne_zero _)]

theorem close_eq (hf : reg.Fits) {handle : BitVec 32} (hc : Callable reg.table (.close handle))
    (hn : Counted reg.table (.close handle)) :
    ddevClose reg.table handle =
        some ((reg.step (.close handle)).1.table, (reg.step (.close handle)).2) ∧
      (reg.step (.close handle)).1.Fits := by
  cases hid : ddevGetIdFromHandle handle with
  | none =>
    simp only [ddevClose, Registry.step, hid]
    exact ⟨trivial, hf⟩
  | some id =>
    simp only [Callable, hid] at hc
    simp only [Counted, hid] at hn
    obtain ⟨d, hd⟩ := get_of_name hc.2
    have hlt : id < reg.devs.length := (List.getElem?_eq_some_iff.mp hd).1
    have hpos : 0 < reg.holders id := by
      rw [table_of_get hd] at hn
      exact hn
    have hcnt := hf.holders_lt id
    simp only [ddevClose, Registry.step, hid, if_neg (Nat.not_le.mpr hc.1), table_of_get hd, slotOf]
    refine ⟨?_, hf.setHolders hlt (Nat.lt_of_le_of_lt (Nat.sub_le _ _) hcnt)⟩
    rw [table_setHolders hd]
    have hsub : sub32 (reg.holders id) 1 = reg.holders id - 1 := sub32_of_le hpos hcnt
    rw [hsub]
    by_cases hone : reg.holders id = 1
    · simp only [hone, Nat.sub_self, if_true, hd, Option.any_some, true_and, slotOf]
    · have hne : reg.holders id - 1 ≠ 0 := by omega
      simp only [if_neg hne, hone, false_and, if_false, slotOf, if_neg (Nat.ne_of_gt hpos)]

/-- Each call on the table of a registry is the call on the registry. -/
theorem step_eq (hf : reg.Fits) (call : Call) (hc : Callable reg.table call)
    (hn : Counted reg.table call) :
    DrvModel.step reg.table call = some ((reg.step call).1.table, (reg.step call).2) ∧
      (reg.step call).1.Fits := by
  cases call with
  | register devName optr =>
    cases devName with
    | none => exact ⟨rfl, hf⟩
    | some name =>
      cases optr with
      | none => exact ⟨rfl, hf⟩
      | some op => exact register_eq hf hc
  | «open» devName statusNull opFlag ret => exact open_eq hf hc hn
  | close handle => exact close_eq hf hc hn

theorem fits_empty : empty.Fits where
  length_le := Nat.zero_le _
  holders_lt := fun _ => Nat.two_pow_pos 32
  holders_zero := fun _ _ => rfl

theorem table_empty : empty.table = drvModelInit := rfl

end Registry

/-! ## The callbacks of one device -/

/-- The callbacks made on device `id`: `true` for open, `false` for close. -/
def callbacksOf (id : Nat) (replies : List Reply) : List Bool :=
  (replies.flatMap Reply.callbacks).filterMap fun
    | .open i _ => if i = id then some true else none
    | .close i => if i = id then some false else none

/-- The flags alternate, starting with `b`. -/
def Alternates : Bool → List Bool → Prop
  | _, [] => True
  | b, c :: cs => c = b ∧ Alternates (!b) cs

/-- The flag that comes next in an alternating list. -/
def nextFlag (b : Bool) (cs : List Bool) : Bool := if cs.length % 2 = 0 then b else !b

theorem Alternates.concat {b : Bool} {cs : List Bool} (h : Alternates b cs) :
    Alternates b (cs ++ [nextFlag b cs]) := by
  induction cs generalizing b with
  | nil => exact ⟨rfl, trivial⟩
  | cons c cs ih =>
    refine ⟨h.1, ?_⟩
    have hnext : nextFlag b (c :: cs) = nextFlag (!b) cs := by
      simp only [nextFlag, List.length_cons, Bool.not_not]
      split <;> split <;> first | rfl | omega
    rw [hnext]
    exact ih h.2

theorem nextFlag_concat (b c : Bool) (cs : List Bool) : nextFlag b (cs ++ [c]) = !nextFlag b cs := by
  simp only [nextFlag, List.length_append, List.length_singleton]
  split <;> split <;> first | omega | simp

theorem callbacksOf_append (id : Nat) (rs rs' : List Reply) :
    callbacksOf id (rs ++ rs') = callbacksOf id rs ++ callbacksOf id rs' := by
  simp only [callbacksOf, List.flatMap_append, List.filterMap_append]

namespace Registry

/-- A device with both callbacks. -/
def Both (reg : Registry) (id : Nat) : Prop :=
  ∃ d, reg.devs[id]? = some d ∧ d.2.hasOpen ∧ d.2.hasClose

/-- What one call does to a device and its callbacks: nothing that matters, the first
holder's open, or the last holder's close. -/
inductive Effect (reg : Registry) (id : Nat) (reg' : Registry) : List Bool → Prop where
  | quiet (h : reg'.Both id → (reg'.holders id = 0 ↔ reg.holders id = 0)) : Effect reg id reg' []
  | opens (h : reg.holders id = 0) (h' : reg'.holders id ≠ 0) : Effect reg id reg' [true]
  | closes (h : reg.holders id ≠ 0) (h' : reg'.holders id = 0) : Effect reg id reg' [false]

theorem Effect.same {reg reg' : Registry} {id : Nat} (h : reg'.holders id = reg.holders id) :
    Effect reg id reg' [] := .quiet fun _ => by rw [h]

theorem open_effect (reg : Registry) (i id opFlag : Nat) :
    Effect reg id (reg.setHolders i (reg.holders i + 1)) (callbacksOf id [⟨0, none,
      if reg.holders i = 0 ∧ reg.devs[i]?.any (·.2.hasOpen) then [.open i opFlag] else []⟩]) := by
  by_cases hid : i = id
  · subst hid
    split
    · next h =>
      simp only [callbacksOf, List.flatMap_singleton, List.filterMap_cons, if_true,
        List.filterMap_nil]
      refine .opens h.1 ?_
      rw [setHolders_same]
      exact Nat.succ_ne_zero _
    · next h =>
      refine .quiet ?_
      intro ⟨d, hd, hopen, _⟩
      rw [setHolders_devs] at hd
      rw [setHolders_same]
      simp only [hd, Option.any_some, hopen, and_true] at h
      exact ⟨fun h0 => absurd h0 (Nat.succ_ne_zero _), fun h0 => absurd h0 h⟩
  · have hnil : callbacksOf id [⟨0, none, if reg.holders i = 0 ∧ reg.devs[i]?.any (·.2.hasOpen)
        then [.open i opFlag] else []⟩] = [] := by
      split
      · simp [callbacksOf, hid]
      · rfl
    rw [hnil]
    exact .same (setHolders_other (Ne.symm hid))

theorem close_effect (reg : Registry) (i id : Nat) :
    Effect reg id (reg.setHolders i (reg.holders i - 1)) (callbacksOf id [⟨0, none,
      if reg.holders i = 1 ∧ reg.devs[i]?.any (·.2.hasClose) then [.close i] else []⟩]) := by
  by_cases hid : i = id
  · subst hid
    split
    · next h =>
      simp only [callbacksOf, List.flatMap_singleton, List.filterMap_cons, if_true,
        List.filterMap_nil]
      refine .closes (by omega) ?_
      rw [setHolders_same, h.1]
    · next h =>
      refine .quiet ?_
      intro ⟨d, hd, _, hclose⟩
      rw [setHolders_devs] at hd
      rw [setHolders_same]
      simp only [hd, Option.any_some, hclose, and_true] at h
      omega
  · have hnil : callbacksOf id [⟨0, none, if reg.holders i = 1 ∧ reg.devs[i]?.any (·.2.hasClose)
        then [.close i] else []⟩] = [] := by
      split
      · simp [callbacksOf, hid]
      · rfl
    rw [hnil]
    exact .same (setHolders_other (Ne.symm hid))

theorem step_effect (reg : Registry) (call : Call) (id : Nat) :
    Effect reg id (reg.step call).1 (callbacksOf id [(reg.step call).2]) := by
  cases call with
  | register devName optr =>
    cases devName with
    | none => exact .same rfl
    | some name =>
      cases optr with
      | none => exact .same rfl
      | some op => exact .same rfl
  | «open» devName statusNull opFlag ret =>
    simp only [step]
    split
    · exact .same rfl
    · split
      · exact .same rfl
      · exact open_effect reg _ id opFlag
  | close handle =>
    simp only [step]
    split
    · exact .same rfl
    · exact close_effect reg _ id

theorem step_devs (reg : Registry) (call : Call) : reg.devs <+: (reg.step call).1.devs := by
  cases call with
  | register devName optr =>
    cases devName with
    | none => exact List.prefix_rfl
    | some name =>
      cases optr with
      | none => exact List.prefix_rfl
      | some op => exact List.prefix_append _ _
  | «open» devName statusNull opFlag ret =>
    simp only [step]
    split
    · exact List.prefix_rfl
    · split <;> exact List.prefix_rfl
  | close handle =>
    simp only [step]
    split <;> exact List.prefix_rfl

/-- A slot without a device has no holders. -/
theorem step_unborn {reg : Registry} {id : Nat} (call : Call) (hid : reg.devs.length ≤ id)
    (h : reg.holders id = 0) : (reg.step call).1.holders id = 0 := by
  cases call with
  | register devName optr =>
    cases devName with
    | none => exact h
    | some name =>
      cases optr with
      | none => exact h
      | some op => exact h
  | «open» devName statusNull opFlag ret =>
    simp only [step]
    split
    · exact h
    · split
      · exact h
      · next k hk =>
        have hlt : k < reg.devs.length := (List.findIdx?_eq_some_iff_getElem.mp hk).1
        exact (setHolders_other (Nat.ne_of_gt (Nat.lt_of_lt_of_le hlt hid))).trans h
  | close handle =>
    simp only [step]
    split
    · exact h
    · next i hi =>
      by_cases hii : id = i
      · subst hii
        rw [setHolders_same, h]
      · exact (setHolders_other hii).trans h

/-- The callbacks of a device took turns, and its next one is open when it has no holder. -/
def TakeTurns (reg : Registry) (replies : List Reply) (id : Nat) : Prop :=
  Alternates true (callbacksOf id replies) ∧
    (nextFlag true (callbacksOf id replies) = true ↔ reg.holders id = 0)

/-- The callbacks made so far are right for every device with both callbacks. -/
structure Sound (reg : Registry) (replies : List Reply) : Prop where
  unborn : ∀ id, reg.devs.length ≤ id → reg.holders id = 0 ∧ callbacksOf id replies = []
  turns : ∀ id, reg.Both id → reg.TakeTurns replies id

theorem sound_empty : empty.Sound [] where
  unborn := fun _ _ => ⟨rfl, rfl⟩
  turns := fun _ ⟨_, hd, _⟩ => nomatch hd

theorem TakeTurns.step {reg reg' : Registry} {replies : List Reply} {reply : Reply} {id : Nat}
    (h : reg.TakeTurns replies id) (hb : reg'.Both id)
    (he : Effect reg id reg' (callbacksOf id [reply])) :
    reg'.TakeTurns (replies ++ [reply]) id := by
  unfold TakeTurns
  rw [callbacksOf_append]
  generalize callbacksOf id [reply] = cs at he
  cases he with
  | quiet hz =>
    rw [List.append_nil, hz hb]
    exact h
  | opens hz hz' =>
    have hnext : nextFlag true (callbacksOf id replies) = true := h.2.mpr hz
    have halt := h.1.concat
    rw [hnext] at halt
    refine ⟨halt, ?_⟩
    rw [nextFlag_concat, hnext]
    simpa using hz'
  | closes hz hz' =>
    have hnext : nextFlag true (callbacksOf id replies) = false :=
      Bool.eq_false_iff.mpr fun hn => hz (h.2.mp hn)
    have halt := h.1.concat
    rw [hnext] at halt
    refine ⟨halt, ?_⟩
    rw [nextFlag_concat, hnext]
    simpa using hz'

theorem Sound.step {reg : Registry} {replies : List Reply} (h : reg.Sound replies) (call : Call) :
    (reg.step call).1.Sound (replies ++ [(reg.step call).2]) where
  unborn := by
    intro id hid
    obtain ⟨hz, hcs⟩ := h.unborn id ((step_devs reg call).length_le.trans hid)
    have hz' := step_unborn call ((step_devs reg call).length_le.trans hid) hz
    refine ⟨hz', ?_⟩
    rw [callbacksOf_append, hcs, List.nil_append]
    have he := step_effect reg call id
    generalize callbacksOf id [(reg.step call).2] = cs at he
    cases he with
    | quiet _ => rfl
    | opens _ hne => exact absurd hz' hne
    | closes hne _ => exact absurd hz hne
  turns := by
    intro id hb
    refine TakeTurns.step ?_ hb (step_effect reg call id)
    rcases Nat.lt_or_ge id reg.devs.length with hlt | hge
    · obtain ⟨d, hd, hboth⟩ := hb
      obtain ⟨l, hl⟩ := step_devs reg call
      rw [← hl, List.getElem?_append_left hlt] at hd
      exact h.turns id ⟨d, hd, hboth⟩
    · obtain ⟨hz, hcs⟩ := h.unborn id hge
      unfold TakeTurns
      rw [hcs, hz]
      exact ⟨trivial, Iff.intro (fun _ => rfl) (fun _ => rfl)⟩

end Registry

/-! ## The accounting of a run -/

/-- After the calls, made on a cleared table: every reply was that of the registry, the
table is that of the registry, a slot is `DD_STATE_OPENED` exactly when its `use_cnt`, the
number of its holders, is positive, and a device's callbacks alternate, starting with open. -/
def Accounted (calls : List Call) : Prop :=
  ∃ tbl reg replies, Machine.run step drvModelInit calls = some (tbl, replies) ∧
    Machine.run (fun reg call => some (Registry.step reg call)) .empty calls =
      some (reg, replies) ∧
    tbl = reg.table ∧
    (∀ id, (tbl id).useCnt = reg.holders id ∧
      ((tbl id).state = .opened ↔ 0 < (tbl id).useCnt)) ∧
    ∀ id, reg.Both id → Alternates true (callbacksOf id replies)

/-- A run of calls on registered devices whose closes are all made on devices with a holder
is accounted for, and so is every part of it from the start. -/
theorem ddev_accounted (calls : List Call)
    (hl : Machine.Legal step (fun tbl call => Callable tbl call ∧ Counted tbl call)
      drvModelInit calls) : ∀ n, Accounted (calls.take n) := by
  intro n
  rw [← List.take_append_drop n calls] at hl
  have hstep : ∀ (tbl : DrvDevTbl) (reg : Registry) (call : Call),
      tbl = reg.table ∧ reg.Fits → Callable tbl call ∧ Counted tbl call →
      ∃ tbl', step tbl call = some (tbl', (reg.step call).2) ∧
        tbl' = (reg.step call).1.table ∧ (reg.step call).1.Fits := by
    intro tbl reg call hR hok
    obtain ⟨rfl, hfits⟩ := hR
    obtain ⟨hs, hfits'⟩ := Registry.step_eq hfits call hok.1 hok.2
    exact ⟨_, hs, rfl, hfits'⟩
  obtain ⟨tbl, reg, replies, hrun, habs, rfl, hfits⟩ := Machine.run_simulates hstep
    ⟨Registry.table_empty.symm, Registry.fits_empty⟩ hl.prefix
  have hkeep : ∀ (reg : Registry) (replies : List Reply) (call : Call) (reg' : Registry)
      (reply : Reply), reg.Sound replies → True → some (reg.step call) = some (reg', reply) →
      reg'.Sound (replies ++ [reply]) := by
    intro reg replies call reg' reply h _ hs
    have hpair : reg.step call = (reg', reply) := Option.some.inj hs
    have hnext := h.step call
    rw [hpair] at hnext
    exact hnext
  have hsound : reg.Sound ([] ++ replies) :=
    Machine.run_invariant hkeep Registry.sound_empty (Machine.legal_true _ _) habs
  refine ⟨_, reg, replies, hrun, habs, rfl, ?_, fun id hb => (hsound.turns id hb).1⟩
  intro id
  cases hd : reg.devs[id]? with
  | none =>
    have hle := List.getElem?_eq_none_iff.mp hd
    rw [Registry.table_of_le hle, hfits.holders_zero id hle]
    exact ⟨rfl, (fun h => nomatch h), fun h => absurd h (Nat.lt_irrefl 0)⟩
  | some d =>
    rw [Registry.table_of_get hd]
    refine ⟨rfl, ?_⟩
    unfold slotOf
    simp only
    split
    · next hz => simp [hz]
    · next hz => simp [Nat.pos_of_ne_zero hz]

/-- Two holders of one device, and a second device. -/
def twoHolders : List Call :=
  [.register (some [97]) (some ⟨true, true⟩), .register (some [98]) (some ⟨true, true⟩),
    .open [97] false 0 0, .open [98] false 1 0, .open [97] false 0 0, .close 0xA5A50000,
    .close 0xA5A50001, .close 0xA5A50000]

theorem ddev_accounted_two : Accounted twoHolders :=
  ddev_accounted twoHolders (Machine.legal_of_check (by decide +kernel)) 8

/-- A device is opened once and closed twice: the second close, made with no holder, leaves
`use_cnt` at `2 ^ 32 - 1` in the closed state. -/
theorem ddev_close_wraps :
    Machine.Legal step Callable drvModelInit [.register (some [97]) (some ⟨true, true⟩),
      .open [97] false 0 0, .close 0xA5A50000, .close 0xA5A50000] ∧
    ¬Accounted [.register (some [97]) (some ⟨true, true⟩), .open [97] false 0 0,
      .close 0xA5A50000, .close 0xA5A50000] := by
  refine ⟨Machine.legal_of_check (by decide +kernel), ?_⟩
  intro ⟨tbl, reg, replies, hrun, habs, _, hcnt, _⟩
  have hstate : (Machine.run step drvModelInit [.register (some [97]) (some ⟨true, true⟩),
      .open [97] false 0 0, .close 0xA5A50000, .close 0xA5A50000]).all
      (fun r => (r.1 0).useCnt = 2 ^ 32 - 1 ∧ (r.1 0).state = .closed) = true := by
    decide +kernel
  rw [hrun] at hstate
  obtain ⟨huse, hclosed⟩ := of_decide_eq_true hstate
  have hopened := (hcnt 0).2.mpr (by rw [huse]; decide)
  rw [hclosed] at hopened
  cases hopened

end TuyaSdk.DrvModel
