import TuyaSdk.DrvModel
import TuyaSdk.Flash.Protect

/-!
# The flash adapter (`tkl_flash.c`)

Every function opens the flash device of the driver model and closes it again, and so does the
query of the protection in between. A write and an erase lower the protection before they start. A
write opens the device twice and closes it once; what an erase sets at its end it decides by a
second query, after the protection is down.

`none` is a failed `ASSERT` of the driver model, or the use of a level that was not queried.
-/

namespace TuyaSdk.Flash.Adapter
open TuyaSdk.Lib TuyaSdk.DrvModel

/-- `FLASH_DEV_NAME`: "flash". -/
def flashDevName : Name := [0x66, 0x6C, 0x61, 0x73, 0x68]

/-- `flash_op` has neither of the two callbacks. -/
def flashOp : DdOperations := ⟨false, false⟩

/-- `OPERATE_RET` -/
inductive OperateRet
  | ok
  | invalidParm
  deriving DecidableEq, Repr

/-- A command to the flash. -/
inductive FlashCmd
  | write (count address : Nat)
  | eraseSector (address : Nat)
  deriving DecidableEq, Repr

/-- The flash behind its driver: the chip, and the write and erase commands so far, each with the
level at the time. -/
structure Chip where
  config : FlashConfig
  sr : BitVec 16
  dev : FlashDev
  issued : List (FlashCmd × Option ProtectType)

/-- The level of the protection. -/
def Chip.level (c : Chip) : Option ProtectType := getFlashProtect c.config c.sr

/-- The level is that of all. -/
def Chip.isAll (c : Chip) : Bool := c.level = some .protectAll

/-- `CMD_FLASH_SET_PROTECT` -/
def Chip.setProtect (c : Chip) (type : ProtectType) : Chip :=
  { c with sr := setFlashProtect c.config type c.sr }

/-- `flash_write` -/
def Chip.write (c : Chip) (userBuf : Nat → Byte) (count address : Nat) : Chip :=
  { c with
    dev := flashWrite c.dev userBuf count address
    issued := c.issued ++ [(.write count address, c.level)] }

/-- `CMD_FLASH_ERASE_SECTOR` -/
def Chip.eraseSector (c : Chip) (address : Nat) : Chip :=
  { c with
    dev := flashEraseSector c.dev address
    issued := c.issued ++ [(.eraseSector address, c.level)] }

/-- The devices and the flash. -/
structure Board where
  tbl : DrvDevTbl
  chip : Chip

/-- `ddev_open(FLASH_DEV_NAME, &status, 0)` -/
def openFlash (b : Board) : Option (BitVec 32 × Board) := do
  let (tbl, r) ← ddevOpen b.tbl flashDevName false 0 drvFailure
  return (BitVec.ofNat 32 r.ret, { b with tbl := tbl })

/-- `ddev_close` -/
def closeFlash (b : Board) (handle : BitVec 32) : Option Board := do
  let (tbl, _) ← ddevClose b.tbl handle
  return { b with tbl := tbl }

/-- `ddev_read`, `ddev_write` and `ddev_control` find the flash driver in the slot of the handle. -/
def isFlash (b : Board) (handle : BitVec 32) : Bool :=
  (ddevGetIdFromHandle handle).any fun id =>
    id < ddMaxDev && (b.tbl id).name = some flashDevName && (b.tbl id).op.isSome

/-- An operation of the driver that returns nothing. -/
def onFlash (b : Board) (handle : BitVec 32) (f : Chip → Chip) : Board :=
  if isFlash b handle then { b with chip := f b.chip } else b

/-- `__uni_flash_is_protect_all` -/
def uniFlashIsProtectAll (b : Board) : Option (Bool × Board) := do
  let (handle, b) ← openFlash b
  -- `param` has no value before the driver stores one
  let param ← if isFlash b handle then some b.chip.level else none
  let b ← closeFlash b handle
  return (param = some .protectAll, b)

/-- `tkl_flash_set_protect` -/
def tklFlashSetProtect (b : Board) (enable : Bool) : Option (OperateRet × Board) := do
  let (handle, b) ← openFlash b
  let b := onFlash b handle fun c => c.setProtect (if enable then .protectAll else .protectHalf)
  let b ← closeFlash b handle
  return (.ok, b)

/-- `tkl_flash_read`, with what it stores to `dst`, which may be `NULL`. -/
def tklFlashRead (b : Board) (addr : BitVec 32) (dstNull : Bool) (size : BitVec 32) :
    Option (OperateRet × List Byte × Board) :=
  if dstNull then some (.invalidParm, [], b)
  else do
    let (handle, b) ← openFlash b
    let bytes := if isFlash b handle then flashRead b.chip.dev size.toNat addr.toNat else []
    let b ← closeFlash b handle
    return (.ok, bytes, b)

/-- `tkl_flash_write`; `src` may be `NULL`. -/
def tklFlashWrite (b : Board) (addr : BitVec 32) (src : Option (Nat → Byte)) (size : BitVec 32) :
    Option (OperateRet × Board) :=
  match src with
  | none => some (.invalidParm, b)
  | some src => do
    let (_, b) ← openFlash b
    let (protectFlag, b) ← uniFlashIsProtectAll b
    let (handle, b) ← openFlash b
    let b := if protectFlag then onFlash b handle fun c => c.setProtect .protectHalf else b
    let b := onFlash b handle fun c => c.write src size.toNat addr.toNat
    let b ← closeFlash b handle
    return (.ok, b)

/-- `tkl_flash_erase` -/
def tklFlashErase (b : Board) (addr size : BitVec 32) : Option (OperateRet × Board) := do
  let (handle, b) ← openFlash b
  let (protectFlag, b) ← uniFlashIsProtectAll b
  let b := if protectFlag then onFlash b handle fun c => c.setProtect .protectHalf else b
  let b := (tklEraseSectors addr.toNat size.toNat).foldl
    (fun b sectorAddr => onFlash b handle fun c => c.eraseSector sectorAddr) b
  let (protectFlag, b) ← uniFlashIsProtectAll b
  let b := if protectFlag then onFlash b handle fun c => c.setProtect .protectAll else b
  let b ← closeFlash b handle
  return (.ok, b)

/-- `flash_init`, of a chip with an identifier. -/
def flashInit (tbl : DrvDevTbl) (flashId : Nat) (sr : BitVec 16) (dev : FlashDev) :
    Option Board := do
  let chip : Chip := ⟨flashGetCurrentFlashConfig flashId, sr, dev, []⟩
  let (tbl, _) ← ddevRegisterDev tbl (some flashDevName) (some flashOp)
  return ⟨tbl, chip.setProtect .protectAll⟩

/-- A call of the adapter. -/
inductive Call
  | read (addr : BitVec 32) (dstNull : Bool) (size : BitVec 32)
  | write (addr : BitVec 32) (src : Option (Nat → Byte)) (size : BitVec 32)
  | erase (addr size : BitVec 32)
  | setProtect (enable : Bool)

/-- One call, with what it returns and stores. -/
def adapter : Machine Board Call (OperateRet × List Byte) := fun b call =>
  match call with
  | .read addr dstNull size => (tklFlashRead b addr dstNull size).map fun r => (r.2.2, r.1, r.2.1)
  | .write addr src size => (tklFlashWrite b addr src size).map fun r => (r.2, r.1, [])
  | .erase addr size => (tklFlashErase b addr size).map fun r => (r.2, r.1, [])
  | .setProtect enable => (tklFlashSetProtect b enable).map fun r => (r.2, r.1, [])

/-! ## Neutrality -/

/-- The open counts and the level are as before. -/
structure Same (b b' : Board) : Prop where
  useCnt : ∀ id, (b'.tbl id).useCnt = (b.tbl id).useCnt
  level : b'.chip.level = b.chip.level

/-- No write or erase command is issued at `FLASH_PROTECT_ALL`. -/
def Unprotected (b b' : Board) : Prop :=
  ∃ cmds, b'.chip.issued = b.chip.issued ++ cmds ∧ ∀ c ∈ cmds, c.2 ≠ some .protectAll

/-- What a call should do. -/
def Neutral (b : Board) (call : Call) (b' : Board) : Prop :=
  Unprotected b b' ∧
    match call with
    | .setProtect _ => True
    | _ => Same b b'

/-- Nothing is written; and what is erased is not protected, or, on a chip on which all levels are
one, there is nothing to erase. -/
def NeutralOk (b : Board) : Call → Prop
  | .read _ _ _ => True
  | .write _ src _ => src = none
  | .erase addr size => b.chip.level ≠ some .protectAll ∨
      b.chip.config.protectHalf = b.chip.config.protectAll ∧
        tklEraseSectors addr.toNat size.toNat = []
  | .setProtect _ => True

/-- The flash device is device `k`, and the first whose name starts with its own. -/
structure Registered (reg : Registry) (k : Nat) : Prop where
  fits : reg.Fits
  found : reg.find flashDevName = some k
  flash : reg.devs[k]? = some (flashDevName, flashOp)

/-- The flash device is registered, on a chip of the table, with room for the two holders of a
call. -/
structure Ready (b : Board) (reg : Registry) (k : Nat) : Prop where
  chip : b.chip.config ∈ protectConfigDefault :: protectConfig
  tbl : b.tbl = reg.table
  registered : Registered reg k
  holders : reg.holders k + 2 < 2 ^ 32

/-! ## Opening and closing -/

/-- The board with `n` holders of the flash device. -/
def held (reg : Registry) (k n : Nat) (chip : Chip) : Board := ⟨(reg.setHolders k n).table, chip⟩

theorem Ready.held_eq {b : Board} {reg : Registry} {k : Nat} (h : Ready b reg k) :
    b = held reg k (reg.holders k) b.chip := by
  have hself : reg.setHolders k (reg.holders k) = reg := by
    rw [Registry.setHolders, Function.update_eq_self]
  rw [held, hself, ← h.tbl]

section
variable {reg : Registry} {k n : Nat} (h : Registered reg k)

theorem setHolders_setHolders (reg : Registry) (k n m : Nat) :
    (reg.setHolders k n).setHolders k m = reg.setHolders k m := by
  simp only [Registry.setHolders, Function.update_idem]

include h

theorem Registered.lt : k < reg.devs.length := (List.getElem?_eq_some_iff.mp h.flash).1

theorem Registered.lt_max : k < ddMaxDev := h.lt.trans_le h.fits.length_le

theorem table_held : (reg.setHolders k n).table k = slotOf (flashDevName, flashOp) n := by
  rw [Registry.table_of_get (r := reg.setHolders k n) h.flash, Registry.setHolders_same]

theorem openFlash_held (chip : Chip) (hn : n + 1 < 2 ^ 32) :
    openFlash (held reg k n chip) = some (ddevMakeHandle k, held reg k (n + 1) chip) := by
  have hf := h.fits.setHolders h.lt (by omega : n < 2 ^ 32)
  have hcall : Callable (reg.setHolders k n).table (.open flashDevName false 0 drvFailure) := by
    refine Or.inr (Or.inr ⟨⟨k, h.lt_max⟩, ?_⟩)
    change ((reg.setHolders k n).table k).name.any _ = true
    rw [table_held h]
    rfl
  have hcount : Counted (reg.setHolders k n).table (.open flashDevName false 0 drvFailure) := by
    have hfind : findName (reg.setHolders k n).table flashDevName ddMaxDev 0 = some (some k) := by
      rw [Registry.findName_eq hf.length_le rfl (i := 0) (k := k) h.found, Nat.zero_add]
    simp only [Counted, hfind, table_held h]
    exact hn
  have hfind : (reg.setHolders k n).find flashDevName = some k := h.found
  have hlen : ¬(false || decide (ddMaxNameLen < flashDevName.length)) = true := by decide
  rw [openFlash, held, (Registry.open_eq hf hcall hcount).1]
  simp only [Registry.step, if_neg hlen, hfind, Registry.setHolders_same, setHolders_setHolders,
    Option.bind_eq_bind, Option.bind_some, BitVec.ofNat_toNat, BitVec.setWidth_eq]
  rfl

theorem closeFlash_held (chip : Chip) (hn : n + 1 < 2 ^ 32) :
    closeFlash (held reg k (n + 1) chip) (ddevMakeHandle k) = some (held reg k n chip) := by
  have hf := h.fits.setHolders h.lt hn
  have hid := ddevGetId_makeHandle h.lt_max
  have hcall : Callable (reg.setHolders k (n + 1)).table (.close (ddevMakeHandle k)) := by
    simp only [Callable, hid, table_held h]
    exact ⟨h.lt_max, Option.some_ne_none _⟩
  have hcount : Counted (reg.setHolders k (n + 1)).table (.close (ddevMakeHandle k)) := by
    simp only [Counted, hid, table_held h]
    exact Nat.succ_pos n
  rw [closeFlash, held, (Registry.close_eq hf hcall hcount).1]
  simp only [Registry.step, hid, Registry.setHolders_same, setHolders_setHolders,
    Option.bind_eq_bind, Option.bind_some, Nat.add_sub_cancel]
  rfl

theorem isFlash_held (chip : Chip) : isFlash (held reg k n chip) (ddevMakeHandle k) = true := by
  have hslot : (held reg k n chip).tbl k = slotOf (flashDevName, flashOp) n := table_held h
  rw [isFlash, ddevGetId_makeHandle h.lt_max, Option.any_some, hslot]
  simp only [slotOf, h.lt_max, decide_true, Bool.true_and, Option.isSome_some]

theorem onFlash_held (chip : Chip) (f : Chip → Chip) :
    onFlash (held reg k n chip) (ddevMakeHandle k) f = held reg k n (f chip) := by
  rw [onFlash, if_pos (isFlash_held h chip)]
  rfl

/-- The query of the protection opens and closes. -/
theorem uniFlashIsProtectAll_held (chip : Chip) (hn : n + 1 < 2 ^ 32) :
    uniFlashIsProtectAll (held reg k n chip) =
      some (chip.isAll, held reg k n chip) := by
  rw [uniFlashIsProtectAll, openFlash_held h chip hn]
  simp only [Option.bind_eq_bind, Option.bind_some, isFlash_held h, if_true, closeFlash_held h chip hn]
  rfl

/-! ## The functions -/

theorem tklFlashSetProtect_held (chip : Chip) (hn : n + 1 < 2 ^ 32) (enable : Bool) :
    tklFlashSetProtect (held reg k n chip) enable =
      some (.ok, held reg k n
        (chip.setProtect (if enable then .protectAll else .protectHalf))) := by
  rw [tklFlashSetProtect, openFlash_held h chip hn]
  simp only [Option.bind_eq_bind, Option.bind_some, onFlash_held h, closeFlash_held h _ hn]
  rfl

theorem tklFlashRead_held (chip : Chip) (hn : n + 1 < 2 ^ 32) (addr : BitVec 32) (dstNull : Bool)
    (size : BitVec 32) :
    ∃ ret bytes, tklFlashRead (held reg k n chip) addr dstNull size =
      some (ret, bytes, held reg k n chip) := by
  rw [tklFlashRead]
  cases dstNull with
  | true => exact ⟨_, _, rfl⟩
  | false =>
    rw [if_neg (by decide), openFlash_held h chip hn]
    simp only [Option.bind_eq_bind, Option.bind_some, isFlash_held h, if_true,
      closeFlash_held h chip hn]
    exact ⟨_, _, rfl⟩

/-- The level is lowered before a write or an erase. -/
def Chip.lowered (c : Chip) : Chip :=
  if c.isAll then c.setProtect .protectHalf else c

/-- A write leaves a holder. -/
theorem tklFlashWrite_held (chip : Chip) (hn : n + 2 < 2 ^ 32) (addr : BitVec 32)
    (src : Nat → Byte) (size : BitVec 32) :
    tklFlashWrite (held reg k n chip) addr (some src) size =
      some (.ok, held reg k (n + 1) (chip.lowered.write src size.toNat addr.toNat)) := by
  rw [tklFlashWrite, openFlash_held h chip (by omega)]
  simp only [Option.bind_eq_bind, Option.bind_some, uniFlashIsProtectAll_held h chip hn,
    openFlash_held h chip hn, onFlash_held h]
  have hlow : (if chip.isAll then held reg k (n + 1 + 1) (chip.setProtect .protectHalf)
      else held reg k (n + 1 + 1) chip) = held reg k (n + 1 + 1) chip.lowered :=
    (apply_ite _ _ _ _).symm
  rw [hlow, onFlash_held h, closeFlash_held h _ hn]
  rfl

/-- The sectors are erased at one level. -/
def Chip.erased (c : Chip) (sectors : List Nat) : Chip := sectors.foldl Chip.eraseSector c

/-- What an erase does to the chip. -/
def Chip.tklErased (c : Chip) (sectors : List Nat) : Chip :=
  let c := c.lowered.erased sectors
  if c.isAll then c.setProtect .protectAll else c

theorem eraseSectors_held (chip : Chip) (sectors : List Nat) :
    sectors.foldl (fun b sectorAddr => onFlash b (ddevMakeHandle k) fun c =>
      c.eraseSector sectorAddr) (held reg k n chip) = held reg k n (chip.erased sectors) := by
  induction sectors generalizing chip with
  | nil => rfl
  | cons a sectors ih =>
    rw [List.foldl_cons, onFlash_held h, ih]
    rfl

theorem tklFlashErase_held (chip : Chip) (hn : n + 2 < 2 ^ 32) (addr size : BitVec 32) :
    tklFlashErase (held reg k n chip) addr size =
      some (.ok, held reg k n (chip.tklErased (tklEraseSectors addr.toNat size.toNat))) := by
  have hopen := openFlash_held h chip (show n + 1 < 2 ^ 32 by omega)
  have hquery (c : Chip) := uniFlashIsProtectAll_held h (n := n + 1) c hn
  have hset (flag : Bool) (c : Chip) (type : ProtectType) :
      (if flag then onFlash (held reg k (n + 1) c) (ddevMakeHandle k) fun c => c.setProtect type
        else held reg k (n + 1) c) = held reg k (n + 1) (if flag then c.setProtect type else c) := by
    cases flag with
    | false => rfl
    | true =>
      rw [if_pos rfl, if_pos rfl]
      exact onFlash_held h c _
  have hclose (c : Chip) := closeFlash_held h c (show n + 1 < 2 ^ 32 by omega)
  rw [tklFlashErase, Chip.tklErased, hopen, Option.bind_eq_bind, Option.bind_some]
  dsimp only
  rw [hquery, Option.bind_eq_bind, Option.bind_some]
  dsimp only
  rw [hset, eraseSectors_held h, hquery, Option.bind_eq_bind, Option.bind_some]
  dsimp only
  rw [hset, hclose, Option.bind_some, Chip.lowered]
  rfl

end

/-! ## The levels -/

theorem Chip.level_setProtect {c : Chip} (hc : c.config ∈ protectConfigDefault :: protectConfig)
    (type : ProtectType) : (c.setProtect type).level = c.config.level (c.config.value type) :=
  get_setFlashProtect (protectConfig_fits _ hc) type c.sr

/-- The level of all can always be set. -/
theorem Chip.level_setProtect_all {c : Chip} (hc : c.config ∈ protectConfigDefault :: protectConfig) :
    (c.setProtect .protectAll).level = some .protectAll := by
  rw [level_setProtect hc, FlashConfig.level, if_pos]
  rfl

theorem Chip.level_setProtect_half {c : Chip}
    (hc : c.config ∈ protectConfigDefault :: protectConfig) :
    (c.setProtect .protectHalf).level = some .protectAll ↔
      c.config.protectHalf = c.config.protectAll := by
  rw [level_setProtect hc, FlashConfig.level, FlashConfig.value]
  split_ifs with hall hnone hhalf <;> simp_all

/-- On the chips that the driver knows the levels of a half and of all differ. -/
theorem protectHalf_eq_iff : ∀ c ∈ protectConfigDefault :: protectConfig,
    c.protectHalf = c.protectAll ↔ c = protectConfigDefault := by
  decide +kernel

theorem Chip.erased_spec (c : Chip) (sectors : List Nat) :
    (c.erased sectors).config = c.config ∧ (c.erased sectors).sr = c.sr ∧
      (c.erased sectors).issued =
        c.issued ++ sectors.map fun a => (.eraseSector a, c.level) := by
  induction sectors generalizing c with
  | nil => exact ⟨rfl, rfl, (List.append_nil _).symm⟩
  | cons a sectors ih =>
    obtain ⟨hconfig, hsr, hissued⟩ := ih (c.eraseSector a)
    refine ⟨hconfig, hsr, hissued.trans ?_⟩
    rw [List.map_cons, ← List.singleton_append, ← List.append_assoc]
    rfl

theorem Chip.level_erased (c : Chip) (sectors : List Nat) : (c.erased sectors).level = c.level := by
  obtain ⟨hconfig, hsr, -⟩ := c.erased_spec sectors
  rw [level, hconfig, hsr, level]

theorem Chip.isAll_iff {c : Chip} : c.isAll = true ↔ c.level = some .protectAll :=
  decide_eq_true_iff

/-- At another level an erase only erases. -/
theorem Chip.tklErased_of_ne {c : Chip} (hne : c.level ≠ some .protectAll) (sectors : List Nat) :
    c.tklErased sectors = c.erased sectors := by
  rw [tklErased, lowered, if_neg (mt isAll_iff.mp hne)]
  exact if_neg (mt isAll_iff.mp ((c.level_erased _).symm ▸ hne))

/-- At the level of all, an erase ends at the level of a half where that is another one. -/
theorem Chip.tklErased_of_all {c : Chip} (hall : c.level = some .protectAll)
    (hne : (c.setProtect .protectHalf).level ≠ some .protectAll) (sectors : List Nat) :
    c.tklErased sectors =
      (c.setProtect .protectHalf).erased sectors := by
  rw [tklErased, lowered, if_pos (isAll_iff.mpr hall)]
  exact if_neg (mt isAll_iff.mp ((level_erased _ _).symm ▸ hne))

/-- Else it erases at that level. -/
theorem Chip.tklErased_of_default {c : Chip} (hall : c.level = some .protectAll)
    (heq : (c.setProtect .protectHalf).level = some .protectAll) (sectors : List Nat) :
    c.tklErased sectors =
      ((c.setProtect .protectHalf).erased sectors).setProtect .protectAll := by
  rw [tklErased, lowered, if_pos (isAll_iff.mpr hall)]
  exact if_pos (isAll_iff.mpr ((level_erased _ _).trans heq))

/-! ## Calls -/

theorem unprotected_iff {b b' : Board} {cmds : List (FlashCmd × Option ProtectType)}
    (h : b'.chip.issued = b.chip.issued ++ cmds) :
    Unprotected b b' ↔ ∀ c ∈ cmds, c.2 ≠ some .protectAll := by
  refine ⟨?_, fun hall => ⟨cmds, h, hall⟩⟩
  rintro ⟨cmds', h', hall⟩
  rw [h, List.append_cancel_left_eq] at h'
  rwa [h']

theorem Chip.tklErased_config (c : Chip) (sectors : List Nat) :
    (c.tklErased sectors).config = c.config := by
  have hlow : c.lowered.config = c.config := by
    rw [lowered]
    split <;> rfl
  have herased := (c.lowered.erased_spec sectors).1
  rw [tklErased]
  split
  · exact herased.trans hlow
  · exact herased.trans hlow

/-- The bytes of the flash after an erase are those of the sectors erased. -/
theorem Chip.tklErased_dev (c : Chip) (addr size : BitVec 32) :
    (c.tklErased (tklEraseSectors addr.toNat size.toNat)).dev =
      Flash.tklFlashErase c.dev addr.toNat size.toNat := by
  have hset (flag : Bool) (c : Chip) (type : ProtectType) :
      (if flag then c.setProtect type else c).dev = c.dev := by
    cases flag with
    | false => rfl
    | true => rfl
  have hlow : c.lowered.dev = c.dev := hset c.isAll c .protectHalf
  rw [Flash.tklFlashErase]
  -- the loop bounds are not to be evaluated
  generalize tklEraseSectors addr.toNat size.toNat = sectors
  have herased : (c.lowered.erased sectors).dev = sectors.foldl flashEraseSector c.lowered.dev :=
    (List.foldl_hom Chip.dev fun _ _ => rfl).symm
  rw [← hlow, ← herased]
  exact hset (c.lowered.erased sectors).isAll (c.lowered.erased sectors) .protectAll

/-- An erase at another level than that of all changes nothing else; at that of all, it ends at
another level, or is made at that level. -/
theorem tklErased_neutral {reg : Registry} {k n : Nat} {chip : Chip} (sectors : List Nat)
    (hc : chip.config ∈ protectConfigDefault :: protectConfig) :
    Unprotected (held reg k n chip) (held reg k n (chip.tklErased sectors)) ∧
        (chip.tklErased sectors).level = chip.level ↔
      chip.level ≠ some .protectAll ∨
        chip.config.protectHalf = chip.config.protectAll ∧ sectors = [] := by
  by_cases hall : chip.level = some .protectAll
  · rw [or_iff_right (not_not.mpr hall), ← Chip.level_setProtect_half hc]
    by_cases heq : (chip.setProtect .protectHalf).level = some .protectAll
    · have hend := Chip.tklErased_of_default hall heq sectors
      obtain ⟨hconfig, -, hissued⟩ := (chip.setProtect .protectHalf).erased_spec sectors
      have hback : (chip.tklErased sectors).level = chip.level := by
        rw [hend, hall]
        refine Chip.level_setProtect_all ?_
        rw [hconfig]
        exact hc
      rw [heq] at hissued
      have hissued' : (held reg k n (chip.tklErased sectors)).chip.issued =
          (held reg k n chip).chip.issued ++
            sectors.map fun a => (.eraseSector a, some .protectAll) := by
        rw [hend]
        exact hissued
      rw [unprotected_iff hissued', and_iff_left hback, and_iff_right heq]
      constructor
      · intro hno
        rw [List.eq_nil_iff_forall_not_mem]
        exact fun a ha => hno _ (List.mem_map_of_mem ha) rfl
      · intro hnil c hcmd
        rw [hnil] at hcmd
        cases hcmd
    · have hend := Chip.tklErased_of_all hall heq sectors
      refine iff_of_false (fun h => heq ?_) fun h => heq h.1
      rw [← Chip.level_erased, ← hend, h.2, hall]
  · have hend := Chip.tklErased_of_ne hall sectors
    obtain ⟨-, -, hissued⟩ := chip.erased_spec sectors
    have hissued' : (held reg k n (chip.tklErased sectors)).chip.issued =
        (held reg k n chip).chip.issued ++ sectors.map fun a => (.eraseSector a, chip.level) := by
      rw [hend]
      exact hissued
    refine iff_of_true ⟨?_, by rw [hend, Chip.level_erased]⟩ (Or.inl hall)
    rw [unprotected_iff hissued']
    intro c hcmd
    obtain ⟨a, -, rfl⟩ := List.mem_map.mp hcmd
    exact hall

/-- What every call returns, and when it is neutral. -/
theorem adapter_held {reg : Registry} {k n : Nat} (h : Registered reg k) {chip : Chip}
    (hc : chip.config ∈ protectConfigDefault :: protectConfig) (hn : n + 2 < 2 ^ 32) (call : Call) :
    ∃ b' o, adapter (held reg k n chip) call = some (b', o) ∧
      (Neutral (held reg k n chip) call b' ↔ NeutralOk (held reg k n chip) call) ∧
      (NeutralOk (held reg k n chip) call →
        ∃ chip', b' = held reg k n chip' ∧ chip'.config = chip.config) := by
  have hsame : Same (held reg k n chip) (held reg k n chip) := ⟨fun _ => rfl, rfl⟩
  have hnone (chip' : Chip) (hissued : chip'.issued = chip.issued) :
      Unprotected (held reg k n chip) (held reg k n chip') :=
    ⟨[], hissued.trans (List.append_nil _).symm, fun c hcmd => absurd hcmd List.not_mem_nil⟩
  cases call with
  | read addr dstNull size =>
    obtain ⟨ret, bytes, hread⟩ :=
      tklFlashRead_held h chip (Nat.lt_of_succ_lt hn) addr dstNull size
    refine ⟨held reg k n chip, (ret, bytes), ?_, ?_, fun _ => ⟨chip, rfl, rfl⟩⟩
    · rw [adapter, hread]
      rfl
    · exact iff_of_true ⟨hnone chip rfl, hsame⟩ trivial
  | write addr src size =>
    cases src with
    | none =>
      refine ⟨held reg k n chip, _, rfl, ?_, fun _ => ⟨chip, rfl, rfl⟩⟩
      exact iff_of_true ⟨hnone chip rfl, hsame⟩ rfl
    | some src =>
      have hno : ¬NeutralOk (held reg k n chip) (.write addr (some src) size) := Option.some_ne_none _
      refine ⟨held reg k (n + 1) (chip.lowered.write src size.toNat addr.toNat), (.ok, []), ?_,
        iff_of_false (fun hneutral => ?_) hno, fun hok => absurd hok hno⟩
      · rw [adapter, tklFlashWrite_held h chip hn]
        rfl
      · have hcnt := hneutral.2.useCnt k
        have hslot (m : Nat) (c : Chip) : ((held reg k m c).tbl k).useCnt = m :=
          congrArg DrvDev.useCnt (table_held h)
        rw [hslot, hslot] at hcnt
        exact Nat.succ_ne_self n hcnt
  | erase addr size =>
    have herase := tklFlashErase_held h chip hn addr size
    have hneutral : NeutralOk (held reg k n chip) (.erase addr size) ↔
        chip.level ≠ some .protectAll ∨ chip.config.protectHalf = chip.config.protectAll ∧
          tklEraseSectors addr.toNat size.toNat = [] := Iff.rfl
    rw [hneutral]
    generalize tklEraseSectors addr.toNat size.toNat = sectors at herase
    refine ⟨held reg k n (chip.tklErased sectors), (.ok, []), ?_, ?_,
      fun _ => ⟨_, rfl, chip.tklErased_config sectors⟩⟩
    · rw [adapter, herase]
      rfl
    · have heff := @tklErased_neutral reg k n chip sectors hc
      rw [← heff]
      exact and_congr_right fun _ => ⟨fun h => h.level, fun h => ⟨fun _ => rfl, h⟩⟩
  | setProtect enable =>
    refine ⟨held reg k n (chip.setProtect (if enable then .protectAll else .protectHalf)),
      (.ok, []), ?_, iff_of_true ⟨hnone _ rfl, trivial⟩ trivial, fun _ => ⟨_, rfl, rfl⟩⟩
    rw [adapter, tklFlashSetProtect_held h chip (Nat.lt_of_succ_lt hn)]
    rfl

/-! ## Runs -/

/-- What `flash_init` leaves. -/
theorem flashInit_ready {reg : Registry} (hf : reg.Fits) (hroom : reg.devs.length < ddMaxDev)
    (hnone : reg.find flashDevName = none) (flashId : Nat) (sr : BitVec 16) (dev : FlashDev) :
    ∃ b reg', flashInit reg.table flashId sr dev = some b ∧ Ready b reg' reg.devs.length ∧
      b.chip.config = flashGetCurrentFlashConfig flashId ∧ b.chip.level = some .protectAll := by
  have hcall : Callable reg.table (.register (some flashDevName) (some flashOp)) := by
    refine ⟨⟨reg.devs.length, hroom⟩, ?_⟩
    simp only [Registry.table_of_le (Nat.le_refl _), and_self]
  obtain ⟨hreg, hfits⟩ := Registry.register_eq hf hcall
  have hmem := flashGetCurrentFlashConfig_mem flashId
  refine ⟨⟨_, (⟨flashGetCurrentFlashConfig flashId, sr, dev, []⟩ : Chip).setProtect .protectAll⟩, _,
    ?_, ⟨hmem, rfl, ⟨hfits, ?_, ?_⟩, ?_⟩, rfl, Chip.level_setProtect_all hmem⟩
  · rw [flashInit, hreg]
    rfl
  · rw [Registry.find] at hnone ⊢
    have hprefix : flashDevName.isPrefixOf flashDevName = true := by decide
    rw [List.findIdx?_append, hnone, List.findIdx?_singleton, if_pos hprefix]
    exact congrArg some (Nat.zero_add _)
  · exact List.getElem?_concat_length
  · change reg.holders reg.devs.length + 2 < 2 ^ 32
    rw [hf.holders_zero _ (Nat.le_refl _)]
    decide

/-- The flash driver is neutral in a run of the adapter. -/
def RunNeutral (b : Board) (calls : List Call) : Prop :=
  (Machine.run adapter b calls).isSome ∧
    ∀ n b₁ os call b' o, Machine.run adapter b (calls.take n) = some (b₁, os) →
      calls[n]? = some call → adapter b₁ call = some (b', o) → Neutral b₁ call b'

/-- The flash is left as it is found, and is not written at the level of all, exactly in the runs
whose steps satisfy `NeutralOk`. -/
theorem neutral_iff {b : Board} {reg : Registry} {k : Nat} (h : Ready b reg k) (calls : List Call) :
    RunNeutral b calls ↔ Machine.Legal adapter NeutralOk b calls := by
  let I (b₁ : Board) : Prop := ∃ chip, b₁ = held reg k (reg.holders k) chip ∧
    chip.config ∈ protectConfigDefault :: protectConfig
  have hstep (b₁ : Board) (call : Call) (hI : I b₁) :
      ∃ b' o, adapter b₁ call = some (b', o) ∧ (Neutral b₁ call b' ↔ NeutralOk b₁ call) ∧
        (NeutralOk b₁ call → I b') := by
    obtain ⟨chip, rfl, hc⟩ := hI
    obtain ⟨b', o, hb', hiff, hkeep⟩ := adapter_held h.registered hc h.holders call
    refine ⟨b', o, hb', hiff, fun hok => ?_⟩
    obtain ⟨chip', hchip', hconfig⟩ := hkeep hok
    exact ⟨chip', hchip', hconfig ▸ hc⟩
  have hinit : I b := ⟨b.chip, h.held_eq, h.chip⟩
  have hiff : (∀ n b₁ os call b' o, Machine.run adapter b (calls.take n) = some (b₁, os) →
      calls[n]? = some call → adapter b₁ call = some (b', o) → Neutral b₁ call b') ↔
      Machine.Legal adapter NeutralOk b calls := by
    refine Machine.steps_iff_legal (I := I) (fun b₁ call b' o hI hok h' => ?_)
      (fun b₁ call hI => ?_) hinit
    · obtain ⟨b₂, o₂, h₂, -, hkeep⟩ := hstep b₁ call hI
      rw [h₂] at h'
      cases h'
      exact hkeep hok
    · obtain ⟨b₂, o₂, h₂, hneutral, -⟩ := hstep b₁ call hI
      rw [← hneutral]
      refine ⟨fun hall => hall b₂ o₂ h₂, fun hn b' o h' => ?_⟩
      rw [h₂] at h'
      cases h'
      exact hn
  refine ⟨fun hrun => hiff.mp hrun.2, fun hl => ⟨?_, hiff.mpr hl⟩⟩
  obtain ⟨b', os, hrun, -⟩ := Machine.run_total (I := fun b₁ _ => I b₁)
    (fun b₁ os call hI hok => by
      obtain ⟨b₂, o₂, h₂, -, hkeep⟩ := hstep b₁ call hI
      exact ⟨b₂, o₂, h₂, hkeep hok⟩) hinit hl
  rw [hrun]
  rfl

/-- An empty flash of 2 MB. -/
def blankDev : FlashDev := ⟨0x200000, twoMegabytes_lt, fun _ => 0xFF⟩

theorem neutral_init : ∃ b, flashInit drvModelInit 0xC84015 0 blankDev = some b ∧
    ∀ calls, RunNeutral b calls ↔ Machine.Legal adapter NeutralOk b calls := by
  obtain ⟨b, reg, hinit, hready, -⟩ := flashInit_ready Registry.fits_empty (by decide) rfl
    0xC84015 0 blankDev
  exact ⟨b, hinit, neutral_iff hready⟩

/-- An erase at the level of all leaves the level of a half. -/
theorem neutral_erase : ¬ ∀ b reg k, Ready b reg k → ∀ calls, RunNeutral b calls := by
  intro hall
  obtain ⟨b, reg, -, hready, hconfig, hlevel⟩ := flashInit_ready Registry.fits_empty (by decide) rfl
    0xC84015 0 blankDev
  obtain ⟨b', o, hstep, hiff, -⟩ :=
    adapter_held hready.registered hready.chip hready.holders (.erase 0 4096)
  rw [← hready.held_eq] at hstep hiff
  have hneutral := (hall b reg _ hready [.erase 0 4096]).2 0 b [] _ b' o rfl rfl hstep
  rcases hiff.mp hneutral with hne | ⟨heq, -⟩
  · exact hne hlevel
  · rw [hconfig] at heq
    revert heq
    decide

end TuyaSdk.Flash.Adapter
