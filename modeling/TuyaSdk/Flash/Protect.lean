import TuyaSdk.Flash.Device

/-!
# The write protection of the flash

`get_flash_protect` and `set_flash_protect` of the flash driver. A chip keeps its protection in bits
of its status register; which bits and which values stand for which level is in the table of the
chips that the driver knows.
-/

namespace TuyaSdk.Flash
open TuyaSdk.Lib

/-- `PROTECT_TYPE` -/
inductive ProtectType
  | protectNone
  | protectAll
  | protectHalf
  | unprotectLastBlock
  deriving DecidableEq, Repr

/-- `flash_config_t`, as far as the protection goes. No chip of the table has line mode 4, for which
the driver changes the mode around each operation. -/
structure FlashConfig where
  flashId : Nat
  srSize : Nat
  cmpPost : Nat
  protectPost : Nat
  protectMask : BitVec 16
  protectAll : BitVec 16
  protectNone : BitVec 16
  protectHalf : BitVec 16
  unprotectLastBlock : BitVec 16
  deriving DecidableEq

/-- `flash_config` before its last entry, less the sizes. -/
def protectConfig : List FlashConfig :=
  [⟨0x1C7016, 1, 0, 2, 0x1F, 0x1F, 0x00, 0x16, 0x01B⟩,
    ⟨0x1C7015, 1, 0, 2, 0x1F, 0x1F, 0x00, 0x0D, 0x00D⟩,
    ⟨0x0B4014, 2, 14, 2, 0x1F, 0x1F, 0x00, 0x0C, 0x101⟩,
    ⟨0x0B4015, 2, 14, 2, 0x1F, 0x1F, 0x00, 0x0D, 0x101⟩,
    ⟨0x0B4016, 2, 14, 2, 0x1F, 0x1F, 0x00, 0x0E, 0x101⟩,
    ⟨0x0E4016, 2, 14, 2, 0x1F, 0x1F, 0x00, 0x0E, 0x101⟩,
    ⟨0xC84015, 2, 14, 2, 0x1F, 0x1F, 0x00, 0x0D, 0x101⟩,
    ⟨0xC84016, 2, 14, 2, 0x1F, 0x1F, 0x00, 0x0E, 0x101⟩,
    ⟨0xC86015, 2, 14, 2, 0x1F, 0x1F, 0x00, 0x0D, 0x101⟩,
    ⟨0xEF4016, 2, 14, 2, 0x1F, 0x1F, 0x00, 0x00, 0x101⟩,
    ⟨0x204016, 2, 14, 2, 0x1F, 0x1F, 0x00, 0x0E, 0x101⟩,
    ⟨0xC22315, 1, 0, 2, 0x0F, 0x0F, 0x00, 0x0A, 0x00E⟩,
    ⟨0xEB6015, 2, 14, 2, 0x1F, 0x1F, 0x00, 0x0D, 0x101⟩]

/-- The last entry of `flash_config`, for a chip that the driver does not know. -/
def protectConfigDefault : FlashConfig := ⟨0, 2, 0, 2, 0x1F, 0, 0, 0, 0⟩

/-- `flash_get_current_flash_config` -/
def flashGetCurrentFlashConfig (flashId : Nat) : FlashConfig :=
  (protectConfig.find? fun c => flashId = c.flashId).getD protectConfigDefault

/-! ## The status register -/

/-- `flash_read_sr` -/
def flashReadSr (srWidth : Nat) (sr : BitVec 16) : BitVec 16 :=
  if srWidth = 2 then sr else sr &&& 0x00FF

/-- `flash_write_sr` of `val`. -/
def flashWriteSr (srWidth : Nat) (val sr : BitVec 16) : BitVec 16 :=
  if srWidth = 1 then (sr &&& 0xFF00) ||| (val &&& 0x00FF)
  else if srWidth = 2 then val
  else sr

/-- The level that `get_flash_protect` takes a value for; `none` is -1. -/
def FlashConfig.level (c : FlashConfig) (value : BitVec 16) : Option ProtectType :=
  if value = c.protectAll then some .protectAll
  else if value = c.protectNone then some .protectNone
  else if value = c.protectHalf then some .protectHalf
  else if value = c.unprotectLastBlock then some .unprotectLastBlock
  else none

/-- The value of a level. -/
def FlashConfig.value (c : FlashConfig) : ProtectType → BitVec 16
  | .protectNone => c.protectNone
  | .protectAll => c.protectAll
  | .protectHalf => c.protectHalf
  | .unprotectLastBlock => c.unprotectLastBlock

/-- The value that `get_flash_protect` puts together. -/
def FlashConfig.fields (c : FlashConfig) (sr : BitVec 16) : BitVec 16 :=
  let srValue := flashReadSr c.srSize sr
  let param := (srValue >>> c.protectPost) &&& c.protectMask
  let cmp := (srValue >>> c.cmpPost) &&& 1#16
  (cmp <<< 8) ||| param

/-- `get_flash_protect` -/
def getFlashProtect (c : FlashConfig) (sr : BitVec 16) : Option ProtectType := c.level (c.fields sr)

/-- `set_flash_protect` -/
def setFlashProtect (c : FlashConfig) (type : ProtectType) (sr : BitVec 16) : BitVec 16 :=
  let param : BitVec 32 := (c.value type &&& 0xff).setWidth 32
  let cmp : BitVec 32 := ((c.value type >>> 8) &&& 0xff).setWidth 32
  let mask : BitVec 32 := c.protectMask.setWidth 32
  let value : BitVec 32 := (flashReadSr c.srSize sr).setWidth 32
  if param <<< c.protectPost ≠ value &&& (mask <<< c.protectPost) ∨
      cmp <<< c.cmpPost ≠ value &&& (1#32 <<< c.cmpPost) then
    let value := (value &&& ~~~(mask <<< c.protectPost)) ||| (param <<< c.protectPost)
    let value := value &&& ~~~(1#32 <<< c.cmpPost)
    let value := value ||| ((cmp &&& 1#32) <<< c.cmpPost)
    flashWriteSr c.srSize (value.setWidth 16) sr
  else sr

/-! ## Levels that are set are read -/

/-- The fields of a chip do not overlap, and its values fit into them. -/
structure FlashConfig.Fits (c : FlashConfig) : Prop where
  srSize : c.srSize = 1 ∨ c.srSize = 2
  cmpPost : c.cmpPost < 8 * c.srSize
  mask : ∀ i : Fin 16, c.protectMask.getLsbD i →
    i.val < 8 ∧ c.protectPost + i < 8 * c.srSize ∧ c.protectPost + i ≠ c.cmpPost
  value : ∀ type ∈ [ProtectType.protectNone, .protectAll, .protectHalf, .unprotectLastBlock],
    ∀ i : Fin 16, (c.value type).getLsbD i → i.val = 8 ∨ c.protectMask.getLsbD i

instance (c : FlashConfig) : Decidable c.Fits :=
  decidable_of_iff (_ ∧ _ ∧ _ ∧ _)
    ⟨fun h => ⟨h.1, h.2.1, h.2.2.1, h.2.2.2⟩, fun h => ⟨h.1, h.2, h.3, h.4⟩⟩

theorem flashGetCurrentFlashConfig_mem (flashId : Nat) :
    flashGetCurrentFlashConfig flashId ∈ protectConfigDefault :: protectConfig := by
  rw [flashGetCurrentFlashConfig]
  cases h : protectConfig.find? fun c => decide (flashId = c.flashId) with
  | none => exact List.mem_cons_self
  | some c => exact List.mem_cons_of_mem _ (List.mem_of_find?_eq_some h)

theorem protectConfig_fits : ∀ c ∈ protectConfigDefault :: protectConfig, c.Fits := by
  decide +kernel

theorem getLsbD_readSr {c : FlashConfig} (h : c.Fits) {j : Nat} (hj : j < 8 * c.srSize)
    (sr : BitVec 16) : (flashReadSr c.srSize sr).getLsbD j = sr.getLsbD j := by
  rw [flashReadSr]
  rcases h.srSize with h1 | h2
  · rw [h1] at hj ⊢
    have hbit : ∀ i : Fin 8, (0x00FF : BitVec 16).getLsbD i = true := by decide
    rw [if_neg (by decide), BitVec.getLsbD_and, hbit ⟨j, by omega⟩, Bool.and_true]
  · rw [if_pos h2]

theorem getLsbD_writeSr {c : FlashConfig} (h : c.Fits) {j : Nat} (hj : j < 8 * c.srSize)
    (val sr : BitVec 16) : (flashWriteSr c.srSize val sr).getLsbD j = val.getLsbD j := by
  rw [flashWriteSr]
  rcases h.srSize with h1 | h2
  · rw [h1] at hj ⊢
    have hlow : ∀ i : Fin 8, (0x00FF : BitVec 16).getLsbD i = true := by decide
    have hhigh : ∀ i : Fin 8, (0xFF00 : BitVec 16).getLsbD i = false := by decide
    rw [if_pos rfl, BitVec.getLsbD_or, BitVec.getLsbD_and, BitVec.getLsbD_and,
      hlow ⟨j, by omega⟩, hhigh ⟨j, by omega⟩]
    simp
  · rw [h2, if_neg (by decide), if_pos rfl]

theorem getLsbD_one (i : Nat) {w : Nat} (hw : 0 < w) : (1#w).getLsbD i = decide (i = 0) := by
  simp [BitVec.getLsbD_one, hw]

/-- Bit 8 of the value read is the bit at `cmp_post`, the others are those of the mask. -/
theorem getLsbD_fields {c : FlashConfig} (h : c.Fits) (sr : BitVec 16) (i : Fin 16) :
    (c.fields sr).getLsbD i =
      if i.val = 8 then sr.getLsbD c.cmpPost
      else c.protectMask.getLsbD i && sr.getLsbD (c.protectPost + i) := by
  have hi := i.isLt
  simp only [FlashConfig.fields, BitVec.getLsbD_or, BitVec.getLsbD_shiftLeft, BitVec.getLsbD_and,
    BitVec.getLsbD_ushiftRight]
  have hmask : c.protectMask.getLsbD i = true →
      (flashReadSr c.srSize sr).getLsbD (c.protectPost + i) = sr.getLsbD (c.protectPost + i) :=
    fun hm => getLsbD_readSr h (h.mask i hm).2.1 sr
  by_cases h8 : i.val = 8
  · have hno : c.protectMask.getLsbD i = false := by
      rw [← Bool.not_eq_true]
      intro hm
      have := (h.mask i hm).1
      omega
    rw [if_pos h8, hno, h8]
    simp [getLsbD_readSr h h.cmpPost]
  · rw [if_neg h8, getLsbD_one _ (by decide)]
    cases hm : c.protectMask.getLsbD i with
    | false =>
      simp
      omega
    | true =>
      rw [hmask hm]
      simp
      omega

/-- The bits of the value of a level. -/
theorem getLsbD_param (value : BitVec 16) {i : Nat} (hi : i < 8) :
    ((value &&& 0xff).setWidth 32).getLsbD i = value.getLsbD i := by
  have hbit : ∀ i : Fin 8, (0xff : BitVec 16).getLsbD i = true := by decide
  rw [BitVec.getLsbD_setWidth, BitVec.getLsbD_and, hbit ⟨i, hi⟩, Bool.and_true]
  simp
  omega

theorem getLsbD_cmp (value : BitVec 16) :
    (((value >>> 8) &&& 0xff).setWidth 32).getLsbD 0 = value.getLsbD 8 := by
  rw [getLsbD_param _ (by decide), BitVec.getLsbD_ushiftRight]

/-- A level that is set is read back. -/
theorem fields_setFlashProtect {c : FlashConfig} (h : c.Fits) (type : ProtectType)
    (sr : BitVec 16) : c.fields (setFlashProtect c type sr) = c.value type := by
  have hcmpPost : c.cmpPost < 16 := by
    have := h.cmpPost
    rcases h.srSize with h1 | h2 <;> omega
  have hvalue : ∀ i : Fin 16, (c.value type).getLsbD i → i.val = 8 ∨ c.protectMask.getLsbD i :=
    h.value type (by cases type <;> decide)
  have hcmp : (setFlashProtect c type sr).getLsbD c.cmpPost = (c.value type).getLsbD 8 := by
    rw [← getLsbD_cmp, setFlashProtect]
    split
    · rw [getLsbD_writeSr h h.cmpPost]
      simp [hcmpPost]
    · next heq =>
      simp only [not_or, not_not] at heq
      have hbit := congrArg (fun w => BitVec.getLsbD w c.cmpPost) heq.2
      simp only [BitVec.getLsbD_shiftLeft, BitVec.getLsbD_and, Nat.sub_self, lt_irrefl,
        decide_false, Bool.not_false, Bool.and_true] at hbit
      rw [← getLsbD_readSr h h.cmpPost]
      simpa [show c.cmpPost < 32 by omega, hcmpPost] using hbit.symm
  have hparam : ∀ i : Fin 16, c.protectMask.getLsbD i →
      (setFlashProtect c type sr).getLsbD (c.protectPost + i) = (c.value type).getLsbD i := by
    intro i hi
    obtain ⟨hlow, hpos, hne⟩ := h.mask i hi
    have hpos' : c.protectPost + i < 16 := by
      rcases h.srSize with h1 | h2 <;> omega
    have hpos32 : c.protectPost + i < 32 := by omega
    have hi32 : i.val < 32 := by omega
    have hi' : c.protectMask[i.val] = true := by rwa [BitVec.getLsbD_eq_getElem] at hi
    rw [← getLsbD_param _ hlow, setFlashProtect]
    generalize (c.value type &&& 0xff).setWidth 32 = param
    split
    · rw [getLsbD_writeSr h hpos]
      have hone : (1#32 <<< c.cmpPost).getLsbD (c.protectPost + i) = false := by
        rw [BitVec.getLsbD_shiftLeft, getLsbD_one _ (by decide)]
        simp
        omega
      have hcmp1 (w : BitVec 32) :
          ((w &&& 1#32) <<< c.cmpPost).getLsbD (c.protectPost + i) = false := by
        rw [BitVec.getLsbD_shiftLeft, BitVec.getLsbD_and, getLsbD_one _ (by decide)]
        simp
        omega
      simp only [BitVec.getLsbD_setWidth, BitVec.getLsbD_or, BitVec.getLsbD_and, BitVec.getLsbD_not,
        hone, hcmp1]
      simp [hi', hpos', hpos32, hi32]
    · next heq =>
      simp only [not_or, not_not] at heq
      have hbit := congrArg (fun w => BitVec.getLsbD w (c.protectPost + i)) heq.1
      rw [← getLsbD_readSr h hpos]
      simp only [BitVec.getLsbD_setWidth, BitVec.getLsbD_and, BitVec.getLsbD_shiftLeft,
        Nat.add_sub_cancel_left, hi, hpos32, hi32] at hbit ⊢
      simpa using hbit.symm
  apply BitVec.eq_of_getLsbD_eq
  intro i hi
  rw [getLsbD_fields h _ ⟨i, hi⟩]
  split
  · next h8 => rw [hcmp, show i = 8 from h8]
  · next h8 =>
    cases hm : c.protectMask.getLsbD i with
    | false =>
      rw [Bool.false_and, eq_comm, ← Bool.not_eq_true]
      intro hv
      rcases hvalue ⟨i, hi⟩ hv with h' | h'
      · exact h8 h'
      · exact absurd (h'.symm.trans hm) (by decide)
    | true => rw [Bool.true_and, hparam ⟨i, hi⟩ hm]

/-- A level that is set is read back, as the first level with its value. -/
theorem get_setFlashProtect {c : FlashConfig} (h : c.Fits) (type : ProtectType) (sr : BitVec 16) :
    getFlashProtect c (setFlashProtect c type sr) = c.level (c.value type) := by
  rw [getFlashProtect, fields_setFlashProtect h]

end TuyaSdk.Flash
