import TuyaSdk.Flash.Driver

/-!
# The flash device and the layers over it

The operations of the flash driver behind the device handle (`flash_read`, `flash_write`,
the erase command), and the two interfaces the rest of the firmware uses: the adapter
functions `tkl_flash_*`, by absolute address, and `bk_flash_*`, by logic partition.
-/

namespace TuyaSdk.Flash
open TuyaSdk.Lib

/-! ## The driver's operations -/

/-- `flash_read`: the bytes stored through `user_buf`. -/
def flashRead (dev : FlashDev) (count address : Nat) : List Byte :=
  (flashReadData dev address count).get (flashReadData_isSome dev address count)

/-- `flash_write`. -/
def flashWrite (dev : FlashDev) (userBuf : Nat → Byte) (count address : Nat) : FlashDev :=
  (flashWriteData dev userBuf address count).get (flashWriteData_isSome dev userBuf address count)

/-- `flash_erase_sector`: `address & 0xFFF000` is the sector that is erased. -/
def flashEraseSector (dev : FlashDev) (address : Nat) : FlashDev :=
  let eraseAddr := address / 4096 % 4096 * 4096
  if dev.size ≤ eraseAddr then dev
  else { dev with cells := Nor.erase dev.cells eraseAddr 4096 }

theorem flashRead_eq {dev : FlashDev} {count address : Nat} (h : address + count ≤ 2 ^ 32)
    (hc : count < 2 ^ 32) : flashRead dev count address = readBytes dev.cells address count := by
  apply Option.some.inj
  rw [flashRead, Option.some_get, flashReadData_spec h hc]

theorem flashWrite_eq {dev : FlashDev} {userBuf : Nat → Byte} {count address : Nat}
    (h : address + count ≤ dev.size) :
    flashWrite dev userBuf count address = programmed dev userBuf address count := by
  apply Option.some.inj
  rw [flashWrite, Option.some_get, flashWriteData_run h]

/-- Whatever its range, a write either leaves the device as it is or programs the range. -/
theorem flashWrite_cases (dev : FlashDev) (userBuf : Nat → Byte) {count address : Nat}
    (h : address + count ≤ 2 ^ 32) (hc : count < 2 ^ 32) :
    flashWrite dev userBuf count address = dev ∨
      flashWrite dev userBuf count address = programmed dev userBuf address count := by
  have heq : flashWrite dev userBuf count address =
      if Refused dev address count then dev else programmed dev userBuf address count := by
    apply Option.some.inj
    rw [flashWrite, Option.some_get, flashWriteData_eq h hc]
  rw [heq]
  by_cases hguard : Refused dev address count
  · exact Or.inl (if_pos hguard)
  · exact Or.inr (if_neg hguard)

theorem flashWrite_size (dev : FlashDev) (userBuf : Nat → Byte) {count address : Nat}
    (h : address + count ≤ 2 ^ 32) (hc : count < 2 ^ 32) :
    (flashWrite dev userBuf count address).size = dev.size := by
  rcases flashWrite_cases dev userBuf h hc with heq | heq
  · rw [heq]
  · rw [heq]
    rfl

theorem flashWrite_outside (dev : FlashDev) (userBuf : Nat → Byte) {count address x : Nat}
    (h : address + count ≤ 2 ^ 32) (hc : count < 2 ^ 32) (hx : x < address ∨ address + count ≤ x) :
    (flashWrite dev userBuf count address).cells x = dev.cells x := by
  rcases flashWrite_cases dev userBuf h hc with heq | heq
  · rw [heq]
  · rw [heq]
    exact Nor.program_outside hx

theorem flashEraseSector_size (dev : FlashDev) (address : Nat) :
    (flashEraseSector dev address).size = dev.size := by
  simp only [flashEraseSector]
  split
  · rfl
  · rfl

/-- Erasing keeps erased cells erased. -/
theorem flashEraseSector_blank {dev : FlashDev} {address x : Nat} (h : dev.cells x = Nor.blank) :
    (flashEraseSector dev address).cells x = Nor.blank := by
  simp only [flashEraseSector]
  split
  · exact h
  · simp only [Nor.erase]
    split
    · rfl
    · exact h

/-- The devices have the same cells outside `[lo, hi)`. -/
structure SameOutside (lo hi : Nat) (dev dev' : FlashDev) : Prop where
  size : dev'.size = dev.size
  cells : ∀ x, x < lo ∨ hi ≤ x → dev'.cells x = dev.cells x

theorem SameOutside.refl (lo hi : Nat) (dev : FlashDev) : SameOutside lo hi dev dev :=
  ⟨rfl, fun _ _ => rfl⟩

theorem SameOutside.trans {lo hi : Nat} {dev dev' dev'' : FlashDev}
    (h : SameOutside lo hi dev dev') (h' : SameOutside lo hi dev' dev'') :
    SameOutside lo hi dev dev'' :=
  ⟨h'.size.trans h.size, fun x hx => (h'.cells x hx).trans (h.cells x hx)⟩

theorem flashEraseSector_eq {dev : FlashDev} {a : Nat} (ha : a % 4096 = 0)
    (hdev : a + 4096 ≤ dev.size) (hmask : a + 4096 ≤ 2 ^ 24) :
    flashEraseSector dev a = { dev with cells := Nor.erase dev.cells a 4096 } := by
  have haddr : a / 4096 % 4096 * 4096 = a := by omega
  simp only [flashEraseSector, haddr]
  exact if_neg (by omega)

theorem flashEraseSector_outside {dev : FlashDev} {a x : Nat} (hx : a + 4096 ≤ x) :
    (flashEraseSector dev a).cells x = dev.cells x := by
  simp only [flashEraseSector]
  split
  · rfl
  · exact Nor.erase_outside (by omega)

/-- A sector erased and written from its start on. -/
theorem flashWrite_eraseSector {dev : FlashDev} {a n : Nat} (ha : a % 4096 = 0)
    (hdev : a + 4096 ≤ dev.size) (hmask : a + 4096 ≤ 2 ^ 24) (hn : n ≤ 4096) (buf : Mem) :
    (flashWrite (flashEraseSector dev a) buf n a).size = dev.size ∧
      (∀ x, x < a ∨ a + 4096 ≤ x →
        (flashWrite (flashEraseSector dev a) buf n a).cells x = dev.cells x) ∧
      ∀ i < n, (flashWrite (flashEraseSector dev a) buf n a).cells (a + i) = buf i := by
  rw [flashEraseSector_eq ha hdev hmask, flashWrite_eq (by simp only; omega), programmed]
  refine ⟨rfl, fun x hx => ?_, fun i hi => ?_⟩
  · simp only
    rw [Nor.program_outside (by omega), Nor.erase_outside hx]
  · simp only
    rw [Nor.program_erased (Nor.erased_erase.mono (Nat.le_refl _) (by omega)) (by omega) (by omega),
      Nat.add_sub_cancel_left]

/-- The sectors `a, …, a + n - 1` counted from `base` erased in order. -/
theorem eraseSectors_eq (dev : FlashDev) (base a n : Nat) (hb : base % 4096 = 0)
    (hsize : base + 4096 * (a + n) ≤ dev.size) (hmask : base + 4096 * (a + n) ≤ 2 ^ 24) :
    ((List.range' a n).map fun i => base + 4096 * i).foldl flashEraseSector dev =
      { dev with cells := Nor.erase dev.cells (base + 4096 * a) (4096 * n) } := by
  induction n generalizing dev a with
  | zero => simp
  | succ n ih =>
    obtain ⟨dev₁, hdev₁⟩ : ∃ dev₁ : FlashDev,
      dev₁ = { dev with cells := Nor.erase dev.cells (base + 4096 * a) 4096 } := ⟨_, rfl⟩
    have hsize₁ : dev₁.size = dev.size := by rw [hdev₁]
    have hsector : flashEraseSector dev (base + 4096 * a) = dev₁ := by
      have haddr : (base + 4096 * a) / 4096 % 4096 * 4096 = base + 4096 * a := by omega
      simp only [flashEraseSector, haddr]
      rw [if_neg (by omega), hdev₁]
    have hnext : base + 4096 * (a + 1) = base + 4096 * a + 4096 := by
      rw [Nat.mul_add, Nat.mul_one, Nat.add_assoc]
    have hlen : 4096 * (n + 1) = 4096 + 4096 * n := by
      rw [Nat.mul_add, Nat.mul_one, Nat.add_comm]
    rw [List.range'_succ, List.map_cons, List.foldl_cons, hsector,
      ih dev₁ (a + 1) (by rw [hsize₁]; omega) (by omega), hdev₁]
    simp only
    rw [hnext, Nor.erase_add, hlen]

/-! ## The adapter: `tkl_flash_*` -/

/-- The sector addresses the loop of `tkl_flash_erase` goes through: `start_sec` and
`end_sec` are 16-bit. -/
def tklEraseSectors (addr size : Nat) : List Nat :=
  let startSec := addr / 4096 % 2 ^ 16
  let endSec := sub32 (addr + size) 1 / 4096 % 2 ^ 16
  (List.range' startSec (endSec + 1 - startSec)).map fun i => 4096 * i

/-- `tkl_flash_erase`. -/
def tklFlashErase (dev : FlashDev) (addr size : Nat) : FlashDev :=
  (tklEraseSectors addr size).foldl flashEraseSector dev

/-- `tkl_flash_read` into a buffer: the bytes stored through `dst`. -/
def tklFlashRead (dev : FlashDev) (addr size : Nat) : List Byte := flashRead dev size addr

/-- `tkl_flash_write` from a buffer. -/
def tklFlashWrite (dev : FlashDev) (addr : Nat) (src : Nat → Byte) (size : Nat) : FlashDev :=
  flashWrite dev src size addr

theorem tklFlashErase_size (dev : FlashDev) (addr size : Nat) :
    (tklFlashErase dev addr size).size = dev.size := by
  unfold tklFlashErase
  generalize tklEraseSectors addr size = sectors
  induction sectors generalizing dev with
  | nil => rfl
  | cons a sectors ih =>
    rw [List.foldl_cons, ih]
    exact flashEraseSector_size dev a

/-- For a range of the first 16 MB that starts on a sector, the loop goes through the
sectors that meet the range. -/
theorem tklEraseSectors_eq {addr size : Nat} (ha : addr % 4096 = 0) (h : addr + size ≤ 2 ^ 24)
    (hpos : 0 < addr + size) : tklEraseSectors addr size =
      (List.range' (addr / 4096) ((size + 4095) / 4096)).map fun i => 4096 * i := by
  have hsub : sub32 (addr + size) 1 = addr + size - 1 := sub32_of_le (by omega) (by omega)
  unfold tklEraseSectors
  simp only [hsub]
  have hstart : addr / 4096 % 2 ^ 16 = addr / 4096 := by omega
  have hcount : (addr + size - 1) / 4096 % 2 ^ 16 + 1 - addr / 4096 = (size + 4095) / 4096 := by
    omega
  rw [hstart, hcount]

theorem mem_tklEraseSectors {addr size a : Nat} (ha : addr % 4096 = 0) (h : addr + size ≤ 2 ^ 24)
    (hpos : 0 < addr + size) (hm : a ∈ tklEraseSectors addr size) :
    addr ≤ a ∧ a + 4096 ≤ addr + (size + 4095) / 4096 * 4096 := by
  rw [tklEraseSectors_eq ha h hpos, List.mem_map] at hm
  obtain ⟨i, hi, rfl⟩ := hm
  have hi := List.mem_range'_1.mp hi
  omega

theorem tklFlashErase_eq {dev : FlashDev} {addr size : Nat} (ha : addr % 4096 = 0)
    (hs : addr + (size + 4095) / 4096 * 4096 ≤ dev.size)
    (h : addr + (size + 4095) / 4096 * 4096 ≤ 2 ^ 24) (hpos : 0 < addr + size) :
    tklFlashErase dev addr size =
      { dev with cells := Nor.erase dev.cells addr (4096 * ((size + 4095) / 4096)) } := by
  have hstart : 4096 * (addr / 4096) = addr := by omega
  have heq := eraseSectors_eq dev 0 (addr / 4096) ((size + 4095) / 4096) rfl (by omega) (by omega)
  simp only [Nat.zero_add, hstart] at heq
  rw [tklFlashErase, tklEraseSectors_eq ha (by omega) hpos, heq]

/-! ## Logic partitions: `bk_flash_*` -/

/-- The partitions of `bk7231_partitions`. -/
inductive BkPartition where
  | bootloader
  | application
  | ota
  | rfFirmware
  | netParam
  deriving DecidableEq, Repr

/-- `partition_start_addr`. -/
def BkPartition.startAddr : BkPartition → Nat
  | .bootloader => 0x00000000
  | .application => 0x11000
  | .ota => 0x12A000
  | .rfFirmware => 0x1D0000
  | .netParam => 0x1D1000

/-- `partition_length`. -/
def BkPartition.length : BkPartition → Nat
  | .bootloader => 0x11000
  | .application => 0x121000
  | .ota => 0xA6000
  | .rfFirmware => 0x1000
  | .netParam => 0x1000

/-- The sector addresses the loop of `bk_flash_erase` goes through. -/
def bkEraseSectors (inPartition : BkPartition) (offSet size : Nat) : List Nat :=
  let startSector := offSet / 4096
  let endSector := sub32 (offSet + size) 1 / 4096
  (List.range' startSector (endSector + 1 - startSector)).map fun i =>
    u32 (inPartition.startAddr + 4096 * i)

/-- `bk_flash_erase`. -/
def bkFlashErase (dev : FlashDev) (inPartition : BkPartition) (offSet size : Nat) : FlashDev :=
  (bkEraseSectors inPartition offSet size).foldl flashEraseSector dev

/-- `bk_flash_write` from a buffer. -/
def bkFlashWrite (dev : FlashDev) (inPartition : BkPartition) (offSet : Nat)
    (inBuffer : Nat → Byte) (inBufferLength : Nat) : FlashDev :=
  flashWrite dev inBuffer inBufferLength (u32 (inPartition.startAddr + offSet))

theorem BkPartition.startAddr_sector (p : BkPartition) : p.startAddr % 4096 = 0 := by
  cases p <;> rfl

theorem BkPartition.end_le (p : BkPartition) : p.startAddr + p.length ≤ 0x1D2000 := by
  cases p <;> decide

/-- Erasing the start of a partition erases the sectors the range meets. -/
theorem bkFlashErase_eq {dev : FlashDev} {p : BkPartition} {size : Nat}
    (hdev : p.startAddr + p.length ≤ dev.size) (hpos : 0 < size)
    (hs : (size + 4095) / 4096 * 4096 ≤ p.length) :
    bkFlashErase dev p 0 size =
      { dev with
        cells := Nor.erase dev.cells p.startAddr (4096 * ((size + 4095) / 4096)) } := by
  have hend := p.end_le
  have hsub : sub32 (0 + size) 1 = size - 1 := by
    rw [Nat.zero_add]
    exact sub32_of_le (by omega) (by omega)
  have hcount : (size - 1) / 4096 + 1 - 0 / 4096 = (size + 4095) / 4096 := by omega
  have hsectors : bkEraseSectors p 0 size =
      (List.range' 0 ((size + 4095) / 4096)).map fun i => p.startAddr + 4096 * i := by
    unfold bkEraseSectors
    simp only [hsub, hcount, Nat.zero_div]
    apply List.map_congr_left
    intro i hi
    have hi := List.mem_range'_1.mp hi
    exact u32_of_lt (by omega)
  have heq := eraseSectors_eq dev p.startAddr 0 ((size + 4095) / 4096) p.startAddr_sector
    (by omega) (by omega)
  rw [bkFlashErase, hsectors, heq]
  rfl

end TuyaSdk.Flash
