import TuyaSdk.Flash.Device

/-!
# The commands to the flash chip

What the driver asks of the chip, by address: the sector erases behind `tkl_flash_erase` and
`bk_flash_erase`, and the line reads and page programs of `flash_write_data`. The size of the chip
is that of its entry in `flash_config`.
-/

namespace TuyaSdk.Flash
open TuyaSdk.Lib

/-! ## The size of the chip -/

/-- `flash_id` and `flash_size` of the entries of `flash_config`, but for the last. -/
def flashConfig : List (Nat × Nat) := [
  (0x1C7016, 0x400000), (0x1C7015, 0x200000), (0x0B4014, 0x100000), (0x0B4015, 0x200000),
  (0x0B4016, 0x400000), (0x0E4016, 0x400000), (0xC84015, 0x200000), (0xC84016, 0x400000),
  (0xC86015, 0x200000), (0xEF4016, 0x400000), (0x204016, 0x400000), (0xC22315, 0x200000),
  (0xEB6015, 0x200000)]

/-- `flash_current_config->flash_size`, as `flash_get_current_flash_config` chooses it. -/
def currentFlashSize (flashId : Nat) : Nat :=
  match flashConfig.find? fun c => c.1 = flashId with
  | some c => c.2
  | none => 0x400000

/-- The device has the size of a chip that the driver knows, or the default. -/
def FlashDev.Configured (dev : FlashDev) : Prop := ∃ flashId, dev.size = currentFlashSize flashId

theorem FlashDev.Configured.size {dev : FlashDev} (h : dev.Configured) :
    dev.size % 4096 = 0 ∧ 0 < dev.size ∧ dev.size ≤ 0x400000 := by
  obtain ⟨flashId, hsize⟩ := h
  have hall : ∀ c ∈ flashConfig, c.2 % 4096 = 0 ∧ 0 < c.2 ∧ c.2 ≤ 0x400000 := by decide
  rw [hsize, currentFlashSize]
  cases hc : flashConfig.find? fun c => c.1 = flashId with
  | none => decide
  | some c => exact hall c (List.mem_of_find?_eq_some hc)

/-! ## Erases -/

/-- `erase_addr` of `flash_erase_sector`. -/
def eraseAddr (address : Nat) : Nat := address / 4096 % 4096 * 4096

/-- The sectors that the chip is told to erase, in order. -/
def eraseCommands (dev : FlashDev) (addrs : List Nat) : List Nat :=
  (addrs.map eraseAddr).filter fun a => a < dev.size

/-- The chip is told to erase each sector that meets the `size` bytes from `lo` on, once, and no
other. -/
def Erases (dev : FlashDev) (addrs : List Nat) (lo size : Nat) : Prop :=
  (eraseCommands dev addrs).Nodup ∧ ∀ a, a ∈ eraseCommands dev addrs ↔
    a % 4096 = 0 ∧ ∃ x, lo ≤ x ∧ x < lo + size ∧ a ≤ x ∧ x < a + 4096

section

variable {dev : FlashDev} {addrs : List Nat} {off size : Nat}

/-- The erases are the commands one after the other. -/
theorem foldl_flashEraseSector (dev : FlashDev) (addrs : List Nat) :
    addrs.foldl flashEraseSector dev = (eraseCommands dev addrs).foldl
      (fun dev a => { dev with cells := Nor.erase dev.cells a 4096 }) dev := by
  induction addrs generalizing dev with
  | nil => rfl
  | cons a addrs ih =>
    have hsame : eraseCommands (flashEraseSector dev a) addrs = eraseCommands dev addrs := by
      unfold eraseCommands
      rw [flashEraseSector_size]
    rw [List.foldl_cons, ih, hsame]
    by_cases ha : eraseAddr a < dev.size
    · have hone : flashEraseSector dev a =
          { dev with cells := Nor.erase dev.cells (eraseAddr a) 4096 } :=
        if_neg (Nat.not_le.mpr ha)
      have hcons : eraseCommands dev (a :: addrs) = eraseAddr a :: eraseCommands dev addrs :=
        List.filter_cons_of_pos (decide_eq_true ha)
      rw [hcons, hone, List.foldl_cons]
    · have hone : flashEraseSector dev a = dev := if_pos (Nat.le_of_not_lt ha)
      have hskip : eraseCommands dev (a :: addrs) = eraseCommands dev addrs :=
        List.filter_cons_of_neg (by simpa using ha)
      rw [hskip, hone]

/-- Sectors inside the chip are erased as they are given. -/
theorem eraseCommands_sectors {base s n : Nat} (hb : base % 4096 = 0) (hdev : dev.size ≤ 2 ^ 24)
    (hin : ∀ i, s ≤ i → i < s + n → base + 4096 * i < dev.size) :
    eraseCommands dev ((List.range' s n).map fun i => base + 4096 * i) =
      (List.range' s n).map fun i => base + 4096 * i := by
  have haddr : ∀ i ∈ List.range' s n, eraseAddr (base + 4096 * i) = base + 4096 * i := by
    intro i hi
    obtain ⟨hlo, hhi⟩ := List.mem_range'_1.mp hi
    have hlt := hin i hlo hhi
    unfold eraseAddr
    omega
  unfold eraseCommands
  rw [List.map_map]
  have hmap : (List.range' s n).map (eraseAddr ∘ fun i => base + 4096 * i) =
      (List.range' s n).map fun i => base + 4096 * i := List.map_congr_left haddr
  rw [hmap, List.filter_eq_self]
  intro a ha
  obtain ⟨i, hi, rfl⟩ := List.mem_map.mp ha
  obtain ⟨hlo, hhi⟩ := List.mem_range'_1.mp hi
  exact decide_eq_true (hin i hlo hhi)

/-- The sectors from that of the first byte to that of the last. -/
theorem erases_sectors (base off : Nat) (hb : base % 4096 = 0) (hdev : dev.size ≤ 2 ^ 24)
    (hpos : 0 < size) (h : base + off + size ≤ dev.size) :
    Erases dev ((List.range' (off / 4096) ((off + size - 1) / 4096 + 1 - off / 4096)).map
      fun i => base + 4096 * i) (base + off) size := by
  unfold Erases
  rw [eraseCommands_sectors hb hdev (by intro i hlo hhi; omega)]
  refine ⟨?_, fun a => ?_⟩
  · refine List.Nodup.map_on (fun i _ j _ heq => ?_) (List.nodup_range' ..)
    omega
  · rw [List.mem_map]
    constructor
    · rintro ⟨i, hi, rfl⟩
      obtain ⟨hlo, hhi⟩ := List.mem_range'_1.mp hi
      refine ⟨by omega, max (base + off) (base + 4096 * i), ?_⟩
      omega
    · rintro ⟨ha, x, hx⟩
      refine ⟨(a - base) / 4096, List.mem_range'_1.mpr ?_, ?_⟩
      · omega
      · omega

/-- No sector is erased for no bytes. -/
theorem not_erases_of_mem {a lo : Nat} (ha : a ∈ eraseCommands dev addrs) :
    ¬Erases dev addrs lo 0 := by
  rintro ⟨-, hiff⟩
  obtain ⟨-, x, hx⟩ := (hiff a).mp ha
  omega

theorem erases_nil (lo : Nat) : Erases dev [] lo 0 := by
  refine ⟨List.nodup_nil, fun a => ⟨fun ha => absurd ha List.not_mem_nil, ?_⟩⟩
  rintro ⟨-, x, hx⟩
  omega

/-- The sectors of an empty range that starts behind address 0. -/
theorem erases_empty_iff (base off : Nat) (hb : base % 4096 = 0) (hdev : dev.size ≤ 2 ^ 24)
    (h0 : off ≠ 0) (h : base + off ≤ dev.size) :
    Erases dev ((List.range' (off / 4096) ((off - 1) / 4096 + 1 - off / 4096)).map
      fun i => base + 4096 * i) (base + off) 0 ↔ off % 4096 = 0 := by
  by_cases hoff : off % 4096 = 0
  · have hnone : (off - 1) / 4096 + 1 - off / 4096 = 0 := by omega
    rw [hnone]
    exact iff_of_true (erases_nil _) hoff
  · have hone : (off - 1) / 4096 + 1 - off / 4096 = 1 := by omega
    refine iff_of_false ?_ hoff
    refine not_erases_of_mem (a := base + 4096 * (off / 4096)) ?_
    rw [hone, eraseCommands_sectors hb hdev (by intro i hlo hhi; omega)]
    exact List.mem_map.mpr ⟨_, List.mem_range'_1.mpr (by omega), rfl⟩

/-- `tkl_flash_erase` of no bytes at address 0 goes round all sector numbers. -/
theorem tklErase_zero (hpos : 0 < dev.size) : 0 ∈ eraseCommands dev (tklEraseSectors 0 0) := by
  have hall : tklEraseSectors 0 0 = (List.range' 0 0x10000).map fun i => 4096 * i := by
    unfold tklEraseSectors
    rfl
  unfold eraseCommands
  rw [hall, List.mem_filter, List.mem_map]
  refine ⟨⟨0, List.mem_map.mpr ⟨0, List.mem_range'_1.mpr (by omega), rfl⟩, rfl⟩, ?_⟩
  exact decide_eq_true hpos

/-- As does `bk_flash_erase` at the start of a partition, modulo `2 ^ 32`. -/
theorem bkErase_zero (p : BkPartition) (hpos : 0 < dev.size) :
    0 ∈ eraseCommands dev (bkEraseSectors p 0 0) := by
  have hall : bkEraseSectors p 0 0 =
      (List.range' 0 0x100000).map fun i => u32 (p.startAddr + 4096 * i) := by
    unfold bkEraseSectors
    rfl
  have hstart := p.startAddr_sector
  have hend := p.end_le
  unfold eraseCommands
  rw [hall, List.mem_filter, List.mem_map]
  refine ⟨⟨u32 (p.startAddr + 4096 * (4096 - p.startAddr / 4096)), List.mem_map.mpr
    ⟨4096 - p.startAddr / 4096, List.mem_range'_1.mpr (by omega), rfl⟩, ?_⟩, decide_eq_true hpos⟩
  have hsum : p.startAddr + 4096 * (4096 - p.startAddr / 4096) = 2 ^ 24 := by omega
  rw [hsum]
  rfl

theorem tklErase_iff (hc : dev.Configured) {addr : Nat} (h : addr + size ≤ dev.size) :
    Erases dev (tklEraseSectors addr size) addr size ↔
      0 < size ∨ addr ≠ 0 ∧ addr % 4096 = 0 := by
  obtain ⟨-, hpos, hmax⟩ := hc.size
  have hdev : dev.size ≤ 2 ^ 24 := by omega
  by_cases hboth : addr + size = 0
  · obtain ⟨rfl, rfl⟩ : addr = 0 ∧ size = 0 := by omega
    refine iff_of_false (not_erases_of_mem (tklErase_zero hpos)) ?_
    omega
  · have hsub : sub32 (addr + size) 1 = addr + size - 1 := sub32_of_le (by omega) (by omega)
    have hstart : addr / 4096 % 2 ^ 16 = addr / 4096 := by omega
    have hlast : (addr + size - 1) / 4096 % 2 ^ 16 = (addr + size - 1) / 4096 := by omega
    have hlist : tklEraseSectors addr size =
        (List.range' (addr / 4096) ((addr + size - 1) / 4096 + 1 - addr / 4096)).map
          fun i => 0 + 4096 * i := by
      unfold tklEraseSectors
      simp only [hsub, hstart, hlast, Nat.zero_add]
    rw [hlist]
    by_cases hsize : 0 < size
    · refine iff_of_true ?_ (Or.inl hsize)
      have herases := erases_sectors 0 addr rfl hdev hsize (by omega)
      rwa [Nat.zero_add] at herases
    · obtain rfl : size = 0 := by omega
      have hempty := erases_empty_iff 0 addr rfl hdev (by omega) (by omega)
      rw [Nat.zero_add] at hempty
      refine hempty.trans ?_
      omega

theorem bkErase_iff (hc : dev.Configured) {p : BkPartition}
    (h : p.startAddr + off + size ≤ dev.size) :
    Erases dev (bkEraseSectors p off size) (p.startAddr + off) size ↔
      0 < size ∨ off ≠ 0 ∧ off % 4096 = 0 := by
  obtain ⟨-, hpos, hmax⟩ := hc.size
  have hdev : dev.size ≤ 2 ^ 24 := by omega
  by_cases hboth : off + size = 0
  · obtain ⟨rfl, rfl⟩ : off = 0 ∧ size = 0 := by omega
    refine iff_of_false (not_erases_of_mem (bkErase_zero p hpos)) ?_
    omega
  · have hsub : sub32 (off + size) 1 = off + size - 1 := sub32_of_le (by omega) (by omega)
    have hlist : bkEraseSectors p off size =
        (List.range' (off / 4096) ((off + size - 1) / 4096 + 1 - off / 4096)).map
          fun i => p.startAddr + 4096 * i := by
      unfold bkEraseSectors
      simp only [hsub]
      refine List.map_congr_left fun i hi => ?_
      obtain ⟨hlo, hhi⟩ := List.mem_range'_1.mp hi
      exact u32_of_lt (by omega)
    rw [hlist]
    by_cases hsize : 0 < size
    · exact iff_of_true (erases_sectors p.startAddr off p.startAddr_sector hdev hsize h)
        (Or.inl hsize)
    · obtain rfl : size = 0 := by omega
      refine (erases_empty_iff p.startAddr off p.startAddr_sector hdev (by omega)
        (by omega)).trans ?_
      omega

/-- Both interfaces erase exactly the sectors of a range in the flash, unless the range is empty
and starts at 0 or inside a sector. -/
theorem erases_iff (hc : dev.Configured) :
    (∀ addr size, addr + size ≤ dev.size → (Erases dev (tklEraseSectors addr size) addr size ↔
      0 < size ∨ addr ≠ 0 ∧ addr % 4096 = 0)) ∧
    ∀ (p : BkPartition) (offSet size : Nat), p.startAddr + offSet + size ≤ dev.size →
      (Erases dev (bkEraseSectors p offSet size) (p.startAddr + offSet) size ↔
        0 < size ∨ offSet ≠ 0 ∧ offSet % 4096 = 0) :=
  ⟨fun _ _ h => tklErase_iff hc h, fun _ _ _ h => bkErase_iff hc h⟩

end

/-- A chip of 2 MB, erased. -/
def smallChip : FlashDev := ⟨0x200000, twoMegabytes_lt, fun _ => Nor.blank⟩

theorem smallChip_configured : smallChip.Configured := ⟨0x1C7015, rfl⟩

/-- Ranges that end inside a sector. -/
theorem erases_two_sectors : Erases smallChip (tklEraseSectors 0x12A800 0x1000) 0x12A800 0x1000 ∧
    Erases smallChip (bkEraseSectors .netParam 0x10 0x20) (0x1D1000 + 0x10) 0x20 :=
  ⟨((erases_iff smallChip_configured).1 0x12A800 0x1000 (by decide)).mpr (Or.inl (by decide)),
    ((erases_iff smallChip_configured).2 .netParam 0x10 0x20 (by decide)).mpr
      (Or.inl (by decide))⟩

/-- Erasing no bytes at address 0 erases sectors. -/
theorem not_erases_none : smallChip.Configured ∧ ¬Erases smallChip (tklEraseSectors 0 0) 0 0 :=
  ⟨smallChip_configured, not_erases_of_mem (tklErase_zero (by decide))⟩

/-! ## Lines -/

/-- A command of `flash_read_data` or `flash_write_data`, with `addr`. -/
inductive LineCommand where
  | read (addr : Nat)
  | program (addr : Nat)
  deriving DecidableEq

def LineCommand.addr : LineCommand → Nat
  | .read addr => addr
  | .program addr => addr

/-- The commands of `flash_read_data`: one for each line it goes through. -/
def readCommands (dev : FlashDev) (address len : Nat) : List LineCommand :=
  (Loop.visited (readPass dev) (len + 1) ([], address, len, lineOf address)).map
    fun v => .read v.2.2.2

/-- The commands of one line of `flash_write_data`. -/
def lineCommands (v : WriteVars) : List LineCommand :=
  (if v.len < 32 then readCommands v.dev v.addr 32 else []) ++ [.program v.addr]

/-- The commands of `flash_write_data`. -/
def writeCommands (dev : FlashDev) (buffer : Nat → Byte) (address len : Nat) :
    List LineCommand :=
  if Refused dev address len then []
  else
    (if address % 32 ≠ 0 then readCommands dev (lineOf address) 32 else []) ++
      (Loop.visited (writePass buffer) (len + 1)
        ⟨dev, firstLine dev address, 0, address, len, lineOf address⟩).flatMap lineCommands

/-- No command is for a line at or behind the end of the chip, and a range that exceeds the chip is
not programmed at all. -/
structure Bounded (dev : FlashDev) (address len : Nat) (cs : List LineCommand) : Prop where
  inside : ∀ c ∈ cs, c.addr < dev.size
  nothing : dev.size < address + len → ∀ a, .program a ∉ cs

section

variable {dev : FlashDev} {buffer : Nat → Byte} {address len : Nat}

/-- Reading a whole line is one command. -/
theorem readCommands_line {addr : Nat} (ha : addr % 32 = 0) (h : addr + 32 ≤ 2 ^ 32) :
    ∀ c ∈ readCommands dev addr 32, c = .read addr := by
  intro c hc
  obtain ⟨v, hv, rfl⟩ := List.mem_map.mp hc
  have hstart : ∃ d, Reading dev addr 32 ([], addr, 32, lineOf addr) d :=
    ⟨0, reading_start dev addr 32⟩
  have hkeep : ∀ v v', (∃ d, Reading dev addr 32 v d) → readPass dev v = .again v' →
      ∃ d, Reading dev addr 32 v' d := by
    rintro v v' ⟨d, hr⟩ hb
    exact (hr.again h (by decide) hb).2.2
  obtain ⟨⟨d, hr⟩, v', hb⟩ := Loop.visited_invariant hkeep hstart v hv
  have hd := (hr.again h (by decide) hb).1
  rw [(hr.place hd).2]
  congr 1
  unfold lineOf
  omega

/-- Every command is for a line of the range, or for the first. -/
theorem mem_writeCommands (h : address + len ≤ 2 ^ 32) (hl : len < 2 ^ 32)
    (hline : lineOf address + 32 ≤ 2 ^ 32) {c : LineCommand}
    (hc : c ∈ writeCommands dev buffer address len) :
    c = .read (lineOf address) ∨ ∃ d < len, c.addr = lineOf (address + d) := by
  have hmod : lineOf address % 32 = 0 := Nat.mul_mod_left _ _
  unfold writeCommands at hc
  split at hc
  · cases hc
  · rcases List.mem_append.mp hc with hc | hc
    · split at hc
      · exact Or.inl (readCommands_line hmod hline c hc)
      · cases hc
    · obtain ⟨v, hv, hc⟩ := List.mem_flatMap.mp hc
      have hkeep : ∀ v v', (∃ d, Writing dev buffer address len v d) →
          writePass buffer v = .again v' → ∃ d, Writing dev buffer address len v' d := by
        rintro v v' ⟨d, hw⟩ hb
        exact (hw.again h hl hb).2.2
      obtain ⟨⟨d, hw⟩, v', hb⟩ := Loop.visited_invariant hkeep
        ⟨0, writing_start dev buffer len hline⟩ v hv
      have hd := (hw.again h hl hb).1
      have haddr := (hw.place hd).2.1
      refine Or.inr ⟨d, hd, ?_⟩
      rcases List.mem_append.mp hc with hc | hc
      · split at hc
        · have hlast : v.addr % 32 = 0 ∧ v.addr + 32 ≤ 2 ^ 32 := by
            rw [haddr]
            unfold lineOf
            omega
          rw [readCommands_line hlast.1 hlast.2 c hc]
          exact haddr
        · cases hc
      · rw [List.mem_singleton.mp hc]
        exact haddr

/-- A write that is not refused programs its first line. -/
theorem program_mem_writeCommands (hno : ¬Refused dev address len) (hl : len ≠ 0) :
    .program (lineOf address) ∈ writeCommands dev buffer address len := by
  unfold writeCommands
  rw [if_neg hno]
  obtain ⟨v, hv⟩ : ∃ v : WriteVars,
    v = ⟨dev, firstLine dev address, 0, address, len, lineOf address⟩ := ⟨_, rfl⟩
  have hlen : v.len ≠ 0 := by
    rw [hv]
    exact hl
  have haddr : lineOf address = v.addr := by rw [hv]
  rw [← hv, haddr]
  refine List.mem_append_right _ (List.mem_flatMap.mpr ⟨v, ?_, List.mem_append_right _
    (List.mem_singleton.mpr rfl)⟩)
  cases hb : writePass buffer v with
  | exit r =>
    unfold writePass at hb
    rw [if_neg hlen] at hb
    cases hb
  | again v' =>
    rw [Loop.visited_again hb]
    exact List.mem_cons_self

/-- `flash_write_data` keeps inside the chip unless the range passes the check from its first line
on but ends behind the chip. -/
theorem bounded_iff (hc : dev.Configured) (buffer : Nat → Byte) (ha : address < 2 ^ 32)
    (hl : len < 2 ^ 32) :
    Bounded dev address len (writeCommands dev buffer address len) ↔
      ¬(0 < len ∧ lineOf address + len ≤ dev.size ∧ dev.size < address + len) := by
  obtain ⟨hmod, hpos, hmax⟩ := hc.size
  have hline : lineOf address ≤ address := Nat.div_mul_le_self _ _
  constructor
  · rintro hb ⟨hlen, hfit, hover⟩
    have hno : ¬Refused dev address len := by
      rintro (hr | hr | hr)
      · omega
      · omega
      · rw [u32_of_lt (by omega)] at hr
        omega
    exact hb.nothing hover _ (program_mem_writeCommands hno (Nat.ne_of_gt hlen))
  · intro hno
    by_cases hr : Refused dev address len
    · have hnil : writeCommands dev buffer address len = [] := if_pos hr
      rw [hnil]
      exact ⟨fun c hc => absurd hc List.not_mem_nil, fun _ a hc => absurd hc List.not_mem_nil⟩
    · have hlt : lineOf address < dev.size := Nat.lt_of_not_le fun hle => hr (Or.inl hle)
      have hle : len ≤ dev.size := Nat.le_of_not_lt fun hgt => hr (Or.inr (Or.inl hgt))
      have hsum : lineOf address + len ≤ dev.size := by
        have hthird := Nat.le_of_not_lt fun hgt => hr (Or.inr (Or.inr hgt))
        rwa [u32_of_lt (by omega)] at hthird
      have hnear : address < lineOf address + 32 := by
        unfold lineOf
        omega
      have hmem : ∀ c ∈ writeCommands dev buffer address len,
          c = .read (lineOf address) ∨ ∃ d < len, c.addr = lineOf (address + d) :=
        fun c hc => mem_writeCommands (by omega) hl (by omega) hc
      refine ⟨fun c hc => ?_, fun hover a hc => ?_⟩
      · rcases hmem c hc with rfl | ⟨d, hd, hca⟩
        · exact hlt
        · have hdline : lineOf (address + d) ≤ address + d := Nat.div_mul_le_self _ _
          rw [hca]
          omega
      · rcases hmem _ hc with heq | ⟨d, hd, -⟩
        · cases heq
        · omega

end

/-- A page that starts in the middle of a line. -/
theorem bounded_page : Bounded smallChip 0x1FFF10 0xF0
    (writeCommands smallChip (fun _ => 0) 0x1FFF10 0xF0) :=
  (bounded_iff smallChip_configured (fun _ => 0) (by decide) (by decide)).mpr (by decide)

/-- The last line of the chip and 31 bytes behind it: the line behind the chip is programmed. -/
theorem not_bounded_end : smallChip.Configured ∧ ¬Bounded smallChip 0x1FFFFF 32
    (writeCommands smallChip (fun _ => 0) 0x1FFFFF 32) := by
  refine ⟨smallChip_configured, fun hb => ?_⟩
  have hno : ¬Refused smallChip 0x1FFFFF 32 := by decide
  exact hb.nothing (by decide) _ (program_mem_writeCommands hno (by decide))

end TuyaSdk.Flash
