import TuyaSdk.Lib.Nor
import TuyaSdk.Lib.Loop

/-!
# The flash line driver

`flash_read_data` and `flash_write_data` of the flash driver. The controller moves lines of
32 bytes: a line is read into, or programmed from, the buffer `pb`. The driver walks the
lines of an unaligned range with the running `address` and `len` of the range and the line
address `addr`.
-/

namespace TuyaSdk.Flash
open TuyaSdk.Lib

/-- A flash device with its configured size. -/
structure FlashDev where
  size : Nat
  size_lt : size < 2 ^ 32
  cells : Mem

/-- The size of a device of 2 MB. -/
theorem twoMegabytes_lt : 0x200000 < 2 ^ 32 := by decide

/-- Reading a line. -/
def readLine (dev : FlashDev) (addr : Nat) : Nat → Byte := fun i => dev.cells (addr + i)

/-- Programming a line. -/
def programLine (dev : FlashDev) (addr : Nat) (pb : Nat → Byte) : FlashDev :=
  { dev with cells := Nor.program dev.cells addr 32 pb }

/-- `address & (~0x1F)`. -/
def lineOf (address : Nat) : Nat := address / 32 * 32

/-! ## Reading -/

/-- The `for` loop of `flash_read_data` with `k` bytes of the line to go: the bytes read so
far, `address` and `len`. -/
def copyOut (pb : Nat → Byte) : Nat → List Byte → Nat → Nat → List Byte × Nat × Nat
  | 0, out, address, len => (out, address, len)
  | k + 1, out, address, len =>
    let out := out ++ [pb (32 - (k + 1))]
    let address := u32 (address + 1)
    let len := sub32 len 1
    if len = 0 then (out, address, len) else copyOut pb k out address len

/-- One line of `flash_read_data`. -/
def readPass (dev : FlashDev) : List Byte × Nat × Nat × Nat →
    Pass (List Byte × Nat × Nat × Nat) (List Byte)
  | (out, address, len, addr) =>
    if len = 0 then .exit out
    else
      let pb := readLine dev addr
      let addr := u32 (addr + 32)
      let (out, address, len) := copyOut pb (32 - address % 32) out address len
      .again (out, address, len, addr)

/-- `flash_read_data`: the bytes stored through `buffer`. -/
def flashReadData (dev : FlashDev) (address len : Nat) : Option (List Byte) :=
  Loop.run (readPass dev) (len + 1) ([], address, len, lineOf address)

/-! ## Writing -/

/-- The `for` loop of `flash_write_data` with `k` bytes of the line to go: the line buffer,
the position in `buffer`, `address` and `len`. -/
def fillIn (buffer : Nat → Byte) : Nat → (Nat → Byte) → Nat → Nat → Nat →
    (Nat → Byte) × Nat × Nat × Nat
  | 0, pb, off, address, len => (pb, off, address, len)
  | k + 1, pb, off, address, len =>
    let pb := Function.update pb (32 - (k + 1)) (buffer off)
    let off := off + 1
    let address := u32 (address + 1)
    let len := sub32 len 1
    if len = 0 then (pb, off, address, len) else fillIn buffer k pb off address len

/-- `flash_read_data(pb, addr, 32)`. -/
def refill (dev : FlashDev) (addr : Nat) (pb : Nat → Byte) : Nat → Byte := fun i =>
  ((flashReadData dev addr 32).getD []).getD i (pb i)

/-- The variables of `flash_write_data`. -/
structure WriteVars where
  dev : FlashDev
  pb : Nat → Byte
  off : Nat
  address : Nat
  len : Nat
  addr : Nat

/-- One line of `flash_write_data`. -/
def writePass (buffer : Nat → Byte) (v : WriteVars) : Pass WriteVars FlashDev :=
  if v.len = 0 then .exit v.dev
  else
    let pb := if v.len < 32 then refill v.dev v.addr v.pb else v.pb
    let (pb, off, address, len) := fillIn buffer (32 - v.address % 32) pb v.off v.address v.len
    .again ⟨programLine v.dev v.addr pb, fun _ => Nor.blank, off, address, len, u32 (v.addr + 32)⟩

/-- `flash_write_data`. -/
def flashWriteData (dev : FlashDev) (buffer : Nat → Byte) (address len : Nat) : Option FlashDev :=
  let addr := lineOf address
  if dev.size ≤ addr ∨ dev.size < len ∨ dev.size < u32 (addr + len) then some dev
  else
    let pb : Nat → Byte := fun _ => Nor.blank
    let pb := if address % 32 ≠ 0 then refill dev addr pb else pb
    Loop.run (writePass buffer) (len + 1) ⟨dev, pb, 0, address, len, addr⟩

/-! ## The walk over a line -/

theorem copyOut_eq {pb : Nat → Byte} {k address len : Nat} {out : List Byte} (hk : k ≤ 32)
    (hlen : 0 < len) (hl : len < 2 ^ 32) (ha : address < 2 ^ 32) :
    copyOut pb k out address len =
      (out ++ (List.range (min k len)).map (fun j => pb (32 - k + j)),
        u32 (address + min k len), len - min k len) := by
  induction k generalizing out address len with
  | zero => simp [copyOut, u32_of_lt ha]
  | succ k ih =>
    have hsub : sub32 len 1 = len - 1 := sub32_of_le (by omega) hl
    have hmin : min (k + 1) len = min k (len - 1) + 1 := by omega
    have hlist : (List.range (min (k + 1) len)).map (fun j => pb (32 - (k + 1) + j)) =
        pb (32 - (k + 1)) :: (List.range (min k (len - 1))).map (fun j => pb (32 - k + j)) := by
      rw [hmin, List.range_succ_eq_map, List.map_cons, List.map_map]
      refine List.cons_eq_cons.mpr ⟨by rw [Nat.add_zero], ?_⟩
      apply List.map_congr_left
      intro j _
      have hj : 32 - (k + 1) + (j + 1) = 32 - k + j := by omega
      rw [Function.comp_apply, Nat.succ_eq_add_one, hj]
    have haddr : u32 (u32 (address + 1) + min k (len - 1)) = u32 (address + min (k + 1) len) := by
      unfold u32
      omega
    rw [copyOut]
    simp only [hsub, hlist]
    by_cases h0 : len - 1 = 0
    · rw [if_pos h0]
      have hm : min k (len - 1) = 0 := by omega
      have hm' : min (k + 1) len = 1 := by omega
      simp [hm, hm']
    · rw [if_neg h0, ih (by omega) (by omega) (by omega) (u32_lt _), haddr]
      simp only [List.append_assoc, List.singleton_append, Prod.mk.injEq, true_and]
      omega

theorem fillIn_eq {buffer pb : Nat → Byte} {k off address len : Nat} (hk : k ≤ 32)
    (hlen : 0 < len) (hl : len < 2 ^ 32) (ha : address < 2 ^ 32) :
    fillIn buffer k pb off address len =
      (fun i => if 32 - k ≤ i ∧ i < 32 - k + min k len then buffer (off + (i - (32 - k))) else pb i,
        off + min k len, u32 (address + min k len), len - min k len) := by
  induction k generalizing pb off address len with
  | zero =>
    simp only [fillIn, Nat.zero_min, Nat.add_zero, Nat.sub_zero, u32_of_lt ha, Prod.mk.injEq,
      and_true]
    funext i
    rw [if_neg (by omega)]
  | succ k ih =>
    have hsub : sub32 len 1 = len - 1 := sub32_of_le (by omega) hl
    have haddr : u32 (u32 (address + 1) + min k (len - 1)) = u32 (address + min (k + 1) len) := by
      unfold u32
      omega
    rw [fillIn]
    simp only [hsub]
    by_cases h0 : len - 1 = 0
    · have hm : min (k + 1) len = 1 := by omega
      rw [if_pos h0, hm]
      refine Prod.ext (funext fun i => ?_) rfl
      simp only
      by_cases hi : i = 32 - (k + 1)
      · subst hi
        rw [Function.update_self, if_pos (by omega), Nat.sub_self, Nat.add_zero]
      · rw [Function.update_of_ne hi, if_neg (by omega)]
    · rw [if_neg h0, ih (by omega) (by omega) (by omega) (u32_lt _), haddr]
      simp only [Prod.mk.injEq, true_and]
      refine ⟨?_, by omega, by omega⟩
      funext i
      by_cases hi : i = 32 - (k + 1)
      · subst hi
        rw [if_neg (by omega), Function.update_self, if_pos (by omega), Nat.sub_self, Nat.add_zero]
      · rw [Function.update_of_ne hi]
        by_cases hin : 32 - k ≤ i ∧ i < 32 - k + min k (len - 1)
        · have hoff : off + 1 + (i - (32 - k)) = off + (i - (32 - (k + 1))) := by omega
          rw [if_pos hin, if_pos (by omega), hoff]
        · rw [if_neg hin, if_neg (by omega)]

/-! ## What the driver does to a range -/

/-- The variables of `flash_read_data` when `d` bytes of the range have been read. -/
structure Reading (dev : FlashDev) (address len : Nat) (v : List Byte × Nat × Nat × Nat)
    (d : Nat) : Prop where
  le : d ≤ len
  out : v.1 = readBytes dev.cells address d
  left : v.2.2.1 = len - d
  place : d < len → v.2.1 = address + d ∧ v.2.2.2 = lineOf (address + d)

theorem reading_start (dev : FlashDev) (address len : Nat) :
    Reading dev address len ([], address, len, lineOf address) 0 :=
  ⟨Nat.zero_le _, rfl, rfl, fun _ => ⟨rfl, rfl⟩⟩

/-- One line more. -/
theorem Reading.again {dev : FlashDev} {address len d : Nat} {v v' : List Byte × Nat × Nat × Nat}
    (h : address + len ≤ 2 ^ 32) (hl : len < 2 ^ 32) (hr : Reading dev address len v d)
    (hb : readPass dev v = .again v') :
    d < len ∧ v'.2.2.1 < v.2.2.1 ∧ ∃ d', Reading dev address len v' d' := by
  obtain ⟨out, address', len', addr⟩ := v
  obtain ⟨hd, hout, hlen, hgo⟩ := hr
  simp only at hout hlen hgo
  simp only [readPass] at hb
  by_cases h0 : len' = 0
  · rw [if_pos h0] at hb
    cases hb
  · rw [if_neg h0] at hb
    obtain ⟨rfl, rfl⟩ := hgo (by omega)
    rw [copyOut_eq (by omega) (by omega) (by omega) (by omega)] at hb
    simp only [Pass.again.injEq] at hb
    subst hb
    obtain ⟨n, hn⟩ : ∃ n, n = min (32 - (address + d) % 32) len' := ⟨_, rfl⟩
    rw [← hn]
    refine ⟨by omega, by simp only; omega, d + n, by omega, ?_, by simp only; omega, ?_⟩
    · simp only
      rw [hout, readBytes_add]
      congr 1
      apply List.map_congr_left
      intro j hj
      have hj := List.mem_range.mp hj
      have hcell : lineOf (address + d) + (32 - (32 - (address + d) % 32) + j) =
          address + d + j := by
        unfold lineOf
        omega
      rw [readLine, hcell]
    · intro hlt
      simp only
      unfold lineOf u32
      omega

/-- `flash_read_data` reads the cells of the range. -/
theorem flashReadData_spec {dev : FlashDev} {address len : Nat} (h : address + len ≤ 2 ^ 32)
    (hl : len < 2 ^ 32) :
    flashReadData dev address len = some (readBytes dev.cells address len) := by
  have hloop : ∃ out, Loop.run (readPass dev) (len + 1) ([], address, len, lineOf address) =
      some out ∧ out = readBytes dev.cells address len := by
    refine Loop.run_spec (I := fun v => ∃ d, Reading dev address len v d) (fun v => v.2.2.1) ?_ ?_
      ⟨0, reading_start dev address len⟩ (Nat.lt_succ_self _)
    · intro ⟨out, address', len', addr⟩ r ⟨d, hd, hout, hlen, _⟩ hb
      simp only at hout hlen
      simp only [readPass] at hb
      by_cases h0 : len' = 0
      · rw [if_pos h0] at hb
        cases hb
        have : d = len := by omega
        rw [hout, this]
      · rw [if_neg h0] at hb
        cases hb
    · intro v v' ⟨d, hr⟩ hb
      obtain ⟨-, hless, hr'⟩ := hr.again h hl hb
      exact ⟨hr', hless⟩
  obtain ⟨out, hrun, hout⟩ := hloop
  rw [flashReadData, hrun, hout]

/-- A line that is read back holds its own cells. -/
theorem refill_apply {dev : FlashDev} {addr i : Nat} {pb : Nat → Byte} (h : addr + 32 ≤ 2 ^ 32)
    (hi : i < 32) : refill dev addr pb i = dev.cells (addr + i) := by
  unfold refill
  rw [flashReadData_spec h (by omega)]
  simp [readBytes, hi]

/-- The device after `d` bytes of the buffer have been programmed from `address` on. -/
def programmed (dev : FlashDev) (buffer : Nat → Byte) (address d : Nat) : FlashDev :=
  { dev with cells := Nor.program dev.cells address d buffer }

/-- Programming the line buffer would leave the line at `addr` as it is. -/
def KeepsLine (dev : FlashDev) (addr : Nat) (pb : Nat → Byte) : Prop :=
  ∀ i < 32, dev.cells (addr + i) &&& pb i = dev.cells (addr + i)

theorem keepsLine_blank {dev : FlashDev} {addr : Nat} : KeepsLine dev addr fun _ => Nor.blank :=
  fun _ _ => Nor.and_blank _

theorem keepsLine_refill {dev : FlashDev} {addr : Nat} {pb : Nat → Byte}
    (h : addr + 32 ≤ 2 ^ 32) : KeepsLine dev addr (refill dev addr pb) := by
  intro i hi
  rw [refill_apply h hi, BitVec.and_self]

/-- Programming a line into which `n` bytes of the buffer have been filled. -/
theorem programLine_fill {dev : FlashDev} {buffer pb pb' : Nat → Byte} {address d n : Nat}
    (hn : n ≤ 32 - (address + d) % 32)
    (hkeep : KeepsLine (programmed dev buffer address d) (lineOf (address + d)) pb)
    (hfill : ∀ i, pb' i = if (address + d) % 32 ≤ i ∧ i < (address + d) % 32 + n then
      buffer (d + (i - (address + d) % 32)) else pb i) :
    programLine (programmed dev buffer address d) (lineOf (address + d)) pb' =
      programmed dev buffer address (d + n) := by
  have hline : lineOf (address + d) + (address + d) % 32 = address + d := by
    unfold lineOf
    omega
  unfold programLine programmed KeepsLine at *
  congr 1
  rw [← Nor.program_add d n]
  funext x
  by_cases hin : address + d ≤ x ∧ x < address + d + n
  · rw [Nor.program_inside (by omega) (by omega), Nor.program_inside hin.1 hin.2, hfill,
      if_pos (by omega)]
    congr 2
    omega
  · rw [Nor.program_outside (a := address + d) (by omega)]
    by_cases hl : lineOf (address + d) ≤ x ∧ x < lineOf (address + d) + 32
    · have hk := hkeep (x - lineOf (address + d)) (by omega)
      rw [Nat.add_sub_cancel' hl.1] at hk
      rw [Nor.program_inside hl.1 hl.2, hfill, if_neg (by omega), hk]
    · rw [Nor.program_outside (by omega)]

/-- The guard of `flash_write_data`: the write is refused. -/
abbrev Refused (dev : FlashDev) (address len : Nat) : Prop :=
  dev.size ≤ lineOf address ∨ dev.size < len ∨ dev.size < u32 (lineOf address + len)

@[simp] theorem programmed_zero {dev : FlashDev} {buffer : Nat → Byte} {address : Nat} :
    programmed dev buffer address 0 = dev := by
  simp [programmed]

/-- The variables of `flash_write_data` when `d` bytes of the buffer have been programmed. -/
structure Writing (dev : FlashDev) (buffer : Nat → Byte) (address len : Nat) (v : WriteVars)
    (d : Nat) : Prop where
  le : d ≤ len
  dev : v.dev = programmed dev buffer address d
  off : v.off = d
  left : v.len = len - d
  place : d < len → v.address = address + d ∧ v.addr = lineOf (address + d) ∧
    KeepsLine v.dev v.addr v.pb

/-- The line buffer before the first line. -/
def firstLine (dev : FlashDev) (address : Nat) : Nat → Byte :=
  if address % 32 ≠ 0 then refill dev (lineOf address) (fun _ => Nor.blank) else fun _ => Nor.blank

theorem writing_start (dev : FlashDev) (buffer : Nat → Byte) {address : Nat} (len : Nat)
    (h : lineOf address + 32 ≤ 2 ^ 32) : Writing dev buffer address len
      ⟨dev, firstLine dev address, 0, address, len, lineOf address⟩ 0 := by
  refine ⟨Nat.zero_le _, programmed_zero.symm, rfl, rfl, fun _ => ⟨rfl, rfl, ?_⟩⟩
  show KeepsLine dev (lineOf address) (firstLine dev address)
  unfold firstLine
  by_cases hmod : address % 32 ≠ 0
  · rw [if_pos hmod]
    exact keepsLine_refill h
  · rw [if_neg hmod]
    exact keepsLine_blank

/-- One line more. -/
theorem Writing.again {dev : FlashDev} {buffer : Nat → Byte} {address len d : Nat}
    {v v' : WriteVars} (h : address + len ≤ 2 ^ 32) (hl : len < 2 ^ 32)
    (hw : Writing dev buffer address len v d) (hb : writePass buffer v = .again v') :
    d < len ∧ v'.len < v.len ∧ ∃ d', Writing dev buffer address len v' d' := by
  obtain ⟨hd, hdev, hoff, hlen, hgo⟩ := hw
  unfold writePass at hb
  by_cases h0 : v.len = 0
  · rw [if_pos h0] at hb
    cases hb
  · rw [if_neg h0] at hb
    obtain ⟨haddress, haddr, hkeep⟩ := hgo (by omega)
    obtain ⟨pb₁, hpb₁⟩ : ∃ pb₁ : Nat → Byte,
      pb₁ = if v.len < 32 then refill v.dev v.addr v.pb else v.pb := ⟨_, rfl⟩
    have hkeep₁ : KeepsLine v.dev v.addr pb₁ := by
      rw [hpb₁]
      split
      · exact keepsLine_refill (by rw [haddr]; unfold lineOf; omega)
      · exact hkeep
    obtain ⟨n, hn⟩ : ∃ n, n = min (32 - v.address % 32) v.len := ⟨_, rfl⟩
    have hoff₃₂ : 32 - (32 - v.address % 32) = v.address % 32 := by omega
    have hfill : fillIn buffer (32 - v.address % 32) pb₁ v.off v.address v.len =
        (fun i => if v.address % 32 ≤ i ∧ i < v.address % 32 + n then
          buffer (v.off + (i - v.address % 32)) else pb₁ i,
          v.off + n, u32 (v.address + n), v.len - n) := by
      rw [fillIn_eq (by omega) (by omega) (by omega) (by omega), ← hn, hoff₃₂]
    simp only [← hpb₁, hfill, Pass.again.injEq] at hb
    subst hb
    refine ⟨by omega, by simp only; omega, d + n, by omega, ?_, by simp only; omega,
      by simp only; omega, ?_⟩
    · simp only
      rw [hdev, haddr] at hkeep₁ ⊢
      refine programLine_fill (by omega) hkeep₁ fun i => ?_
      rw [haddress, hoff]
    · intro hlt
      refine ⟨?_, ?_, keepsLine_blank⟩
      · simp only
        rw [haddress, u32_of_lt (by omega), Nat.add_assoc]
      · simp only
        rw [haddr]
        unfold lineOf u32
        omega

/-- A write that is not refused ANDs the buffer into the cells of the range. -/
theorem flashWriteData_eq {dev : FlashDev} {buffer : Nat → Byte} {address len : Nat}
    (h : address + len ≤ 2 ^ 32) (hl : len < 2 ^ 32) :
    flashWriteData dev buffer address len =
      some (if Refused dev address len then dev else programmed dev buffer address len) := by
  have hsize := dev.size_lt
  simp only [flashWriteData]
  by_cases hguard : Refused dev address len
  · rw [if_pos hguard, if_pos hguard]
  · rw [if_neg hguard, if_neg hguard]
    have hline : lineOf address + 32 ≤ 2 ^ 32 := by
      have hlt : lineOf address < dev.size := Nat.lt_of_not_le fun hle => hguard (Or.inl hle)
      unfold lineOf at hlt ⊢
      omega
    have hloop : ∃ r, Loop.run (writePass buffer) (len + 1)
        ⟨dev, firstLine dev address, 0, address, len, lineOf address⟩ = some r ∧
          r = programmed dev buffer address len := by
      refine Loop.run_spec (I := fun v => ∃ d, Writing dev buffer address len v d) (fun v => v.len)
        ?_ ?_ ⟨0, writing_start dev buffer len hline⟩ (Nat.lt_succ_self _)
      · intro v r ⟨d, hd, hdev, _, hlen, _⟩ hb
        unfold writePass at hb
        by_cases h0 : v.len = 0
        · rw [if_pos h0] at hb
          cases hb
          have : d = len := by omega
          rw [hdev, this]
        · rw [if_neg h0] at hb
          cases hb
      · intro v v' ⟨d, hw⟩ hb
        obtain ⟨-, hless, hw'⟩ := hw.again h hl hb
        exact ⟨hw', hless⟩
    obtain ⟨r, hrun, hr⟩ := hloop
    rw [← hr, ← hrun]
    rfl

/-- A write inside the device ANDs the buffer into the cells of the range. -/
theorem flashWriteData_run {dev : FlashDev} {buffer : Nat → Byte} {address len : Nat}
    (h : address + len ≤ dev.size) :
    flashWriteData dev buffer address len = some (programmed dev buffer address len) := by
  have hsize := dev.size_lt
  have hline : lineOf address ≤ address := Nat.div_mul_le_self _ _
  rw [flashWriteData_eq (by omega) (by omega)]
  by_cases hguard : Refused dev address len
  · -- the range is inside, so the guard can only fire on an empty range at the end
    rw [if_pos hguard]
    rw [Refused, u32_of_lt (by omega)] at hguard
    have h0 : len = 0 := by omega
    rw [h0, programmed_zero]
  · rw [if_neg hguard]

/-! ## The driver returns on every input -/

theorem sub32_one_lt {len : Nat} (h : len ≠ 0) : sub32 len 1 < len := by
  unfold sub32 u32
  omega

theorem copyOut_len_le {pb : Nat → Byte} {k address len : Nat} {out : List Byte} (h : len ≠ 0) :
    (copyOut pb k out address len).2.2 ≤ len := by
  induction k generalizing out address len with
  | zero => exact Nat.le_refl _
  | succ k ih =>
    have hlt := sub32_one_lt h
    simp only [copyOut]
    by_cases h0 : sub32 len 1 = 0
    · rw [if_pos h0]
      exact Nat.le_of_lt hlt
    · rw [if_neg h0]
      exact Nat.le_trans (ih h0) (Nat.le_of_lt hlt)

theorem copyOut_len_lt {pb : Nat → Byte} {k address len : Nat} {out : List Byte} (hk : 0 < k)
    (h : len ≠ 0) : (copyOut pb k out address len).2.2 < len := by
  obtain ⟨k, rfl⟩ : ∃ j, k = j + 1 := ⟨k - 1, by omega⟩
  have hlt := sub32_one_lt h
  simp only [copyOut]
  by_cases h0 : sub32 len 1 = 0
  · rw [if_pos h0]
    exact hlt
  · rw [if_neg h0]
    exact Nat.lt_of_le_of_lt (copyOut_len_le h0) hlt

theorem fillIn_len_le {buffer pb : Nat → Byte} {k off address len : Nat} (h : len ≠ 0) :
    (fillIn buffer k pb off address len).2.2.2 ≤ len := by
  induction k generalizing pb off address len with
  | zero => exact Nat.le_refl _
  | succ k ih =>
    have hlt := sub32_one_lt h
    simp only [fillIn]
    by_cases h0 : sub32 len 1 = 0
    · rw [if_pos h0]
      exact Nat.le_of_lt hlt
    · rw [if_neg h0]
      exact Nat.le_trans (ih h0) (Nat.le_of_lt hlt)

theorem fillIn_len_lt {buffer pb : Nat → Byte} {k off address len : Nat} (hk : 0 < k)
    (h : len ≠ 0) : (fillIn buffer k pb off address len).2.2.2 < len := by
  obtain ⟨k, rfl⟩ : ∃ j, k = j + 1 := ⟨k - 1, by omega⟩
  have hlt := sub32_one_lt h
  simp only [fillIn]
  by_cases h0 : sub32 len 1 = 0
  · rw [if_pos h0]
    exact hlt
  · rw [if_neg h0]
    exact Nat.lt_of_le_of_lt (fillIn_len_le h0) hlt

/-- Every line takes at least one byte off `len`. -/
theorem flashReadData_isSome (dev : FlashDev) (address len : Nat) :
    (flashReadData dev address len).isSome = true := by
  have hloop : ∃ out, Loop.run (readPass dev) (len + 1) ([], address, len, lineOf address) =
      some out ∧ True := by
    refine Loop.run_spec (I := fun _ => True) (fun v => v.2.2.1) (fun _ _ _ _ => trivial) ?_
      trivial (Nat.lt_succ_self _)
    intro ⟨out, address', len', addr⟩ v' _ hb
    simp only [readPass] at hb
    by_cases h0 : len' = 0
    · rw [if_pos h0] at hb
      simp at hb
    · rw [if_neg h0] at hb
      cases hb
      exact ⟨trivial, copyOut_len_lt (by omega) h0⟩
  obtain ⟨out, hrun, _⟩ := hloop
  rw [flashReadData, hrun]
  rfl

theorem flashWriteData_isSome (dev : FlashDev) (buffer : Nat → Byte) (address len : Nat) :
    (flashWriteData dev buffer address len).isSome = true := by
  simp only [flashWriteData]
  by_cases hguard : Refused dev address len
  · rw [if_pos hguard]
    rfl
  · rw [if_neg hguard]
    obtain ⟨v₀, hv₀⟩ : ∃ v₀ : WriteVars, v₀ = ⟨dev, if address % 32 ≠ 0 then
      refill dev (lineOf address) (fun _ => Nor.blank) else fun _ => Nor.blank, 0, address, len,
        lineOf address⟩ := ⟨_, rfl⟩
    have hlen : v₀.len < len + 1 := by
      rw [hv₀]
      exact Nat.lt_succ_self _
    have hloop : ∃ r, Loop.run (writePass buffer) (len + 1) v₀ = some r ∧ True := by
      refine Loop.run_spec (I := fun _ => True) (fun v => v.len) (fun _ _ _ _ => trivial) ?_
        trivial hlen
      intro v v' _ hb
      unfold writePass at hb
      by_cases h0 : v.len = 0
      · rw [if_pos h0] at hb
        simp at hb
      · rw [if_neg h0] at hb
        cases hb
        exact ⟨trivial, fillIn_len_lt (by omega) h0⟩
    obtain ⟨r, hrun, _⟩ := hloop
    rw [← hv₀, hrun]
    rfl

/-- The law of the line driver: a write of a range inside the device leaves every byte
outside the range as it was and ANDs the new bytes into the old ones inside it; if the range
was erased, reading any part of it returns the bytes written. -/
theorem flashWriteData_law (dev : FlashDev) (buffer : Nat → Byte) (address len : Nat)
    (h : address + len ≤ dev.size) :
    ∃ dev', flashWriteData dev buffer address len = some dev' ∧ dev'.size = dev.size ∧
      (∀ x, x < address ∨ address + len ≤ x → dev'.cells x = dev.cells x) ∧
      (∀ i < len, dev'.cells (address + i) = dev.cells (address + i) &&& buffer i) ∧
      (Nor.Erased dev.cells address len → ∀ off n, off + n ≤ len →
        flashReadData dev' (address + off) n =
          some ((List.range n).map fun i => buffer (off + i))) := by
  have hsize := dev.size_lt
  refine ⟨programmed dev buffer address len, flashWriteData_run h, rfl, ?_, ?_, ?_⟩
  · intro x hx
    exact Nor.program_outside hx
  · intro i hi
    refine (Nor.program_inside (by omega) (by omega)).trans ?_
    rw [Nat.add_sub_cancel_left]
  · intro hblank off n hn
    rw [flashReadData_spec (by omega) (by omega)]
    congr 1
    apply List.map_congr_left
    intro i hi
    have hi := List.mem_range.mp hi
    refine (Nor.program_erased hblank (by omega) (by omega)).trans ?_
    congr 1
    omega

/-- A write of 40 bytes that starts in the middle of a line. -/
theorem flashWriteData_law_unaligned : ∃ dev',
    flashWriteData ⟨128, by decide, fun _ => Nor.blank⟩ (fun i => BitVec.ofNat 8 i) 20 40 =
        some dev' ∧
      dev'.size = 128 ∧ (∀ x, x < 20 ∨ 20 + 40 ≤ x → dev'.cells x = Nor.blank) ∧
      (∀ i < 40, dev'.cells (20 + i) = Nor.blank &&& BitVec.ofNat 8 i) ∧
      (Nor.Erased (fun _ => Nor.blank) 20 40 → ∀ off n, off + n ≤ 40 →
        flashReadData dev' (20 + off) n =
          some ((List.range n).map fun i => BitVec.ofNat 8 (off + i))) :=
  flashWriteData_law ⟨128, by decide, fun _ => Nor.blank⟩ _ 20 40 (by decide)

end TuyaSdk.Flash
