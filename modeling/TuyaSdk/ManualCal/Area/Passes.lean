import TuyaSdk.ManualCal.Area.Defs

/-!
# The passes of an update

What a pass does to the sector is what its read found, or for an update at the start the memory from
the heap, with the bytes of the update in it (`writeAgain_step`). From one pass to the next only the
sector is handed on, and so the passes are followed on the sector alone.
-/

namespace TuyaSdk.ManualCal.Area
open TuyaSdk.Lib TuyaSdk.Flash

/-! ## One pass -/

section
variable {o : Outcome} {dev : FlashDev} {b : Board} {rb buf heap now old : Mem}
  {off len n i k : Nat}

theorem sector_apply (hi : i < BK_FLASH_SECTOR_SIZE) : sector dev i = dev.cells (startAddr + i) :=
  if_pos hi

/-- A read stores what it finds. -/
theorem ddevRead_all (hn : n < 2 ^ 31) (hi : i < n) :
    (ddevRead o dev rb n startAddr).2 i = o.found (fun i => dev.cells (startAddr + i)) i := by
  have haddr : startAddr = 0x1D0000 := rfl
  cases o with
  | right =>
    show storeBytes rb (flashRead dev n startAddr) i = dev.cells (startAddr + i)
    rw [flashRead_eq (by omega) (by omega), storeBytes_readBytes hi]
  | wrong success bytes =>
    show storeBytes rb (readBytes bytes 0 n) i = bytes i
    rw [storeBytes_readBytes hi, Nat.zero_add]

/-- A read of the sector. -/
theorem ddevRead_found (hn : n < 2 ^ 31) (hi : i < n) (hs : i < BK_FLASH_SECTOR_SIZE) :
    (ddevRead o dev rb n startAddr).2 i = o.found (sector dev) i := by
  rw [ddevRead_all hn hi]
  cases o with
  | right => exact (sector_apply hs).symm
  | wrong success bytes => rfl

/-- The check reads the area. -/
theorem ddevRead_checks (hs : off + len ≤ BK_FLASH_SECTOR_SIZE) :
    readBytes (ddevRead o dev rb len (u32 (startAddr + off))).2 0 len =
      readBytes (o.checks off (sector dev)) 0 len := by
  have haddr : startAddr = 0x1D0000 := rfl
  have hsector : BK_FLASH_SECTOR_SIZE = 4096 := rfl
  have hu32 : u32 (startAddr + off) = startAddr + off := u32_of_lt (by omega)
  refine readBytes_congr fun i hi => ?_
  have hi : i < len := by simpa using (Set.mem_Ico.mp hi).2
  cases o with
  | right =>
    show storeBytes rb (flashRead dev len (u32 (startAddr + off))) i = sector dev (off + i)
    rw [hu32, flashRead_eq (by omega) (by omega), storeBytes_readBytes hi,
      sector_apply (by omega), Nat.add_assoc]
  | wrong success bytes =>
    show storeBytes rb (readBytes bytes 0 len) i = bytes i
    rw [storeBytes_readBytes hi, Nat.zero_add]

/-- What is behind the bytes of a read stays. -/
theorem ddevRead_behind (hn : n < 2 ^ 32) {address : Nat} (ha : address + n ≤ 2 ^ 32) (hi : n ≤ i) :
    (ddevRead o dev rb n address).2 i = rb i := by
  cases o with
  | right =>
    show storeBytes rb (flashRead dev n address) i = rb i
    rw [flashRead_eq ha hn]
    exact storeBytes_of_le (by rw [length_readBytes]; exact hi)
  | wrong success bytes =>
    exact storeBytes_of_le (by rw [length_readBytes]; exact hi)

theorem ddevRead_success {address : Nat} : (ddevRead o dev rb n address).1 = o.success := by
  cases o <;> rfl

theorem ddevWrite_success {address : Nat} : (ddevWrite o b rb n address).1 = o.success := by
  cases o <;> rfl

theorem Outcome.leaves_congr {room : Bool} {data data' : Mem}
    (h : ∀ i < n, i < BK_FLASH_SECTOR_SIZE → data i = data' i) :
    o.leaves room n data = o.leaves room n data' := by
  funext i
  unfold Outcome.leaves
  split
  · next hi =>
    cases o with
    | right => simp only [h i hi.1 hi.2]
    | wrong success bytes => rfl
  · rfl

/-- Without room for the bytes the write is refused. -/
theorem refused_iff (hdev : startAddr + BK_FLASH_SECTOR_SIZE ≤ dev.size) (hn : n < 2 ^ 31) :
    Refused dev startAddr n ↔ room dev n = false := by
  have haddr : startAddr = 0x1D0000 := rfl
  have hsector : BK_FLASH_SECTOR_SIZE = 4096 := rfl
  have hline : lineOf startAddr = startAddr := rfl
  have hu32 : u32 (startAddr + n) = startAddr + n := u32_of_lt (by omega)
  unfold Refused room
  rw [hline, hu32, decide_eq_false_iff_not]
  omega

/-- A sector that is erased and then programmed from its start on. -/
theorem sector_program (hdev : startAddr + BK_FLASH_SECTOR_SIZE ≤ b.dev.size) (hn : n < 2 ^ 31) :
    sector (ddevWrite o (eraseSector b startAddr) rb n startAddr).2.dev =
      o.leaves (room b.dev n) n rb := by
  have haddr : startAddr = 0x1D0000 := rfl
  have hsector : BK_FLASH_SECTOR_SIZE = 4096 := rfl
  have herase : (eraseSector b startAddr).dev =
      { b.dev with cells := Nor.erase b.dev.cells startAddr 4096 } :=
    flashEraseSector_eq (by decide) hdev (by decide)
  funext i
  by_cases hi : i < BK_FLASH_SECTOR_SIZE
  · rw [sector_apply hi]
    have hblank : Nor.erase b.dev.cells startAddr 4096 (startAddr + i) = Nor.blank :=
      Nor.erase_inside (by omega) (by omega)
    cases o with
    | right =>
      show (flashWrite (eraseSector b startAddr).dev rb n startAddr).cells (startAddr + i) = _
      rw [herase]
      obtain ⟨dev, hdev'⟩ : ∃ dev : FlashDev,
          dev = { b.dev with cells := Nor.erase b.dev.cells startAddr 4096 } := ⟨_, rfl⟩
      have hsize : dev.size = b.dev.size := by rw [hdev']
      have hcells : dev.cells = Nor.erase b.dev.cells startAddr 4096 := by rw [hdev']
      have hwrite : flashWrite dev rb n startAddr =
          if Refused dev startAddr n then dev else programmed dev rb startAddr n := by
        apply Option.some.inj
        rw [flashWrite, Option.some_get, flashWriteData_eq (by omega) (by omega)]
      have hroom : room dev n = room b.dev n := by rw [room, room, hsize]
      have hrefused : Refused dev startAddr n ↔ room b.dev n = false :=
        hroom ▸ refused_iff (by omega) hn
      rw [← hdev', hwrite]
      unfold Outcome.leaves
      cases hr : room b.dev n with
      | false =>
        rw [if_pos (hrefused.mpr hr), hcells, hblank]
        simp
      | true =>
        rw [if_neg fun h => Bool.noConfusion (hr.symm.trans (hrefused.mp h))]
        by_cases hin : i < n
        · rw [if_pos ⟨hin, hi⟩]
          show Nor.program dev.cells startAddr n rb (startAddr + i) = rb i
          rw [Nor.program_inside (by omega) (by omega), hcells, hblank, Nor.blank_and,
            Nat.add_sub_cancel_left]
        · rw [if_neg fun h => hin h.1]
          show Nor.program dev.cells startAddr n rb (startAddr + i) = Nor.blank
          rw [Nor.program_outside (by omega), hcells, hblank]
    | wrong success bytes =>
      show writeBytes (eraseSector b startAddr).dev.cells startAddr (readBytes bytes 0 n)
        (startAddr + i) = _
      have hcells : (eraseSector b startAddr).dev.cells (startAddr + i) = Nor.blank := by
        rw [herase]
        exact hblank
      unfold Outcome.leaves
      by_cases hin : i < n
      · rw [if_pos ⟨hin, hi⟩]
        unfold writeBytes
        rw [length_readBytes, if_pos (by omega), Nat.add_sub_cancel_left]
        unfold readBytes
        simp [hin]
      · rw [if_neg fun h => hin h.1, writeBytes_apply (by rw [length_readBytes]; omega), hcells]
  · unfold sector Outcome.leaves
    rw [if_neg hi, if_neg fun h => hi h.2]

/-- The bytes of an update in other bytes. -/
theorem writeBytes_area {base base' bytes : Mem} (h : i < off ∨ off + len ≤ i → base i = base' i) :
    writeBytes base off (readBytes bytes 0 len) i =
      writeBytes base' off (readBytes bytes 0 len) i := by
  unfold writeBytes
  rw [length_readBytes]
  split
  · rfl
  · exact h (by omega)

theorem ddevWrite_size {address : Nat} (ha : address + n ≤ 2 ^ 32) (hn : n < 2 ^ 32) :
    (ddevWrite o b rb n address).2.dev.size = b.dev.size := by
  cases o with
  | right => exact flashWrite_size b.dev rb ha hn
  | wrong success bytes => rfl

/-- A pass, with what its three operations give. -/
theorem writeAgain_succ (attempts : Nat → Attempt) (off : Nat) (buf : Mem) (len n k : Nat)
    (b : Board) (rb : Mem) :
    let a := attempts (k + 1)
    ∃ r w c, (r = if off ≠ 0 then ddevRead a.read b.dev rb n startAddr else (true, rb)) ∧
      w = ddevWrite a.program (eraseSector ⟨b.dev, false, true, b.commands⟩ startAddr)
        (writeBytes r.2 off (readBytes buf 0 len)) n startAddr ∧
      c = ddevRead a.check w.2.dev
        (storeBytes (writeBytes r.2 off (readBytes buf 0 len)) (List.replicate len 0)) len
        (u32 (startAddr + off)) ∧
      writeAgain attempts off buf len n (k + 1) b rb =
        if ¬ r.1 then some (1, b)
        else if n < off + len then none
        else if off ≠ 0 ∧ readBytes r.2 off len = readBytes buf 0 len then some (0, b)
        else if ¬ w.1 then some (1, ⟨w.2.dev, w.2.protectAll, false, w.2.commands⟩)
        else if ¬ c.1 then some (1, ⟨w.2.dev, true, false, w.2.commands⟩)
        else if readBytes c.2 0 len = readBytes buf 0 len then
          some (0, ⟨w.2.dev, true, false, w.2.commands⟩)
        else writeAgain attempts off buf len n k
          ⟨w.2.dev, true, false, w.2.commands⟩ c.2 :=
  ⟨_, _, _, rfl, rfl, rfl, rfl⟩

/-- What one pass does to the sector, and how it ends. -/
theorem writeAgain_step {attempts : Nat → Attempt} (buf : Mem)
    (hdev : startAddr + BK_FLASH_SECTOR_SIZE ≤ b.dev.size) (hn : n < 2 ^ 31) (hle : off + len ≤ n)
    (hs : off + len ≤ BK_FLASH_SECTOR_SIZE) (hrb : off = 0 → ∀ i, len ≤ i → rb i = heap i)
    (k : Nat) :
    let a := attempts (k + 1)
    let next := a.leaves heap (room b.dev n) off buf len n (sector b.dev)
    ∃ b' failed rb', (sector b'.dev = next ∧ b'.dev.size = b.dev.size ∧ Idle b') ∧
      (sector failed.dev = next ∧ ¬ Idle failed) ∧
      (off = 0 → ∀ i, len ≤ i → rb' i = heap i) ∧
      writeAgain attempts off buf len n (k + 1) b rb =
        if a.Stops off buf len (sector b.dev) then some (if a.read.success then 0 else 1, b)
        else if ¬ a.program.success then some (1, failed)
        else if ¬ a.check.success then some (1, b')
        else if Same 0 buf len (a.check.checks off next) then some (0, b')
        else writeAgain attempts off buf len n k b' rb' := by
  intro a next
  have haddr : startAddr = 0x1D0000 := rfl
  have hsector : BK_FLASH_SECTOR_SIZE = 4096 := rfl
  obtain ⟨r, w, c, hr, hw, hc, hpass⟩ := writeAgain_succ attempts off buf len n k b rb
  have hsize : w.2.dev.size = b.dev.size := by
    rw [hw, ddevWrite_size (by omega) (by omega)]
    exact flashEraseSector_size b.dev startAddr
  have hnext : sector w.2.dev = next := by
    rw [hw]
    refine (sector_program (b := ⟨b.dev, false, true, b.commands⟩) hdev hn).trans
      (Outcome.leaves_congr fun i hi his => ?_)
    refine writeBytes_area fun hout => ?_
    by_cases h0 : off = 0
    · rw [if_pos h0, hr, if_neg (not_not.mpr h0)]
      exact hrb h0 i (by omega)
    · rw [if_neg h0, hr, if_pos h0]
      exact ddevRead_found hn hi his
  have hread : off ≠ 0 → r.1 = a.read.success := fun h0 => by
    rw [hr, if_pos h0]
    exact ddevRead_success
  have hsame : off ≠ 0 → (readBytes r.2 off len = readBytes buf 0 len ↔
      Same off buf len (a.read.found (sector b.dev))) := fun h0 => by
    unfold Same
    rw [hr, if_pos h0]
    have heq : readBytes (ddevRead a.read b.dev rb n startAddr).2 off len =
        readBytes (a.read.found (sector b.dev)) off len := by
      refine readBytes_congr fun i hi => ?_
      have hi := Set.mem_Ico.mp hi
      exact ddevRead_found hn (by omega) (by omega)
    rw [heq]
  have hcheck : readBytes c.2 0 len = readBytes buf 0 len ↔
      Same 0 buf len (a.check.checks off next) := by
    unfold Same
    rw [hc, ddevRead_checks hs, hnext]
  refine ⟨⟨w.2.dev, true, false, w.2.commands⟩, ⟨w.2.dev, w.2.protectAll, false, w.2.commands⟩,
    c.2, ⟨hnext, hsize, rfl, rfl⟩, ⟨hnext, ?_⟩, fun h0 i hi => ?_, ?_⟩
  · rintro ⟨hprotect, -⟩
    have hoff : w.2.protectAll = false := by
      rw [hw]
      cases (attempts (k + 1)).program <;> rfl
    exact Bool.noConfusion (hoff.symm.trans hprotect)
  · have hu32 : u32 (startAddr + off) = startAddr + off := u32_of_lt (by omega)
    rw [hc, hu32, ddevRead_behind (by omega) (by omega) hi,
      storeBytes_of_le (by rw [List.length_replicate]; exact hi),
      writeBytes_apply (by rw [length_readBytes]; omega), hr, if_neg (not_not.mpr h0)]
    exact hrb h0 i hi
  · have hw1 : w.1 = a.program.success := by
      rw [hw]
      exact ddevWrite_success
    have hc1 : c.1 = a.check.success := by
      rw [hc]
      exact ddevRead_success
    rw [hpass, hw1, hc1]
    by_cases h0 : off = 0
    · have hr1 : r.1 = true := by
        rw [hr, if_neg (not_not.mpr h0)]
      have hstops : ¬ a.Stops off buf len (sector b.dev) := fun h => h.1 h0
      rw [if_neg (not_not.mpr hr1), if_neg (by omega), if_neg fun h => h.1 h0, if_neg hstops]
      simp only [hcheck]
    · rw [hread h0, if_neg (show ¬ n < off + len by omega)]
      by_cases hok : a.read.success = true
      · have hstops : a.Stops off buf len (sector b.dev) ↔
            off ≠ 0 ∧ readBytes r.2 off len = readBytes buf 0 len := by
          rw [hsame h0]
          exact ⟨fun h => ⟨h0, h.2.resolve_left fun hno => Bool.noConfusion (hok.symm.trans hno)⟩,
            fun h => ⟨h0, Or.inr h.2⟩⟩
        rw [if_neg (not_not.mpr hok)]
        simp only [hstops, hok, hcheck, if_true]
      · have hstops : a.Stops off buf len (sector b.dev) :=
          ⟨h0, Or.inl (Bool.eq_false_of_not_eq_true hok)⟩
        rw [if_pos hok, if_pos hstops, if_neg hok]

/-! ## The passes -/

/-- A clear. -/
theorem writeAgain_wipes {attempts : Nat → Attempt} {rm : Bool}
    (hdev : startAddr + BK_FLASH_SECTOR_SIZE ≤ b.dev.size) (hroom : room b.dev n = rm)
    (hn : n < 2 ^ 31) (hle : len ≤ n) (hs : len ≤ BK_FLASH_SECTOR_SIZE)
    (hrb : ∀ i, len ≤ i → rb i = heap i) :
    (∃ ret b', writeAgain attempts 0 buf len n k b rb = some (ret, b') ∧
      Blank (sector b'.dev)) ↔
      Wipes attempts heap rm 0 buf len n k (sector b.dev) := by
  induction k generalizing b rb with
  | zero =>
    constructor
    · rintro ⟨ret, b', heq, hblank⟩
      cases heq
      exact hblank
    · exact fun hblank => ⟨0, b, rfl, hblank⟩
  | succ k ih =>
    have hlen : 0 + len = len := Nat.zero_add len
    obtain ⟨b', failed, rb', ⟨hnext, hsize, -⟩, ⟨hfailed, -⟩, hrb', hpass⟩ :=
      writeAgain_step buf hdev hn (hlen.symm ▸ hle) (hlen.symm ▸ hs) (fun _ => hrb) k
    rw [hroom] at hnext hfailed hpass
    have hroom' : room b'.dev n = rm := by rw [room, hsize]; exact hroom
    have hrest := ih (hsize ▸ hdev) hroom' (hrb' rfl)
    rw [hnext] at hrest
    have hstops : ¬ (attempts (k + 1)).Stops 0 buf len (sector b.dev) := fun h => h.1 rfl
    rw [Wipes, hpass, if_neg hstops]
    by_cases hprogram : (attempts (k + 1)).program.success = true
    · rw [if_neg (not_not.mpr hprogram)]
      simp only [hprogram, true_and]
      by_cases hcheck : (attempts (k + 1)).check.success = true
      · rw [if_neg (not_not.mpr hcheck)]
        simp only [hcheck, true_and, ite_not]
        split
        · rw [← hnext]
          constructor
          · rintro ⟨ret, b₁, heq, hblank⟩
            cases heq
            exact hblank
          · exact fun hblank => ⟨0, b', rfl, hblank⟩
        · exact hrest
      · rw [if_pos hcheck, if_neg fun h => hcheck h.1, ← hnext]
        constructor
        · rintro ⟨ret, b₁, heq, hblank⟩
          cases heq
          exact hblank
        · exact fun hblank => ⟨1, b', rfl, hblank⟩
    · rw [if_pos hprogram, if_neg fun h => hprogram h.1, ← hfailed]
      constructor
      · rintro ⟨ret, b₁, heq, hblank⟩
        cases heq
        exact hblank
      · exact fun hblank => ⟨1, failed, rfl, hblank⟩

end

end TuyaSdk.ManualCal.Area
