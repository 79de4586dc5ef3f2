import TuyaSdk.ManualCal.Groups

/-!
# Updating the sector

`manual_cal_update_flash_area` erases the whole sector and writes it again. Of the bytes it wrote
back it changes those of the update and no others (`manualCalUpdateFlashArea_spec`).
-/

namespace TuyaSdk.ManualCal
open TuyaSdk.Lib TuyaSdk.Flash

/-- The bytes `bs` at `off` are new in an area of `n` bytes, and nothing else of it, and nothing
outside the sector. -/
structure Updated (dev : FlashDev) (off : Nat) (bs : List Byte) (n : Nat) (dev' : FlashDev) :
    Prop where
  size : dev'.size = dev.size
  outside : ∀ x, x < startAddr ∨ startAddr + BK_FLASH_SECTOR_SIZE ≤ x → dev'.cells x = dev.cells x
  written : BytesAt dev'.cells (startAddr + off) bs
  kept : ∀ x, startAddr ≤ x → x < startAddr + n →
    x < startAddr + off ∨ startAddr + off + bs.length ≤ x → dev'.cells x = dev.cells x

/-- The first pass writes the bytes, and finds them in its check. -/
theorem updatePass_spec (buf : Mem) {off len n : Nat} {v : UpdateVars}
    (hdev : 0x1D2000 ≤ v.dev.size) (hlen : off + len ≤ n) (hn : n ≤ BK_FLASH_SECTOR_SIZE)
    (hoff : off = 0 → n = len) :
    ∃ dev', updatePass off buf len n v = .exit dev' ∧
      Updated v.dev off (readBytes buf 0 len) n dev' := by
  have hs : startAddr = 0x1D0000 := rfl
  have hsector : BK_FLASH_SECTOR_SIZE = 4096 := rfl
  have hread : flashRead v.dev n startAddr = readBytes v.dev.cells startAddr n :=
    flashRead_eq (by omega) (by omega)
  obtain ⟨rb, hrb⟩ : ∃ rb, rb = if off ≠ 0 then storeBytes v.readBuf (flashRead v.dev n startAddr)
      else v.readBuf := ⟨_, rfl⟩
  rw [updatePass]
  simp only [← hrb]
  by_cases hsame : off ≠ 0 ∧ readBytes rb off len = readBytes buf 0 len
  · rw [if_pos hsame]
    refine ⟨_, rfl, rfl, fun _ _ => rfl, ?_, fun _ _ _ _ => rfl⟩
    rw [if_pos hsame.1, hread] at hrb
    rw [BytesAt, length_readBytes, ← hsame.2, hrb, readBytes_storeBytes hlen]
  · rw [if_neg hsame]
    obtain ⟨dev', hdev'⟩ : ∃ dev', dev' = flashWrite (flashEraseSector v.dev startAddr)
        (writeBytes rb off (readBytes buf 0 len)) n startAddr := ⟨_, rfl⟩
    obtain ⟨hsize, houtside, hcells⟩ : dev'.size = v.dev.size ∧
        (∀ x, x < startAddr ∨ startAddr + 4096 ≤ x → dev'.cells x = v.dev.cells x) ∧
        ∀ i < n, dev'.cells (startAddr + i) = writeBytes rb off (readBytes buf 0 len) i := by
      rw [hdev']
      exact flashWrite_eraseSector (by decide) (by omega) (by decide) hn _
    have hwritten : BytesAt dev'.cells (startAddr + off) (readBytes buf 0 len) := by
      have hbuf := bytesAt_writeBytes rb off (readBytes buf 0 len)
      rw [BytesAt, length_readBytes] at hbuf ⊢
      rw [← hbuf]
      unfold readBytes
      apply List.map_congr_left
      intro i hi
      have hi := List.mem_range.mp hi
      have hcell := hcells (off + i) (by omega)
      rw [readBytes, ← Nat.add_assoc] at hcell
      exact hcell
    have haddr : u32 (startAddr + off) = startAddr + off := u32_of_lt (by omega)
    have hcheck : readBytes (storeBytes (writeBytes rb off (readBytes buf 0 len))
        (flashRead dev' len (u32 (startAddr + off)))) 0 len = readBytes buf 0 len := by
      rw [haddr, flashRead_eq (by omega) (by omega), readBytes_storeBytes (by omega)]
      rw [BytesAt, length_readBytes] at hwritten
      exact hwritten
    rw [← hdev', if_pos hcheck]
    refine ⟨dev', rfl, hsize, houtside, hwritten, fun x hlo hhi hx => ?_⟩
    rw [length_readBytes] at hx
    obtain ⟨i, rfl⟩ : ∃ i, x = startAddr + i := ⟨x - startAddr, by omega⟩
    have hne : off ≠ 0 := fun h => by
      have := hoff h
      omega
    rw [hcells i (by omega), writeBytes_apply (by rw [length_readBytes]; omega), hrb, if_pos hne,
      hread, storeBytes_readBytes (by omega)]

variable {dev : FlashDev} {off len n : Nat}

/-- The whole of what is under the header is written back, or the update reaches further. -/
theorem manualCalUpdateFlashArea_spec (hdev : 0x1D2000 ≤ dev.size) (readBuf buf : Mem)
    (hlen : off + len ≤ n) (hpos : 0 < len) (hn : n ≤ BK_FLASH_SECTOR_SIZE)
    (hoff : off = 0 → n = len)
    (hwrite : manualCalSearchOptTab dev = some n ∨
      n = off + len ∧ ∀ m, manualCalSearchOptTab dev = some m → m ≤ off + len) :
    Updated dev off (readBytes buf 0 len) n (manualCalUpdateFlashArea dev readBuf off buf len) := by
  have hsector : BK_FLASH_SECTOR_SIZE = 4096 := rfl
  have hu32 : u32 (off + len) = off + len := u32_of_lt (by omega)
  have hvars : 0x1D2000 ≤ (UpdateVars.mk dev readBuf BK_FLASH_WRITE_CHECK_TIMES).dev.size := hdev
  obtain ⟨dev', hpass, hspec⟩ := updatePass_spec buf hvars hlen hn hoff
  have hrun : (Loop.run (updatePass off buf len n) BK_FLASH_WRITE_CHECK_TIMES
      ⟨dev, readBuf, BK_FLASH_WRITE_CHECK_TIMES⟩).getD dev = dev' := by
    rw [Loop.run_exit hpass]
    rfl
  rw [manualCalUpdateFlashArea, if_neg (by omega), if_neg (by omega)]
  simp only [hu32]
  rcases hwrite with hopt | ⟨rfl, hle⟩
  · rw [hopt]
    simp only
    rw [if_pos hlen, hrun]
    exact hspec
  · cases hm : manualCalSearchOptTab dev with
    | none =>
      simp only
      rw [hrun]
      exact hspec
    | some m =>
      have hm := hle m hm
      have hwriteLen : (if m ≥ off + len then m else off + len) = off + len := by
        split
        · omega
        · rfl
      simp only
      rw [hwriteLen, hrun]
      exact hspec

/-- An update of everything. -/
theorem manualCalUpdateFlashArea_whole (hdev : 0x1D2000 ≤ dev.size) (readBuf buf : Mem)
    (hopt : ∀ m, manualCalSearchOptTab dev = some m → m ≤ len) (hpos : 0 < len)
    (hn : len ≤ BK_FLASH_SECTOR_SIZE) :
    Updated dev 0 (readBytes buf 0 len) len (manualCalUpdateFlashArea dev readBuf 0 buf len) := by
  refine manualCalUpdateFlashArea_spec hdev readBuf buf (by omega) hpos hn (fun _ => rfl) (.inr ?_)
  rw [Nat.zero_add]
  exact ⟨rfl, hopt⟩

/-! ## Patches -/

/-- An area of bytes with the part in its middle replaced. -/
theorem Updated.bytesAt {dev' : FlashDev} {pre old new post : List Byte}
    (h : Updated dev pre.length new n dev')
    (hbytes : BytesAt dev.cells startAddr (pre ++ (old ++ post))) (hnew : new.length = old.length)
    (hn : (pre ++ (old ++ post)).length ≤ n) :
    BytesAt dev'.cells startAddr (pre ++ (new ++ post)) := by
  simp only [List.length_append] at hn
  obtain ⟨hpre, hrest⟩ := bytesAt_append.mp hbytes
  obtain ⟨-, hpost⟩ := bytesAt_append.mp hrest
  refine bytesAt_append.mpr ⟨?_, bytesAt_append.mpr ⟨h.written, ?_⟩⟩
  · exact hpre.congr fun x ⟨hlo, hhi⟩ => h.kept x hlo (by omega) (.inl hhi)
  · rw [hnew]
    exact hpost.congr fun x ⟨hlo, hhi⟩ => h.kept x (by omega) (by omega) (.inr (by omega))

end TuyaSdk.ManualCal
