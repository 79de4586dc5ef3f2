import TuyaSdk.ManualCal.Area.Passes

/-!
# The calls for the area

When an update and a clear do what they are for, in every setting and in one without faults, where
an update does to the flash what the store takes it to do (`update_faultless`).
-/

namespace TuyaSdk.ManualCal.Area
open TuyaSdk.Lib TuyaSdk.Flash

section
variable {o : Outcome} {dev : FlashDev} {b : Board} {rb buf heap now old : Mem}
  {off len n i k : Nat}

/-! ## The calls -/

theorem osMalloc_lt {heap : Option Mem} (h : osMalloc heap n = some rb) : n < 2 ^ 31 := by
  unfold osMalloc at h
  split at h
  · assumption
  · cases h

theorem u32_le_writeLen (o : Outcome) (dev : FlashDev) (off len : Nat) :
    u32 (off + len) ≤ writeLen o dev off len := by
  unfold writeLen
  split
  · split
    · assumption
    · exact Nat.le_refl _
  · exact Nat.le_refl _

/-- A clear does what it is for exactly in these cases. -/
theorem clears_iff (hdev : startAddr + BK_FLASH_SECTOR_SIZE ≤ b.dev.size) (heap : Option Mem)
    (s : Setting) : Clears (manualCalClearOtpFlash heap s b) ↔ ClearsWhen heap s b := by
  unfold manualCalClearOtpFlash ClearsWhen Clears
  simp only
  have hwrite := u32_le_writeLen s.head b.dev 0 1024
  rw [u32_of_lt (by decide)] at hwrite
  have hmalloc : osMalloc heap 1024 = heap := if_pos (by decide)
  rw [hmalloc]
  cases heap with
  | none => exact iff_of_false (fun h => by obtain ⟨b', hb', -⟩ := h; cases hb') fun h => h
  | some mem =>
    simp only
    unfold manualCalUpdateFlashArea
    rw [if_neg (by decide), if_neg (by decide)]
    obtain ⟨n, hn⟩ : ∃ n, n = writeLen s.head b.dev 0 1024 := ⟨_, rfl⟩
    rw [← hn] at hwrite
    simp only [← hn]
    cases hheap : osMalloc s.heap n with
    | none =>
      constructor
      · rintro ⟨b', heq, hblank⟩
        cases heq
        exact hblank
      · exact fun hblank => ⟨b, rfl, hblank⟩
    | some readBuf =>
      simp only
      have hkeep : ∀ i, 1024 ≤ i → readBuf i = readBuf i := fun _ _ => rfl
      rw [← writeAgain_wipes hdev rfl (osMalloc_lt hheap) hwrite (by decide) hkeep]
      constructor
      · rintro ⟨b', heq, hblank⟩
        obtain ⟨⟨ret, b₁⟩, hrun, rfl⟩ := Option.map_eq_some_iff.mp heq
        exact ⟨ret, b₁, hrun, hblank⟩
      · rintro ⟨ret, b', hrun, hblank⟩
        exact ⟨b', by rw [hrun]; rfl, hblank⟩

/-! ## A flash without faults -/

/-- Every operation does what it should. -/
def Faultless (s : Setting) : Prop := ∀ k, s.attempts k = ⟨.right, .right, .right⟩

/-- What a pass reads is the same in a buffer that was set to zero before. -/
theorem storeBytes_cleared (hn : len < 2 ^ 32) {address : Nat} (ha : address + len ≤ 2 ^ 32) :
    storeBytes (storeBytes rb (List.replicate len 0)) (flashRead dev len address) =
      storeBytes rb (flashRead dev len address) := by
  rw [flashRead_eq ha hn]
  funext i
  by_cases hi : i < len
  · rw [storeBytes_readBytes hi, storeBytes_readBytes hi]
  · have hle : (readBytes dev.cells address len).length ≤ i := by
      rw [length_readBytes]
      omega
    rw [storeBytes_of_le hle, storeBytes_of_le hle]
    exact storeBytes_of_le (by rw [List.length_replicate]; omega)

/-- Without faults a pass does to the flash what `updatePass` does. -/
theorem writeAgain_faultless {s : Setting} (buf : Mem) (hs : Faultless s) (hn : n < 2 ^ 31)
    (hle : off + len ≤ n) (k : Nat) (b : Board) (rb : Mem) :
    (∃ dev', updatePass off buf len n ⟨b.dev, rb, k + 1⟩ = .exit dev' ∧
        ∃ b', writeAgain s.attempts off buf len n (k + 1) b rb = some (0, b') ∧ b'.dev = dev') ∨
      k ≠ 0 ∧ ∃ b' rb', updatePass off buf len n ⟨b.dev, rb, k + 1⟩ = .again ⟨b'.dev, rb', k⟩ ∧
        writeAgain s.attempts off buf len n (k + 1) b rb =
          writeAgain s.attempts off buf len n k b' rb' := by
  have haddr : startAddr = 0x1D0000 := rfl
  have hu32 : u32 (startAddr + off) = startAddr + off := u32_of_lt (by omega)
  obtain ⟨r, w, c, hr, hw, hc, hpass⟩ := writeAgain_succ s.attempts off buf len n k b rb
  rw [hs] at hr hw hc
  obtain ⟨rb₁, hrb₁⟩ : ∃ rb₁, rb₁ = if off ≠ 0 then storeBytes rb (flashRead b.dev n startAddr)
      else rb := ⟨_, rfl⟩
  have hr1 : r = (true, rb₁) := by
    rw [hr, hrb₁]
    split
    · rfl
    · rfl
  obtain ⟨dev', hdev'⟩ : ∃ dev', dev' = flashWrite (flashEraseSector b.dev startAddr)
      (writeBytes rb₁ off (readBytes buf 0 len)) n startAddr := ⟨_, rfl⟩
  have hw1 : w.1 = true := by rw [hw]; rfl
  have hw2 : w.2.dev = dev' := by
    rw [hw, hr1, hdev']
    rfl
  have hc1 : c.1 = true := by rw [hc]; rfl
  have hc2 : c.2 = storeBytes (writeBytes rb₁ off (readBytes buf 0 len))
      (flashRead dev' len (u32 (startAddr + off))) := by
    rw [hc, hr1, hw2]
    exact storeBytes_cleared (by omega) (by rw [hu32]; omega)
  have hupdate : updatePass off buf len n ⟨b.dev, rb, k + 1⟩ =
      if off ≠ 0 ∧ readBytes rb₁ off len = readBytes buf 0 len then .exit b.dev
      else if readBytes c.2 0 len = readBytes buf 0 len then .exit dev'
      else if k ≠ 0 then .again ⟨dev', c.2, k⟩ else .exit dev' := by
    rw [hc2, hdev', hrb₁]
    rfl
  rw [hpass, hupdate, hr1, if_neg (not_not.mpr rfl), if_neg (Nat.not_lt.mpr hle),
    if_neg (not_not.mpr hw1), if_neg (not_not.mpr hc1)]
  by_cases hsame : off ≠ 0 ∧ readBytes rb₁ off len = readBytes buf 0 len
  · rw [if_pos hsame, if_pos hsame]
    exact Or.inl ⟨_, rfl, b, rfl, rfl⟩
  rw [if_neg hsame, if_neg hsame]
  by_cases hcheck : readBytes c.2 0 len = readBytes buf 0 len
  · rw [if_pos hcheck, if_pos hcheck]
    exact Or.inl ⟨_, rfl, _, rfl, hw2⟩
  rw [if_neg hcheck, if_neg hcheck]
  by_cases hk : k = 0
  · subst hk
    exact Or.inl ⟨_, rfl, _, rfl, hw2⟩
  · rw [if_pos hk]
    exact Or.inr ⟨hk, ⟨w.2.dev, true, false, w.2.commands⟩, c.2, by rw [← hw2], rfl⟩

theorem writeAgain_run {s : Setting} (buf : Mem) (hs : Faultless s) (hn : n < 2 ^ 31)
    (hle : off + len ≤ n) (k : Nat) (b : Board) (rb : Mem) :
    ∃ b', writeAgain s.attempts off buf len n (k + 1) b rb = some (0, b') ∧
      Loop.run (updatePass off buf len n) (k + 1) ⟨b.dev, rb, k + 1⟩ = some b'.dev := by
  induction k generalizing b rb with
  | zero =>
    rcases writeAgain_faultless buf hs hn hle 0 b rb with
      ⟨dev', hexit, b', hrun, rfl⟩ | ⟨h0, -⟩
    · exact ⟨b', hrun, Loop.run_exit hexit⟩
    · exact absurd rfl h0
  | succ k ih =>
    rcases writeAgain_faultless buf hs hn hle (k + 1) b rb with
      ⟨dev', hexit, b', hrun, rfl⟩ | ⟨-, b₁, rb₁, hagain, hrun⟩
    · exact ⟨b', hrun, Loop.run_exit hexit⟩
    · rw [hrun, Loop.run_again hagain]
      exact ih b₁ rb₁

theorem searchOptTab_right (dev : FlashDev) :
    searchOptTab .right dev = manualCalSearchOptTab dev := by
  unfold searchOptTab manualCalSearchOptTab
  rfl

/-- Without faults the flash is what the store's `manualCalUpdateFlashArea` makes of it. -/
theorem update_faultless {s : Setting} (hs : Faultless s) (hhead : s.head = .right)
    (hheap : osMalloc s.heap (writeLen s.head b.dev off len) = some heap)
    (hlen : off + len < 2 ^ 32) :
    ∃ ret b', manualCalUpdateFlashArea s b off buf len = some (ret, b') ∧
      b'.dev = ManualCal.manualCalUpdateFlashArea b.dev heap off buf len := by
  have hwrite := u32_le_writeLen s.head b.dev off len
  have hlt := osMalloc_lt hheap
  rw [u32_of_lt hlen] at hwrite
  unfold manualCalUpdateFlashArea ManualCal.manualCalUpdateFlashArea
  by_cases hoff : off > BK_FLASH_SECTOR_SIZE
  · rw [if_pos hoff, if_pos hoff]
    exact ⟨1, b, rfl, rfl⟩
  by_cases h0 : len = 0
  · rw [if_neg hoff, if_neg hoff, if_pos h0, if_pos h0]
    exact ⟨0, b, rfl, rfl⟩
  obtain ⟨b', hrun, hloop⟩ := writeAgain_run buf hs hlt hwrite 2 b heap
  rw [if_neg hoff, if_neg hoff, if_neg h0, if_neg h0]
  simp only [hheap]
  refine ⟨0, b', hrun, ?_⟩
  cases hopt : manualCalSearchOptTab b.dev with
  | none =>
    have hwriteLen : u32 (off + len) = writeLen s.head b.dev off len := by
      simp only [writeLen, hhead, searchOptTab_right, hopt, u32_of_lt hlen]
    exact (congrArg (fun r => r.getD b.dev) (hwriteLen ▸ hloop)).symm
  | some flashLen =>
    have hwriteLen : (if flashLen ≥ off + len then flashLen else u32 (off + len)) =
        writeLen s.head b.dev off len := by
      simp only [writeLen, hhead, searchOptTab_right, hopt, u32_of_lt hlen]
    exact (congrArg (fun r => r.getD b.dev) (hwriteLen ▸ hloop)).symm

end

/-! ## The calls for the area -/

end TuyaSdk.ManualCal.Area
