import TuyaSdk.TuyaMemHeap.Invariant

/-!
# Reallocation and creation

`tuya_mem_heap_realloc` on a pointer in use is an allocation, a copy into the payload of
the new block, and a release of the old one; `tuya_mem_heap_create` starts the heap with
one free block.
-/

namespace TuyaSdk.TuyaMemHeap
open TuyaSdk.Lib

section Realloc

variable {s : HeapState} {i : Fin memHeapListNum} {bs : List Block} {b : Block}

theorem clamp4_idem (size : Nat) : clamp4 (clamp4 size) = clamp4 size := by
  unfold clamp4
  split <;> simp_all

/-- A heap whose memory changed in the payload of a used block only. -/
theorem HeapInv.writePayload (h : HeapInv s i bs) (hb : b ∈ bs) (hu : b.used = true) {m : Mem}
    (hout : ∀ x, x ∉ Payload b → m x = s.mem x) : HeapInv { s with mem := m } i bs :=
  ⟨h.region, h.rep.writePayload hb hu hout, h.coalesced, h.free⟩

/-- The state between the copy and the release of a moving `realloc`. -/
def copied (s : HeapState) (dst src n : Nat) : HeapState :=
  { s with mem := memcpy s.mem dst src n }

/-- A moving `realloc` of the block `b` into the block `c`. -/
structure Moves (s : HeapState) (i : Fin memHeapListNum) (bs : List Block) (b : Block) (n : Nat)
    (s₁ : HeapState) (c : Block) (s' : HeapState) (bs' : List Block) : Prop where
  call : memAllocate s i n = some (s₁, c.addr + 4)
  alloc : ∃ bs₁, Allocates s i bs (roundedSize n) s₁ c bs₁ ∧
    HeapInv (copied s₁ (c.addr + 4) (b.addr + 4) (b.size - 4)) i bs₁ ∧
    Frees (copied s₁ (c.addr + 4) (b.addr + 4) (b.size - 4)) i bs₁ b s' bs'
  room : b.size + 4 ≤ c.size

/-- `tuya_mem_heap_realloc` of a block in use: it stays, nothing large enough is free, or it
moves. -/
theorem tuyaMemHeapRealloc_spec (h : HeapInv s i bs) (hb : b ∈ bs) (hu : b.used = true)
    {size : Nat} (hsize : size < 2 ^ 32 - 8) :
    ∃ s' ptr, tuyaMemHeapRealloc s (some i) (b.addr + 4) size = some (s', ptr) ∧
      (ptr = b.addr + 4 ∧ s' = s ∧ clamp4 size + 5 ≤ b.size ∨ ptr = 0 ∧ s' = s ∨
        ∃ s₁ c bs', Moves s i bs b (clamp4 size) s₁ c s' bs' ∧ ptr = c.addr + 4 ∧
          clamp4 size + 5 ≤ c.size) := by
  obtain ⟨hb0, h12, htop⟩ := h.bounds hb
  obtain ⟨hc4, hcle, hwrap⟩ := clamp4_spec size
  have hlt : clamp4 size < 2 ^ 32 - 8 := by omega
  obtain ⟨h4, hfit, hle⟩ := roundedSize_spec hc4 hlt
  have hok := h.rep.blocks b hb
  have hb4 := (h.rep.sizes b hb).1
  have hblock : sub32 (b.addr + 4) 4 = b.addr := by
    rw [sub32_of_le (by omega) (by omega), Nat.add_sub_cancel]
  have hdog : memDogAddr s.mem b.addr = b.addr + b.size - 1 :=
    memDogAddr_eq hok.size (by omega) htop
  have huse : s.mem (b.addr + b.size - 1) = memBlockStatUse := by
    rw [hok.dog, hu]
    rfl
  have hclamp : (if size < 4 then 4 else size) = clamp4 size := rfl
  unfold tuyaMemHeapRealloc
  rw [if_neg (by omega)]
  simp only [hblock, hdog, huse, hok.size, hclamp, tuyaMemHeapMalloc, tuyaMemHeapFree, ne_eq,
    not_true, if_false]
  by_cases hstay : roundedSize (clamp4 size) ≤ b.size
  · exact ⟨s, b.addr + 4, if_pos hstay, Or.inl ⟨rfl, rfl, by omega⟩⟩
  · rw [if_neg hstay]
    obtain ⟨s₁, ptr, halloc, hcase⟩ := memAllocate_spec h (hlt.trans_le (Nat.sub_le _ _))
    rw [clamp4_idem] at hcase
    rw [halloc]
    rcases hcase with ⟨rfl, rfl⟩ | ⟨c, bs₁, hA, rfl, hroom⟩
    · exact ⟨s₁, 0, by simp, Or.inr (Or.inl ⟨rfl, rfl⟩)⟩
    · have hcb := (hA.takes.mem_used c).mpr (Or.inl rfl)
      have hbb := (hA.takes.mem_used b).mpr (Or.inr ⟨hb, hu⟩)
      have hok₁ := hA.inv.rep.blocks b hbb.1
      have hcs := hA.inv.rep.sizes c hcb.1
      have hfits := hA.takes.fits
      -- both sizes are multiples of four, so the new block is at least four bytes larger
      have hroom₄ : b.size + 4 ≤ c.size := by
        have h1 := hcs.1
        omega
      have hn : sub32 b.size 4 = b.size - 4 := sub32_of_le (by omega) (by omega)
      have hcopy : HeapInv (copied s₁ (c.addr + 4) (b.addr + 4) (b.size - 4)) i bs₁ := by
        refine hA.inv.writePayload hcb.1 hcb.2 fun x hx => memcpy_apply ?_
        by_contra hin
        exact hx ⟨by omega, by omega⟩
      obtain ⟨s', bs', hfree, hF⟩ := memDeallocate_spec hcopy hbb.1 hbb.2
      refine ⟨s', c.addr + 4, ?_, Or.inr (Or.inr ⟨s₁, c, bs', ⟨halloc, ⟨bs₁, hA, hcopy, hF⟩, hroom₄⟩,
        rfl, hroom⟩)⟩
      simp only [hok₁.size, hn]
      rw [if_neg (by omega)]
      unfold copied at hfree
      rw [hfree]
      rfl

end Realloc

/-! ## Creation -/

/-- The region left between the aligned ends. -/
theorem region_created {base size : Nat} (h0 : base ≠ 0) (htop : base + size ≤ 2 ^ 32)
    (hpad : sub32 (alignUp base) base < size) :
    base ≤ alignUp base ∧ alignUp base + alignDown (sub32 size (sub32 (alignUp base) base)) =
      alignDown (base + size) ∧ 4 ∣ alignDown (sub32 size (sub32 (alignUp base) base)) := by
  have hlow : base + 3 < 2 ^ 32 := by
    by_contra hge
    unfold sub32 alignUp u32 memAlignNum at hpad
    omega
  unfold sub32 alignUp alignDown u32 memAlignNum at *
  omega

/-- The layout of a new heap. -/
def initialBlocks (base size : Nat) : List Block :=
  [⟨alignUp base, alignDown (sub32 size (sub32 (alignUp base) base)), false⟩]

theorem memHeapInit_spec {s s' : HeapState} {i : Fin memHeapListNum} {base size : Nat}
    (h : memHeapInit s i base size = some s') (h0 : base ≠ 0) (htop : base + size ≤ 2 ^ 32)
    (hpad : sub32 (alignUp base) base < size) :
    HeapInv s' i (initialBlocks base size) ∧ (s'.memHeapList i).base = base ∧
      (s'.memHeapList i).size = size ∧
      (s'.memHeapList i).freeWatermark = (s'.memHeapList i).free := by
  obtain ⟨hlo, hend, h4⟩ := region_created h0 htop hpad
  unfold memHeapInit at h
  obtain ⟨usable, husable⟩ : ∃ usable, usable =
    alignDown (sub32 size (sub32 (alignUp base) base)) := ⟨_, rfl⟩
  simp only [← husable] at h hend h4
  split at h
  · simp at h
  · rename_i hmin
    unfold memHeapMinSize memBlockMinSize memBlockHeadSize at hmin
    have hhi : alignDown (base + size) ≤ base + size := Nat.div_mul_le_self _ _
    obtain ⟨m₁, hm₁⟩ : ∃ m₁, m₁ = setBlockNext s.mem (alignUp base) 0 := ⟨_, rfl⟩
    obtain ⟨m₂, hm₂⟩ : ∃ m₂, m₂ = setBlockSize m₁ (alignUp base) usable := ⟨_, rfl⟩
    have hsize₂ : blockSize m₂ (alignUp base) = usable := by
      rw [hm₂, blockSize_setBlockSize, u32_of_lt (by omega)]
    have hnext₂ : blockNext m₂ (alignUp base) = 0 := by
      have hkeep : blockNext m₂ (alignUp base) = blockNext m₁ (alignUp base) :=
        blockNext_eq fun x hx _ => by rw [hm₂, setBlockSize_apply (by omega)]
      rw [hkeep, hm₁, blockNext_setBlockNext, u32_of_lt (by omega)]
    have hdog : memDogAddr m₂ (alignUp base) = alignUp base + usable - 1 :=
      memDogAddr_eq hsize₂ (by omega) (by omega)
    simp only [← hm₁, ← hm₂, hdog, Option.some.injEq] at h
    obtain ⟨m₃, hm₃⟩ : ∃ m₃, m₃ = write8 m₂ (alignUp base + usable - 1) memBlockStatFree :=
      ⟨_, rfl⟩
    rw [← hm₃] at h
    have hout₃ : ∀ x, x ≠ alignUp base + usable - 1 → m₃ x = m₂ x := fun x hx => by
      rw [hm₃, write8_apply hx]
    subst h
    have hinit : initialBlocks base size = [⟨alignUp base, usable, false⟩] := by
      rw [initialBlocks, ← husable]
    rw [hinit]
    refine ⟨⟨?_, ?_, by simp [Coalesced], ?_⟩, by simp, by simp, by simp⟩
    · simp only [Function.update_self]
      exact ⟨by simp only; omega, by simp only; omega, htop, hlo⟩
    · simp only [Function.update_self, regionLo, regionHi]
      refine (partRep_free rfl).mpr ⟨rfl, hend, ⟨h4, by simp only; omega⟩, ⟨?_, ?_⟩, rfl, ?_, ?_⟩
      · have hkeep : blockSize m₃ (alignUp base) = blockSize m₂ (alignUp base) :=
          blockSize_eq fun x _ hx => hout₃ x (by omega)
        exact hkeep.trans hsize₂
      · rw [hm₃]
        exact write8_same ..
      · simp only
        omega
      · have hkeep : blockNext m₃ (alignUp base) = blockNext m₂ (alignUp base) :=
          blockNext_eq fun x _ hx => hout₃ x (by omega)
        exact hkeep.trans hnext₂
    · simp [freeBytes, freeBlocks]

/-- A successful `tuya_mem_heap_create` leaves a well-formed heap of one free block. -/
theorem tuyaMemHeapCreate_spec {s s' : HeapState} {i : Fin memHeapListNum} {base size : Nat}
    (h : tuyaMemHeapCreate s base size = (s', some i)) (htop : base + size ≤ 2 ^ 32)
    (hpad : sub32 (alignUp base) base < size) :
    HeapInv s' i (initialBlocks base size) ∧ (s'.memHeapList i).base = base ∧
      (s'.memHeapList i).size = size ∧
      (s'.memHeapList i).freeWatermark = (s'.memHeapList i).free := by
  unfold tuyaMemHeapCreate at h
  split at h
  · simp at h
  · rename_i hparams
    have h0 : base ≠ 0 := fun hb => hparams (Or.inl hb)
    split at h
    · simp at h
    · split at h
      · rename_i hinit
        simp only [Prod.mk.injEq, Option.some.injEq] at h
        obtain ⟨rfl, rfl⟩ := h
        exact memHeapInit_spec hinit h0 htop hpad
      · simp at h

end TuyaSdk.TuyaMemHeap
