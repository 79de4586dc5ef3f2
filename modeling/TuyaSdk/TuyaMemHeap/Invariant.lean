import TuyaSdk.TuyaMemHeap.Deallocate

/-!
# The heap invariant

`HeapInv s i bs`: slot `i` holds a heap whose region the memory represents as the layout
`bs`, without adjacent free blocks, and whose `free` counter is exact. Each entry point
keeps it; the statements say which block was taken or released, which bytes may have
changed, and what became of the watermark.
-/

namespace TuyaSdk.TuyaMemHeap
open TuyaSdk.Lib

/-- The first address of the managed part of a heap's region. -/
def regionLo (heap : MemHeap) : Nat := alignUp heap.base

/-- The end of the managed part of a heap's region. -/
def regionHi (heap : MemHeap) : Nat := alignDown (heap.base + heap.size)

/-- A region that lies in the address space and does not start at NULL. -/
structure RegionOk (heap : MemHeap) : Prop where
  base_pos : 0 < heap.base
  size_pos : 0 < heap.size
  top : heap.base + heap.size ≤ 2 ^ 32
  aligned : heap.base ≤ regionLo heap

/-- Slot `i` holds a well-formed heap with the layout `bs`. -/
structure HeapInv (s : HeapState) (i : Fin memHeapListNum) (bs : List Block) : Prop where
  region : RegionOk (s.memHeapList i)
  rep : HeapRep s.mem (s.memHeapList i).freeList (regionLo (s.memHeapList i))
    (regionHi (s.memHeapList i)) bs
  coalesced : Coalesced bs
  free : (s.memHeapList i).free = freeBytes bs

/-- A heap record that describes the same region. -/
def SameRegion (heap heap' : MemHeap) : Prop := heap'.base = heap.base ∧ heap'.size = heap.size

theorem SameRegion.trans {heap heap' heap'' : MemHeap} (h₁ : SameRegion heap heap')
    (h₂ : SameRegion heap' heap'') : SameRegion heap heap'' :=
  ⟨h₂.1.trans h₁.1, h₂.2.trans h₁.2⟩

section Region

variable {heap heap' : MemHeap}

theorem SameRegion.lo (h : SameRegion heap heap') : regionLo heap' = regionLo heap := by
  rw [regionLo, regionLo, h.1]

theorem SameRegion.hi (h : SameRegion heap heap') : regionHi heap' = regionHi heap := by
  rw [regionHi, regionHi, h.1, h.2]

theorem RegionOk.same (h : RegionOk heap) (hs : SameRegion heap heap') : RegionOk heap' := by
  obtain ⟨h1, h2, h3, h4⟩ := h
  have hlo := hs.lo
  obtain ⟨hb, hz⟩ := hs
  exact ⟨by omega, by omega, by omega, by omega⟩

theorem RegionOk.hi_le (h : RegionOk heap) :
    regionHi heap ≤ heap.base + heap.size ∧ regionHi heap ≤ 2 ^ 32 := by
  have h1 := h.top
  have h2 : regionHi heap ≤ heap.base + heap.size := Nat.div_mul_le_self _ _
  exact ⟨h2, h2.trans h1⟩

theorem RegionOk.lo_pos (h : RegionOk heap) : 0 < regionLo heap := h.base_pos.trans_le h.aligned

/-- A layout of the region has fewer blocks than the region has bytes. -/
theorem RegionOk.length_lt (h : RegionOk heap) {bs : List Block}
    (ht : Tiles (regionLo heap) (regionHi heap) bs) (hs : ∀ b ∈ bs, SizeOk b) :
    bs.length < heap.size := by
  have h1 := ht.length_le hs
  have h2 := h.hi_le.1
  have h3 := h.aligned
  have h4 := h.size_pos
  omega

end Region

/-! ## Layouts and memory writes -/

theorem freeBytes_le {lo hi : Nat} {bs : List Block} (h : Tiles lo hi bs) :
    freeBytes bs ≤ hi - lo := by
  induction bs generalizing lo with
  | nil => exact Nat.zero_le _
  | cons b bs ih =>
    have h1 := ih h.2
    have h2 := h.2.le
    cases hb : b.used with
    | true =>
      rw [freeBytes_cons_used hb]
      omega
    | false =>
      rw [freeBytes_cons_free hb]
      omega

/-- The bytes of a used block between its header and its dog byte. -/
def Payload (b : Block) : Set Nat := Set.Ico (b.addr + 4) (b.addr + b.size - 1)

/-- Writes to the payload of a used block leave the layout represented. -/
theorem PartRep.writePayload {m m' : Mem} {p lo hi : Nat} {bs : List Block} {b : Block}
    (h : HeapRep m p lo hi bs) (hb : b ∈ bs) (hu : b.used = true)
    (hout : ∀ x, x ∉ Payload b → m' x = m x) : HeapRep m' p lo hi bs := by
  obtain ⟨pre, post, rfl⟩ := List.append_of_mem hb
  obtain ⟨r, q, h₁, h₂, h₃⟩ := partRep_middle.mp h
  obtain ⟨-, -, hs, hok, rfl⟩ := (partRep_used hu).mp h₂
  have h12 := hs.2
  have hout' : ∀ x, x < b.addr + 4 ∨ b.addr + b.size - 1 ≤ x → m' x = m x := by
    intro x hx
    apply hout
    intro hmem
    have h1 := hmem.1
    have h2 := hmem.2
    omega
  refine partRep_middle.mpr ⟨r, r, ?_, ?_, ?_⟩
  · exact h₁.congr fun x _ hx => hout' x (by omega)
  · refine (partRep_used hu).mpr ⟨rfl, rfl, hs, ⟨?_, ?_⟩, rfl⟩
    · rw [← hok.size]
      exact blockSize_eq fun x _ hx => hout' x (Or.inl hx)
    · rw [← hok.dog]
      exact hout' _ (Or.inr (by omega))
  · exact h₃.congr fun x hx _ => hout' x (by omega)

/-! ## Requests -/

/-- Where the size of a block is computed without wrapping, it holds the request, the
header and the dog byte. -/
theorem roundedSize_spec {n : Nat} (h4 : 4 ≤ n) (hn : n < 2 ^ 32 - 8) :
    4 ∣ roundedSize n ∧ n + 5 ≤ roundedSize n ∧ roundedSize n ≤ n + 8 := by
  unfold roundedSize alignUp u32 memAlignNum memBlockHeadSize
  omega

/-- A request in the last eight sizes wraps to a block size below any block's. -/
theorem roundedSize_wraps {n : Nat} (hn : 2 ^ 32 - 8 ≤ n) (hlt : n < 2 ^ 32) :
    roundedSize n ≤ 4 := by
  unfold roundedSize alignUp u32 memAlignNum memBlockHeadSize
  omega

/-- `size < 4 ? 4 : size`. -/
def clamp4 (size : Nat) : Nat := if size < 4 then 4 else size

theorem clamp4_spec (size : Nat) : 4 ≤ clamp4 size ∧ size ≤ clamp4 size ∧
    (2 ^ 32 - 8 ≤ size ∧ clamp4 size = size ∨ size < 2 ^ 32 - 8 ∧ clamp4 size < 2 ^ 32 - 8) := by
  unfold clamp4
  split <;> omega

/-- `ALIGN_UP(max(size, 4) + 1) + 4` in unbounded arithmetic. -/
def requestSize (size : Nat) : Nat := (max size 4 + 4) / memAlignNum * memAlignNum + memBlockHeadSize

theorem requestSize_eq (size : Nat) : requestSize size = (clamp4 size + 4) / 4 * 4 + 4 := by
  have hmax : max size 4 = clamp4 size := by
    unfold clamp4
    split <;> omega
  rw [requestSize, hmax]

theorem roundedSize_eq {size : Nat} (h : clamp4 size < 2 ^ 32 - 8) :
    roundedSize (clamp4 size) = requestSize size := by
  rw [requestSize_eq]
  unfold roundedSize alignUp u32 memAlignNum memBlockHeadSize
  omega

theorem requestSize_overflow (size : Nat) : 2 ^ 32 ≤ requestSize size ↔ 2 ^ 32 - 8 ≤ clamp4 size := by
  rw [requestSize_eq]
  omega

/-- Why a heap with the layout `bs` cannot serve a request. -/
def Unserved (bs : List Block) (size : Nat) : Prop :=
  size = 0 ∨ 2 ^ 32 ≤ requestSize size ∨ ∀ b ∈ freeBlocks bs, b.size < requestSize size

/-! ## The entry points -/

section Operations

variable {s : HeapState} {i : Fin memHeapListNum} {bs : List Block} {b : Block}

theorem HeapInv.length_lt (h : HeapInv s i bs) : bs.length < (s.memHeapList i).size :=
  h.region.length_lt h.rep.tiles h.rep.sizes

/-- The blocks of a heap lie between a positive address and the top of memory. -/
theorem HeapInv.bounds (h : HeapInv s i bs) (hb : b ∈ bs) :
    0 < b.addr ∧ 12 ≤ b.size ∧ b.addr + b.size ≤ 2 ^ 32 := by
  have h1 := h.rep.tiles.bounds hb
  have h2 := h.region.lo_pos
  have h3 := h.region.hi_le.2
  exact ⟨by omega, (h.rep.sizes b hb).2, by omega⟩

/-- `free` is a 32-bit number. -/
theorem HeapInv.free_lt (h : HeapInv s i bs) : freeBytes bs < 2 ^ 32 := by
  have h1 := freeBytes_le h.rep.tiles
  have h2 := h.region.hi_le.2
  have h3 := h.region.lo_pos
  omega

/-- What an allocation of the block `b` does to the heap. -/
structure Allocates (s : HeapState) (i : Fin memHeapListNum) (bs : List Block) (n : Nat)
    (s' : HeapState) (b : Block) (bs' : List Block) : Prop where
  takes : Takes n bs b bs'
  inv : HeapInv s' i bs'
  mem : ChangedInFree s.mem s'.mem bs
  same : SameRegion (s.memHeapList i) (s'.memHeapList i)
  watermark : (s'.memHeapList i).freeWatermark =
    min (s.memHeapList i).freeWatermark (s'.memHeapList i).free

/-- A call on slot `i` leaves the other slots alone and sets the count of free bytes over all
heaps to `total`. -/
structure OnSlot (s : HeapState) (i : Fin memHeapListNum) (s' : HeapState) (total : Nat) : Prop where
  others : ∀ j, j ≠ i → s'.memHeapList j = s.memHeapList j
  total : s'.heapFreeSize = total

/-- `MEM_Allocate` returns NULL and changes nothing when the heap cannot serve the request,
and otherwise allocates a block that holds it, cut from a free block that fits snugly. -/
theorem memAllocate_outcome (h : HeapInv s i bs) {size : Nat} (hsize : size < 2 ^ 32) :
    ∃ s' ptr, memAllocate s i size = some (s', ptr) ∧
      (ptr = 0 ∧ s' = s ∧ Unserved bs size ∨
        ∃ b bs', Allocates s i bs (roundedSize (clamp4 size)) s' b bs' ∧
          ptr = b.addr + 4 ∧ clamp4 size + 5 ≤ b.size ∧
          OnSlot s i s' (sub32 s.heapFreeSize b.size) ∧ size ≠ 0 ∧ requestSize size < 2 ^ 32 ∧
          ∃ c, SnugFit (requestSize size) bs c ∧ CutFrom c b) := by
  obtain ⟨hc4, hcle, hwrap⟩ := clamp4_spec size
  have hover := requestSize_overflow size
  unfold memAllocate
  by_cases h0 : size = 0
  · exact ⟨s, 0, if_pos h0, Or.inl ⟨rfl, rfl, Or.inl h0⟩⟩
  · rw [if_neg h0]
    have hclamp : (if size < 4 then 4 else size) = clamp4 size := rfl
    simp only [hclamp]
    by_cases hw : roundedSize (clamp4 size) < clamp4 size
    · refine ⟨s, 0, if_pos hw, Or.inl ⟨rfl, rfl, Or.inr (Or.inl (hover.mpr ?_))⟩⟩
      by_contra hlt
      have := roundedSize_spec hc4 (Nat.lt_of_not_le hlt)
      omega
    · rw [if_neg hw]
      have hlt : clamp4 size < 2 ^ 32 - 8 := by
        rcases hwrap with ⟨hge, heq⟩ | ⟨-, hlt⟩
        · have := roundedSize_wraps hge hsize
          rw [heq] at hw
          omega
        · exact hlt
      have hreq := roundedSize_eq hlt
      obtain ⟨h4, hfit, hle⟩ := roundedSize_spec hc4 hlt
      obtain ⟨m', freeList', block, hget, hcase⟩ :=
        memChunkGet_spec h.rep h.length_lt (by omega) h4 h.region.hi_le.2
      rw [hget]
      rcases hcase with ⟨rfl, -, -, hnone⟩ | ⟨b, bs', htakes, rfl, hb0, hrep, hch, c, hsnug, hcut⟩
      · rw [hreq] at hnone
        exact ⟨s, 0, if_pos rfl, Or.inl ⟨rfl, rfl, Or.inr (Or.inr hnone)⟩⟩
      · simp only [if_neg hb0]
        rw [hreq] at hsnug
        have hbm : b ∈ bs' := ((htakes.mem_used b).mpr (Or.inl rfl)).1
        have hbsize : blockSize m' b.addr = b.size := (hrep.blocks b hbm).size
        have hbound := hrep.tiles.bounds hbm
        have h12 := (hrep.sizes b hbm).2
        have htop := h.region.hi_le.2
        have hbytes := htakes.freeBytes
        have hfl := h.free_lt
        have hfree : sub32 (s.memHeapList i).free b.size = freeBytes bs' := by
          rw [h.free, sub32_of_le (by omega) (by omega)]
          omega
        refine ⟨_, _, rfl, Or.inr ⟨b, bs', ⟨htakes, ?_, hch, ?_, ?_⟩, ?_, ?_, ⟨?_, ?_⟩, h0, by omega,
          c, hsnug, hcut⟩⟩
        · have hsame : SameRegion (s.memHeapList i)
              ((chargeBlock { s with mem := m' } i
                { s.memHeapList i with freeList := freeList' }
                (blockSize m' b.addr)).memHeapList i) := by
            simp [chargeBlock, SameRegion]
          refine ⟨h.region.same hsame, ?_, htakes.coalesced h.coalesced, ?_⟩
          · rw [hsame.lo, hsame.hi]
            simpa [chargeBlock] using hrep
          · simp [chargeBlock, hbsize, hfree]
        · simp [chargeBlock, SameRegion]
        · simp only [chargeBlock, Function.update_self, hbsize, hfree]
          split <;> omega
        · exact u32_of_lt (n := b.addr + 4) (by omega)
        · have := htakes.fits
          omega
        · intro j hj
          exact Function.update_of_ne hj _ _
        · simp only [chargeBlock, hbsize]

/-- `MEM_Allocate` returns NULL and changes nothing, or allocates a block that holds the
request. -/
theorem memAllocate_spec (h : HeapInv s i bs) {size : Nat} (hsize : size < 2 ^ 32) :
    ∃ s' ptr, memAllocate s i size = some (s', ptr) ∧
      (ptr = 0 ∧ s' = s ∨ ∃ b bs', Allocates s i bs (roundedSize (clamp4 size)) s' b bs' ∧
        ptr = b.addr + 4 ∧ clamp4 size + 5 ≤ b.size) := by
  obtain ⟨s', ptr, hrun, hcase⟩ := memAllocate_outcome h hsize
  refine ⟨s', ptr, hrun, ?_⟩
  rcases hcase with ⟨h1, h2, -⟩ | ⟨b, bs', ha, hp, hroom, -⟩
  · exact Or.inl ⟨h1, h2⟩
  · exact Or.inr ⟨b, bs', ha, hp, hroom⟩

/-- What releasing the block `b` does to the heap. -/
structure Frees (s : HeapState) (i : Fin memHeapListNum) (bs : List Block) (b : Block)
    (s' : HeapState) (bs' : List Block) : Prop where
  releases : Releases b bs bs'
  inv : HeapInv s' i bs'
  mem : ChangedInFree s.mem s'.mem bs'
  same : SameRegion (s.memHeapList i) (s'.memHeapList i)
  watermark : (s'.memHeapList i).freeWatermark = (s.memHeapList i).freeWatermark

/-- `MEM_Deallocate` of a block in use frees it, and counts its bytes as free. The byte that the
old header leads to says that the block is free, also when the block was merged with others. -/
theorem memDeallocate_marks (h : HeapInv s i bs) (hb : b ∈ bs) (hu : b.used = true) :
    ∃ s' bs', memDeallocate s i (b.addr + 4) = some s' ∧ Frees s i bs b s' bs' ∧
      OnSlot s i s' (u32 (s.heapFreeSize + b.size)) ∧
      s'.mem (memDogAddr s'.mem b.addr) = memBlockStatFree := by
  obtain ⟨hb0, h12, htop⟩ := h.bounds hb
  obtain ⟨pre, post, rfl⟩ := List.append_of_mem hb
  have hs := h.rep.sizes b hb
  have hok := h.rep.blocks b hb
  have hblock : sub32 (b.addr + 4) 4 = b.addr := by
    rw [sub32_of_le (by omega) (by omega), Nat.add_sub_cancel]
  have hdog : memDogAddr s.mem b.addr = b.addr + b.size - 1 :=
    memDogAddr_eq hok.size (by omega) htop
  have huse : s.mem (b.addr + b.size - 1) = memBlockStatUse := by
    rw [hok.dog, hu]
    rfl
  obtain ⟨m₁, hm₁⟩ : ∃ m₁, m₁ = write8 s.mem (b.addr + b.size - 1) memBlockStatFree :=
    ⟨_, rfl⟩
  have hout₁ : ∀ x, x ≠ b.addr + b.size - 1 → m₁ x = s.mem x := fun x hx => by
    rw [hm₁, write8_apply hx]
  have hsize₁ : blockSize m₁ b.addr = b.size :=
    (blockSize_eq fun x _ hx => hout₁ x (by omega)).trans hok.size
  have hok₁ : BlockOk m₁ ⟨b.addr, b.size, false⟩ := by
    refine ⟨hsize₁, ?_⟩
    rw [hm₁]
    exact write8_same ..
  obtain ⟨r, q, h₁, h₂, h₃⟩ := partRep_middle.mp h.rep
  obtain ⟨-, -, -, -, rfl⟩ := (partRep_used hu).mp h₂
  -- the blocks on both sides and their links are not touched by the dog write
  have hpre₁ := h₁.congr fun x _ hx => hout₁ x (by omega)
  have hpost₁ := h₃.congr fun x hx _ => hout₁ x (by omega)
  have hlen : pre.length + post.length < (s.memHeapList i).size := by
    have := h.length_lt
    rw [List.length_append, List.length_cons] at this
    omega
  have hrun := run_neighboursPass_between hpre₁ hpost₁ hlen
  have hr : r < 2 ^ 32 := by
    rw [chain_start h₃.chain]
    cases hfree : freeBlocks post with
    | nil => simp [freeAddrs, hfree]
    | cons c cs =>
      have hc : c ∈ post := (mem_freeBlocks.mp (by rw [hfree]; simp)).1
      have := h.bounds (b := c) (by simp [hc])
      simp only [freeAddrs, hfree, List.map_cons, List.headD_cons]
      omega
  obtain ⟨heap₁, hheap₁⟩ : ∃ heap₁ : MemHeap, heap₁ = { s.memHeapList i with
    free := u32 ((s.memHeapList i).free + b.size) } := ⟨_, rfl⟩
  have hlist₁ : heap₁.freeList = (s.memHeapList i).freeList := by rw [hheap₁]
  rw [← hlist₁] at hpre₁
  obtain ⟨m₂, freeList₂, pre', c, hlink, hleft, hrep₂, hch₂, hkeep₂⟩ :=
    linkBlock_spec hpre₁ hs hok₁ hb0.ne' hr htop
  obtain ⟨-, hend⟩ := hleft.tiles hpre₁.tiles
  have hpost₂ := hpost₁.congr fun x hx _ => hch₂.outside hrep₂.tiles (Or.inr hx)
  rw [← hend] at hrep₂ hpost₂
  obtain ⟨d, post', hright, hrep₃, hch₃, hkeep₃⟩ :=
    mergeNext_spec hleft.free hrep₂ hpost₂ h.region.hi_le.2
  have hreleases : Releases b (pre ++ b :: post) (pre' ++ d :: post') := .intro hu hleft hright
  have hbytes := hreleases.freeBytes
  have hfree : u32 ((s.memHeapList i).free + b.size) = freeBytes (pre' ++ d :: post') := by
    have h1 := freeBytes_le hrep₃.tiles
    have h2 := h.region.hi_le.2
    have h3 := h.region.lo_pos
    rw [h.free, ← hbytes, u32_of_lt (by omega)]
  have hrun' : memDeallocate s i (b.addr + 4) = some { s with
      mem := mergeNext m₂ c.addr r
      memHeapList := Function.update s.memHeapList i { heap₁ with freeList := freeList₂ }
      heapFreeSize := u32 (s.heapFreeSize + b.size) } := by
    unfold memDeallocate
    rw [if_neg (by omega)]
    simp only [hblock, hdog, huse, ← hm₁, hsize₁, ne_eq, not_true, if_false, hrun, ← hheap₁, hlink]
  have hsame : SameRegion (s.memHeapList i) { heap₁ with freeList := freeList₂ } := by
    rw [hheap₁]
    exact ⟨rfl, rfl⟩
  refine ⟨_, pre' ++ d :: post', hrun', ⟨hreleases, ⟨?_, ?_, ?_, ?_⟩, ?_, ?_, ?_⟩, ?_, ?_⟩
  · simpa using h.region.same hsame
  · simpa [hsame.lo, hsame.hi] using hrep₃
  · exact hreleases.coalesced h.coalesced
  · simp [hheap₁, hfree]
  · -- every byte written lies in `d`, the free block that `b` ends up in
    have hdfree : d.used = false := hright.keeps.2.trans hleft.free
    have haddr := hright.keeps.1
    have hgrow₁ := hleft.grows
    have hgrow₂ := hright.grows
    intro x hx
    have hxd := hx d (by simp) hdfree
    have hx₂ : ∀ e ∈ pre' ++ [c], e.used = false → x < e.addr ∨ e.addr + e.size ≤ x := by
      intro e he hef
      rcases List.mem_append.mp he with he | he
      · exact hx e (by simp [he]) hef
      · rw [List.mem_singleton.mp he]
        omega
    show mergeNext m₂ c.addr r x = s.mem x
    rw [hch₃ x hx, hch₂ x hx₂, hout₁ x (by omega)]
  · simp [SameRegion, hheap₁]
  · simp [hheap₁]
  · exact ⟨fun j hj => Function.update_of_ne hj _ _, rfl⟩
  · show mergeNext m₂ c.addr r (memDogAddr (mergeNext m₂ c.addr r) b.addr) = memBlockStatFree
    have hdfree : d.used = false := hright.keeps.2.trans hleft.free
    rcases hleft.addr_cases hpre₁.tiles hpre₁.sizes with hcb | hcb
    · -- the header is now that of `d`
      have hdm : d ∈ pre' ++ d :: post' := by simp
      have hdok := hrep₃.blocks d hdm
      have hdb := hrep₃.tiles.bounds hdm
      have htop' := h.region.hi_le.2
      have haddr : d.addr = b.addr := hright.keeps.1.trans hcb
      have hdog' : memDogAddr (mergeNext m₂ c.addr r) d.addr = d.addr + d.size - 1 :=
        memDogAddr_eq hdok.size (by have := (hrep₃.sizes d hdm).2; omega) (by omega)
      rw [← haddr, hdog', hdok.dog, hdfree]
      rfl
    · -- the header of `b` stays as it was, inside the block on the left
      have hkeep : ∀ x, b.addr ≤ x → x < b.addr + 4 ∨ b.addr + 8 ≤ x →
          mergeNext m₂ c.addr r x = m₁ x := by
        intro x hx hxb
        rw [hkeep₃ x (by omega), hkeep₂ x hx hxb]
      have hsize₃ : blockSize (mergeNext m₂ c.addr r) b.addr = b.size :=
        (blockSize_eq fun x hx hx' => hkeep x hx (Or.inl hx')).trans hsize₁
      rw [memDogAddr_eq hsize₃ (by omega) htop, hkeep _ (by omega) (by omega)]
      exact hok₁.dog

theorem memDeallocate_outcome (h : HeapInv s i bs) (hb : b ∈ bs) (hu : b.used = true) :
    ∃ s' bs', memDeallocate s i (b.addr + 4) = some s' ∧ Frees s i bs b s' bs' ∧
      OnSlot s i s' (u32 (s.heapFreeSize + b.size)) := by
  obtain ⟨s', bs', hrun, hf, hslot, -⟩ := memDeallocate_marks h hb hu
  exact ⟨s', bs', hrun, hf, hslot⟩

/-- `MEM_Deallocate` of a block in use frees it. -/
theorem memDeallocate_spec (h : HeapInv s i bs) (hb : b ∈ bs) (hu : b.used = true) :
    ∃ s' bs', memDeallocate s i (b.addr + 4) = some s' ∧ Frees s i bs b s' bs' := by
  obtain ⟨s', bs', hrun, hf, -⟩ := memDeallocate_outcome h hb hu
  exact ⟨s', bs', hrun, hf⟩

end Operations

end TuyaSdk.TuyaMemHeap
