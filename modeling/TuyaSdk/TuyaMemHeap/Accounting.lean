import TuyaSdk.TuyaMemHeap.Heaps

/-!
# Accounting over all heaps

The handle-0 entry points against the heaps that exist. Each orderly call changes one slot
of the table and the bytes of its region (`HeapsInv.change`), so that what `HeapsInv` says
of the other heaps stays true and the global count of free bytes moves with the one heap's.
-/

namespace TuyaSdk.TuyaMemHeap
open TuyaSdk.Lib

section Frames

variable {s s' : HeapState} {i j : Fin memHeapListNum} {bs : List Block} {live : List (Nat × Nat)}

/-- The managed part of a region lies in it. -/
theorem RegionOk.inRegion {heap : MemHeap} (h : RegionOk heap) {x : Nat} (h1 : regionLo heap ≤ x)
    (h2 : x < regionHi heap) : InRegion heap x :=
  ⟨h.aligned.trans h1, h2.trans_le h.hi_le.1⟩

/-- A heap does not notice changes outside its slot and its region. -/
theorem HeapInv.frame (h : HeapInv s j bs) (hslot : s'.memHeapList j = s.memHeapList j)
    (hmem : ∀ x, InRegion (s.memHeapList j) x → s'.mem x = s.mem x) : HeapInv s' j bs := by
  obtain ⟨hr, hrep, hc, hf⟩ := h
  refine ⟨?_, ?_, hc, ?_⟩
  · rw [hslot]
    exact hr
  · rw [hslot]
    exact hrep.congr fun x h1 h2 => hmem x (hr.inRegion h1 h2)
  · rw [hslot]
    exact hf

theorem Tracks.frame (h : Tracks s j live bs) (hslot : s'.memHeapList j = s.memHeapList j)
    (hmem : ∀ x, InRegion (s.memHeapList j) x → s'.mem x = s.mem x) : Tracks s' j live bs :=
  ⟨h.inv.frame hslot hmem, h.block, h.held, h.nodup⟩

/-- A live pointer lies in the region of its heap, behind its first byte. -/
theorem Tracks.inRegion (h : Tracks s i live bs) {p n : Nat} (hp : (p, n) ∈ live) :
    (s.memHeapList i).base < p ∧ p < (s.memHeapList i).base + (s.memHeapList i).size := by
  obtain ⟨b, hb, -, rfl, hn⟩ := h.block p n hp
  have h1 := h.inv.rep.tiles.bounds hb
  have h2 := h.inv.region.aligned
  have h3 := h.inv.region.hi_le.1
  omega

/-- The bytes of a block are managed bytes. -/
theorem HeapInv.block_inRegion (h : HeapInv s i bs) {b : Block} (hb : b ∈ bs) {x : Nat}
    (h1 : b.addr ≤ x) (h2 : x < b.addr + b.size) : InRegion (s.memHeapList i) x := by
  have h3 := h.rep.tiles.bounds hb
  exact h.region.inRegion (h3.1.trans h1) (h2.trans_le h3.2)

end Frames

/-! ## Sums over the heaps -/

section Sums

variable {s s' : HeapState} {i : Fin memHeapListNum} {f : MemHeap → Nat}

/-- Changing slot `i` changes a sum over the heaps by what the slot contributes. -/
theorem sumLive_change (h : ∀ j, j ≠ i → s'.memHeapList j = s.memHeapList j) :
    sumLive s' f + (if LiveHeap s i then f (s.memHeapList i) else 0) =
      sumLive s f + if LiveHeap s' i then f (s'.memHeapList i) else 0 := by
  apply sum_add_at (f := fun j => if LiveHeap s j then f (s.memHeapList j) else 0) i
  intro j hj
  have hlive : LiveHeap s' j ↔ LiveHeap s j := by
    rw [LiveHeap, LiveHeap, h j hj]
  simp only [hlive, h j hj]

theorem sumLive_size (s : HeapState) : sumLive s MemHeap.size = ∑ i, (s.memHeapList i).size := by
  apply Finset.sum_congr rfl
  intro i _
  by_cases hi : LiveHeap s i
  · exact if_pos hi
  · rw [if_neg hi]
    unfold LiveHeap at hi
    omega

/-- The regions of the heaps have fewer than `2 ^ 32` bytes together. -/
theorem sumLive_size_lt
    (htop : ∀ i, LiveHeap s i →
      0 < (s.memHeapList i).base ∧ (s.memHeapList i).base + (s.memHeapList i).size < 2 ^ 32)
    (hapart : ∀ i j, i ≠ j → LiveHeap s i → LiveHeap s j →
      Apart (s.memHeapList i).base (s.memHeapList i).size
        (s.memHeapList j).base (s.memHeapList j).size) :
    sumLive s MemHeap.size < 2 ^ 32 := by
  rw [sumLive_size]
  have hin : ∀ i, 0 < (s.memHeapList i).size →
      1 ≤ (s.memHeapList i).base ∧ (s.memHeapList i).base + (s.memHeapList i).size ≤ 2 ^ 32 := by
    intro i hi
    have := htop i hi
    omega
  have hsum := sum_length_le hin hapart
  omega

/-- A heap has no more free bytes than its region has bytes. -/
theorem HeapInv.free_le {bs : List Block} (h : HeapInv s i bs) :
    (s.memHeapList i).free ≤ (s.memHeapList i).size := by
  have h1 := freeBytes_le h.rep.tiles
  have h2 := h.region.hi_le.1
  have h3 := h.region.aligned
  rw [h.free]
  omega

theorem sumLive_le {g : MemHeap → Nat}
    (h : ∀ i, LiveHeap s i → f (s.memHeapList i) ≤ g (s.memHeapList i)) :
    sumLive s f ≤ sumLive s g := by
  apply Finset.sum_le_sum
  intro i _
  split
  · rename_i hi
    exact h i hi
  · exact le_rfl

end Sums

/-! ## Changing one heap -/

section Change

variable {c : Clients} {s' : HeapState} {i : Fin memHeapListNum}
  {live' : Fin memHeapListNum → List (Nat × Nat)}

theorem HeapsInv.base_pos (h : HeapsInv c) (hi : LiveHeap c.heap i) :
    0 < (c.heap.memHeapList i).base := by
  obtain ⟨bs, ht⟩ := h.tracks i hi
  exact ht.inv.region.base_pos

/-- No two heaps share an address. -/
theorem HeapsInv.owner_unique (h : HeapsInv c) {j : Fin memHeapListNum} {x : Nat}
    (hi : InRegion (c.heap.memHeapList i) x) (hj : InRegion (c.heap.memHeapList j) x) : i = j := by
  by_contra hne
  obtain ⟨h1, h2⟩ := hi
  obtain ⟨h3, h4⟩ := hj
  have hli : LiveHeap c.heap i := by unfold LiveHeap; omega
  have hlj : LiveHeap c.heap j := by unfold LiveHeap; omega
  rcases (h.apart i j hne hli hlj).not_mem h1 h2 with h5 | h5 <;> omega

/-- A call that changes the heap in slot `i` and bytes of its region only. -/
theorem HeapsInv.change (h : HeapsInv c) (hi : LiveHeap c.heap i)
    (hothers : ∀ j, j ≠ i → s'.memHeapList j = c.heap.memHeapList j)
    (hsame : SameRegion (c.heap.memHeapList i) (s'.memHeapList i))
    (hmem : ∀ x, ¬InRegion (c.heap.memHeapList i) x → s'.mem x = c.heap.mem x)
    (htracks : ∃ bs, Tracks s' i (live' i) bs) (hlive : ∀ j, j ≠ i → live' j = c.live j)
    (htotal : s'.heapFreeSize = u32 (sumLive s' MemHeap.free)) : HeapsInv ⟨s', live'⟩ := by
  have hregion : ∀ j, SameRegion (c.heap.memHeapList j) (s'.memHeapList j) := by
    intro j
    by_cases hj : j = i
    · rw [hj]
      exact hsame
    · rw [hothers j hj]
      exact ⟨rfl, rfl⟩
  have hlive_iff : ∀ j, LiveHeap s' j ↔ LiveHeap c.heap j := by
    intro j
    unfold LiveHeap
    rw [(hregion j).2]
  have htracks' : ∀ j, LiveHeap s' j → ∃ bs, Tracks s' j (live' j) bs := by
    intro j hj
    by_cases hji : j = i
    · rw [hji]
      exact htracks
    · obtain ⟨bs, ht⟩ := h.tracks j ((hlive_iff j).mp hj)
      rw [hlive j hji]
      exact ⟨bs, ht.frame (hothers j hji) fun x hx => hmem x fun hxi => hji (h.owner_unique hx hxi)⟩
  have hapart' : ∀ j k, j ≠ k → LiveHeap s' j → LiveHeap s' k →
      Apart (s'.memHeapList j).base (s'.memHeapList j).size
        (s'.memHeapList k).base (s'.memHeapList k).size := by
    intro j k hjk hj hk
    rw [(hregion j).1, (hregion j).2, (hregion k).1, (hregion k).2]
    exact h.apart j k hjk ((hlive_iff j).mp hj) ((hlive_iff k).mp hk)
  have htop' : ∀ j, LiveHeap s' j → (s'.memHeapList j).base + (s'.memHeapList j).size < 2 ^ 32 := by
    intro j hj
    rw [(hregion j).1, (hregion j).2]
    exact h.top j ((hlive_iff j).mp hj)
  refine ⟨htracks', ?_, hapart', htop', ?_, ?_⟩
  · intro j hj
    have hji : j ≠ i := by
      rintro rfl
      exact hj ((hlive_iff j).mpr hi)
    show live' j = []
    rw [hlive j hji]
    exact h.dead j fun hl => hj ((hlive_iff j).mpr hl)
  · intro j k hjk hk
    exact (hlive_iff j).mpr (h.leading j k hjk ((hlive_iff k).mp hk))
  · have hlt : sumLive s' MemHeap.size < 2 ^ 32 := by
      refine sumLive_size_lt (fun j hj => ⟨?_, htop' j hj⟩) hapart'
      obtain ⟨bs, ht⟩ := htracks' j hj
      exact ht.inv.region.base_pos
    have hle : sumLive s' MemHeap.free ≤ sumLive s' MemHeap.size := by
      apply sumLive_le
      intro j hj
      obtain ⟨bs, ht⟩ := htracks' j hj
      exact ht.inv.free_le
    show s'.heapFreeSize = sumLive s' MemHeap.free
    rw [htotal, u32_of_lt (hle.trans_lt hlt)]

end Change

/-! ## Allocation, release and stores -/

section Calls

variable {c : Clients} {i : Fin memHeapListNum}

theorem HeapsInv.heapsOk (h : HeapsInv c) : HeapsOk c.heap := by
  intro i hi
  obtain ⟨bs, ht⟩ := h.tracks i hi
  exact ⟨bs, ht.inv⟩

/-- The global count before a call on slot `i`, from what it is after. -/
theorem HeapsInv.total_change (h : HeapsInv c) (hi : LiveHeap c.heap i) {s' : HeapState}
    (hothers : ∀ j, j ≠ i → s'.memHeapList j = c.heap.memHeapList j)
    (hsame : SameRegion (c.heap.memHeapList i) (s'.memHeapList i)) :
    sumLive s' MemHeap.free + (c.heap.memHeapList i).free =
      c.heap.heapFreeSize + (s'.memHeapList i).free := by
  have hi' : LiveHeap s' i := by
    unfold LiveHeap
    rw [hsame.2]
    exact hi
  have hsum := sumLive_change (f := MemHeap.free) hothers
  rw [if_pos hi, if_pos hi', ← h.total] at hsum
  exact hsum

theorem HeapsInv.total_lt (h : HeapsInv c) : c.heap.heapFreeSize < 2 ^ 32 := by
  have hlt : sumLive c.heap MemHeap.size < 2 ^ 32 :=
    sumLive_size_lt (fun j hj => ⟨h.base_pos hj, h.top j hj⟩) h.apart
  have hle : sumLive c.heap MemHeap.free ≤ sumLive c.heap MemHeap.size := by
    apply sumLive_le
    intro j hj
    obtain ⟨bs, ht⟩ := h.tracks j hj
    exact ht.inv.free_le
  rw [h.total]
  exact hle.trans_lt hlt

/-- `MEM_Allocate` on the heap of slot `i`. -/
theorem HeapsInv.allocate (h : HeapsInv c) (hi : LiveHeap c.heap i) (size : BitVec 32)
    {s' : HeapState} {p : Nat} (hrun : memAllocate c.heap i size.toNat = some (s', p)) :
    HeapsInv ⟨s', addPtr s' c.live p size.toNat⟩ := by
  obtain ⟨bs, ht⟩ := h.tracks i hi
  obtain ⟨s₁, p₁, hrun₁, hcase⟩ := memAllocate_outcome ht.inv size.isLt
  rw [hrun] at hrun₁
  cases hrun₁
  rcases hcase with ⟨rfl, rfl, -⟩ | ⟨b, bs', ha, rfl, hroom, hslot, -⟩
  · have hlive : addPtr c.heap c.live 0 size.toNat = c.live := by
      funext j
      exact if_neg fun hj => hj.1 rfl
    rw [hlive]
    exact h
  · have hle := (clamp4_spec size.toNat).2.1
    have halloc : Tracks s' i ((b.addr + 4, size.toNat) :: c.live i) bs' :=
      ht.alloc ha (by omega)
    have hp := halloc.inRegion (p := b.addr + 4) List.mem_cons_self
    have hbytes := ha.takes.freeBytes
    have hfree' := ha.inv.free
    have hfree := ht.inv.free
    have htotal := h.total_change hi hslot.others ha.same
    have hlt := h.total_lt
    refine h.change hi hslot.others ha.same ?_ ⟨bs', ?_⟩ ?_ ?_
    · intro x hx
      apply ha.mem.outside ht.inv.rep.tiles
      by_contra hin
      exact hx (ht.inv.region.inRegion (by omega) (by omega))
    · have hlive : addPtr s' c.live (b.addr + 4) size.toNat i =
          (b.addr + 4, size.toNat) :: c.live i :=
        if_pos ⟨by omega, hp.1.le, hp.2⟩
      rw [hlive]
      exact halloc
    · intro j hj
      apply if_neg
      intro ⟨_, hin⟩
      rw [hslot.others j hj] at hin
      apply hj
      apply h.owner_unique hin
      rw [ha.same.1, ha.same.2] at hp
      exact ⟨hp.1.le, hp.2⟩
    · have hsum : sumLive s' MemHeap.free = c.heap.heapFreeSize - b.size := by omega
      rw [hslot.total, sub32_of_le (by omega) hlt, hsum, u32_of_lt (by omega)]

theorem HeapsInv.malloc (h : HeapsInv c) (handle : HeapHandle) (size : BitVec 32)
    (hi : ∀ i ∈ handle, LiveHeap c.heap i) :
    ∃ s' p, tuyaMemHeapMalloc c.heap handle size.toNat = some (s', p) ∧
      HeapsInv ⟨s', addPtr s' c.live p size.toNat⟩ := by
  cases handle with
  | some i =>
    obtain ⟨bs, ht⟩ := h.tracks i (hi i rfl)
    obtain ⟨s', p, hrun, -⟩ := memAllocate_outcome ht.inv size.isLt
    exact ⟨s', p, hrun, h.allocate (hi i rfl) size hrun⟩
  | none =>
    obtain ⟨s', p, hany, hcase⟩ := mallocAny_spec h.heapsOk size.isLt (List.finRange memHeapListNum)
    refine ⟨s', p, hany, ?_⟩
    rcases hcase with ⟨rfl, rfl, -⟩ | ⟨-, i, hlive, hrun⟩
    · have hlive : addPtr c.heap c.live 0 size.toNat = c.live := by
        funext j
        exact if_neg fun hj => hj.1 rfl
      rw [hlive]
      exact h
    · exact h.allocate hlive size hrun

/-- A pointer that is live in one heap is not live in another. -/
theorem HeapsInv.not_live_elsewhere (h : HeapsInv c) {p n : Nat} (hp : (p, n) ∈ c.live i)
    {j : Fin memHeapListNum} (hj : j ≠ i) (k : Nat) : (p, k) ∉ c.live j := by
  intro hk
  have hin : ∀ l m, (p, m) ∈ c.live l → InRegion (c.heap.memHeapList l) p := by
    intro l m hm
    have hl : LiveHeap c.heap l := by
      by_contra hdead
      rw [h.dead l hdead] at hm
      simp at hm
    obtain ⟨bs, ht⟩ := h.tracks l hl
    exact ⟨(ht.inRegion hm).1.le, (ht.inRegion hm).2⟩
  exact hj (h.owner_unique (hin j k hk) (hin i n hp))

/-- `MEM_Deallocate` of a live pointer of the heap in slot `i`. -/
theorem HeapsInv.deallocate (h : HeapsInv c) (hi : LiveHeap c.heap i) {p n : Nat}
    (hp : (p, n) ∈ c.live i) :
    ∃ s' b bs bs', memDeallocate c.heap i p = some s' ∧ p = b.addr + 4 ∧
      Frees c.heap i bs b s' bs' ∧ HeapsInv ⟨s', fun j => dropPtr p (c.live j)⟩ := by
  obtain ⟨bs, ht⟩ := h.tracks i hi
  obtain ⟨b, hb, hu, rfl, hn⟩ := ht.block p n hp
  obtain ⟨s', bs', hrun, hf, hslot⟩ := memDeallocate_outcome ht.inv hb hu
  have hbytes := hf.releases.freeBytes
  have hfree' := hf.inv.free
  have hfree := ht.inv.free
  have htotal := h.total_change hi hslot.others hf.same
  refine ⟨s', b, bs, bs', hrun, rfl, hf, h.change hi hslot.others hf.same ?_ ⟨bs', ?_⟩ ?_ ?_⟩
  · intro x hx
    apply hf.mem.outside hf.inv.rep.tiles
    by_contra hin
    apply hx
    have hin' := hf.inv.region.inRegion (x := x) (by omega) (by omega)
    unfold InRegion at hin' ⊢
    rw [hf.same.1, hf.same.2] at hin'
    exact hin'
  · exact ht.release hb hf
  · intro j hj
    exact dropPtr_of_not_live (h.not_live_elsewhere hp hj)
  · rw [hslot.total]
    congr 1
    omega

/-- The handle-0 loop of `tuya_mem_heap_free` finds the heap that a pointer is live in, when
every slot before that heap's is in use. -/
theorem freeAny_eq {s : HeapState} {p : Nat} {slots : List (Fin memHeapListNum)}
    (hsorted : slots.Pairwise (· < ·)) (hi : i ∈ slots) (hbefore : ∀ j ≤ i, LiveHeap s j)
    (hin : p > (s.memHeapList i).base ∧ p < (s.memHeapList i).base + (s.memHeapList i).size)
    (htop : ∀ j, LiveHeap s j → (s.memHeapList j).base + (s.memHeapList j).size < 2 ^ 32)
    (hout : ∀ j, j ≠ i → ¬InRegion (s.memHeapList j) p) :
    freeAny s p slots = memDeallocate s i p := by
  induction slots with
  | nil => simp at hi
  | cons a slots ih =>
    obtain ⟨hlt, hsorted⟩ := List.pairwise_cons.mp hsorted
    rcases List.mem_cons.mp hi with rfl | hi
    · have hl : (s.memHeapList i).size > 0 := hbefore i le_rfl
      rw [freeAny, if_pos hl, u32_of_lt (htop i hl), if_pos hin]
    · have hai := hlt i hi
      have hl : (s.memHeapList a).size > 0 := hbefore a hai.le
      have hout' : ¬(p > (s.memHeapList a).base ∧
          p < (s.memHeapList a).base + (s.memHeapList a).size) :=
        fun ⟨h1, h2⟩ => hout a hai.ne ⟨h1.le, h2⟩
      rw [freeAny, if_pos hl, u32_of_lt (htop a hl), if_neg hout']
      exact ih hsorted hi

/-- Without a handle `tuya_mem_heap_free` releases a pointer that is live in any heap. -/
theorem HeapsInv.free_any (h : HeapsInv c) (hi : LiveHeap c.heap i) {p n : Nat}
    (hp : (p, n) ∈ c.live i) : tuyaMemHeapFree c.heap none p = memDeallocate c.heap i p := by
  obtain ⟨bs, ht⟩ := h.tracks i hi
  have hin := ht.inRegion hp
  apply freeAny_eq (List.pairwise_lt_finRange _) (List.mem_finRange i)
  · exact fun j hj => h.leading j i hj hi
  · exact hin
  · exact h.top
  · exact fun j hj hj' => hj (h.owner_unique hj' ⟨hin.1.le, hin.2⟩)

/-- A store in a live allocation or outside the heaps. -/
theorem HeapsInv.write (h : HeapsInv c) {addr : Nat} (byte : Byte)
    (hw : PermittedCall c (.write addr byte)) :
    HeapsInv ⟨{ c.heap with mem := write8 c.heap.mem addr byte }, c.live⟩ := by
  rcases hw with ⟨i, ⟨p, n⟩, hp, h1, h2⟩ | hout
  · have hi : LiveHeap c.heap i := by
      by_contra hdead
      rw [h.dead i hdead] at hp
      simp at hp
    obtain ⟨bs, ht⟩ := h.tracks i hi
    obtain ⟨b, hb, hu, rfl, hn⟩ := ht.block p n hp
    simp only at h1 h2
    refine h.change hi (fun j _ => rfl) ⟨rfl, rfl⟩ ?_ ⟨bs, ?_⟩ (fun j _ => rfl) ?_
    · intro x hx
      apply write8_apply
      rintro rfl
      exact hx (ht.inv.block_inRegion hb (by omega) (by omega))
    · apply ht.writePayload hb hu
      intro x hx
      apply write8_apply
      rintro rfl
      exact hx ⟨by omega, by omega⟩
    · exact h.total.trans (u32_of_lt (h.total ▸ h.total_lt)).symm
  · refine ⟨?_, h.dead, h.apart, h.top, h.leading, h.total⟩
    intro j hj
    obtain ⟨bs, ht⟩ := h.tracks j hj
    refine ⟨bs, ht.frame rfl fun x hx => write8_apply ?_⟩
    rintro rfl
    exact hout j hj hx

end Calls

end TuyaSdk.TuyaMemHeap
