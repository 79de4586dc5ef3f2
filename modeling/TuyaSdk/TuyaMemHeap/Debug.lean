import TuyaSdk.TuyaMemHeap.HeapTable
import TuyaSdk.TuyaMemHeap.Status

/-!
# Allocation with a leak record

The `debug` entry points of `tuya_mem_heap.c` put a record of the caller at the end of the block
they allocate. `TableOk` is what holds of the heap table in every state that callers can reach,
with heaps deleted in any order and blocks that nobody will release.
-/

namespace TuyaSdk.TuyaMemHeap
open TuyaSdk.Lib

/-- `MEM_DbgLeak_t` -/
structure MemDbgLeak where
  filename : Nat
  line : Nat
  size : Nat
  magic : Nat
  deriving DecidableEq, Repr

/-- `MEM_LEAK_DBG_ADDR(block)` -/
def memLeakDbgAddr (m : Mem) (block : Nat) : Nat :=
  sub32 (sub32 (u32 (block + blockSize m block)) memDbgLeakSize) memAlignNum

/-- The stores of the fields of a record at `leak`. -/
def writeLeak (m : Mem) (leak : Nat) (r : MemDbgLeak) : Mem :=
  let m := write32 m leak r.filename
  let m := write32 m (u32 (leak + 4)) r.line
  let m := write32 m (u32 (leak + 8)) r.size
  write32 m (u32 (leak + 12)) r.magic

/-- The record at `leak`. -/
def readLeak (m : Mem) (leak : Nat) : MemDbgLeak :=
  ⟨read32 m leak, read32 m (leak + 4), read32 m (leak + 8), read32 m (leak + 12)⟩

/-- What the debug entry points ask `MEM_Allocate` for. -/
def debugSize (size : Nat) : Nat := u32 (alignUp size + memDbgLeakSize)

/-- `MEM_AllocateDebug` on slot `i` -/
def memAllocateDebug (s : HeapState) (i : Fin memHeapListNum) (size filename line : Nat) :
    Option (HeapState × Nat) :=
  match memAllocate s i (debugSize size) with
  | none => none
  | some (s, p) =>
    if p ≠ 0 then
      let leak := memLeakDbgAddr s.mem (sub32 p memBlockHeadSize)
      some ({ s with mem := writeLeak s.mem leak ⟨filename, line, size, memDbgLeakMagic⟩ }, p)
    else some (s, 0)

/-- The handle-0 loop of `tuya_mem_heap_debug_malloc` -/
def debugMallocAny (s : HeapState) (size filename line : Nat) :
    List (Fin memHeapListNum) → Option (HeapState × Nat)
  | [] => some (s, 0)
  | i :: rest =>
    if (s.memHeapList i).size > 0 then
      if (s.memHeapList i).free > u32 (size + memBlockMinSize) then
        match memAllocateDebug s i size filename line with
        | none => none
        | some (s', p) => if p ≠ 0 then some (s', p) else debugMallocAny s' size filename line rest
      else debugMallocAny s size filename line rest
    else some (s, 0)

/-- `tuya_mem_heap_debug_malloc` -/
def tuyaMemHeapDebugMalloc (s : HeapState) (handle : HeapHandle) (size filename line : Nat) :
    Option (HeapState × Nat) :=
  match handle with
  | some i => memAllocateDebug s i size filename line
  | none => debugMallocAny s size filename line (List.finRange memHeapListNum)

/-- `memset(dst, byte, n)` -/
def memset (m : Mem) (dst : Nat) (byte : Byte) (n : Nat) : Mem := fun x =>
  if dst ≤ x ∧ x < dst + n then byte else m x

/-- `tuya_mem_heap_debug_calloc` -/
def tuyaMemHeapDebugCalloc (s : HeapState) (handle : HeapHandle) (size filename line : Nat) :
    Option (HeapState × Nat) :=
  (tuyaMemHeapDebugMalloc s handle size filename line).map fun (s, p) =>
    if p ≠ 0 then ({ s with mem := memset s.mem p 0 size }, p) else (s, p)

/-! ## Reachable tables -/

/-- The heaps that exist are in order, and their regions lie apart below the top of memory. -/
structure TableOk (s : HeapState) : Prop where
  heaps : HeapsOk s
  apart : ∀ i j, i ≠ j → LiveHeap s i → LiveHeap s j →
    Apart (s.memHeapList i).base (s.memHeapList i).size
      (s.memHeapList j).base (s.memHeapList j).size
  top : ∀ i, LiveHeap s i → (s.memHeapList i).base + (s.memHeapList i).size < 2 ^ 32

theorem HeapsInv.tableOk {c : Clients} (h : HeapsInv c) : TableOk c.heap :=
  ⟨h.heapsOk, h.apart, h.top⟩

/-- The block `b` of the heap in slot `i` is in use. -/
def LiveBlock (s : HeapState) (i : Fin memHeapListNum) (b : Block) : Prop :=
  ∃ bs, HeapInv s i bs ∧ b ∈ bs ∧ b.used = true

/-- A live pointer is that of a block in use. -/
theorem HeapsInv.liveBlock {c : Clients} (h : HeapsInv c) {i : Fin memHeapListNum} {p n : Nat}
    (hp : (p, n) ∈ c.live i) : ∃ b, LiveBlock c.heap i b ∧ p = b.addr + 4 ∧ n + 5 ≤ b.size := by
  have hi : LiveHeap c.heap i := by
    by_contra hdead
    rw [h.dead i hdead] at hp
    exact absurd hp List.not_mem_nil
  obtain ⟨bs, ht⟩ := h.tracks i hi
  obtain ⟨b, hb, hu, hpb, hn⟩ := ht.block p n hp
  exact ⟨b, ⟨bs, ht.inv, hb, hu⟩, hpb, hn⟩

section Table

variable {s s' : HeapState} {i j : Fin memHeapListNum} {bs bs' : List Block} {b : Block}

/-- The memory says how the region is cut into blocks. -/
theorem layout_unique {m : Mem} {lo hi : Nat} {bs bs' : List Block} (h : Tiles lo hi bs)
    (h' : Tiles lo hi bs') (hs : ∀ b ∈ bs, SizeOk b) (hs' : ∀ b ∈ bs', SizeOk b)
    (hb : ∀ b ∈ bs, BlockOk m b) (hb' : ∀ b ∈ bs', BlockOk m b) : bs = bs' := by
  induction bs generalizing lo bs' with
  | nil =>
    have hlo : lo = hi := h
    subst hlo
    exact (h'.eq_nil hs').symm
  | cons b bs ih =>
    have hpos := (hs b (by simp)).2
    cases bs' with
    | nil =>
      have hlo : lo = hi := h'
      have hle := h.2.le
      omega
    | cons b' bs' =>
      have haddr : b.addr = b'.addr := h.1.trans h'.1.symm
      have hok := hb b (by simp)
      have hok' := hb' b' (by simp)
      have hsize : b.size = b'.size := by
        rw [← hok.size, ← hok'.size, haddr]
      have hused : b.used = b'.used := by
        have hdog := hok.dog
        rw [haddr, hsize, hok'.dog] at hdog
        cases hu : b.used <;> cases hu' : b'.used <;> simp [statByte, hu, hu'] at hdog ⊢
      have hsame : b = b' := by
        cases b
        cases b'
        simp_all
      subst hsame
      congr 1
      exact ih h.2 h'.2 (fun x hx => hs x (by simp [hx])) (fun x hx => hs' x (by simp [hx]))
        (fun x hx => hb x (by simp [hx])) (fun x hx => hb' x (by simp [hx]))

theorem HeapInv.unique (h : HeapInv s i bs) (h' : HeapInv s i bs') : bs = bs' :=
  layout_unique h.rep.tiles h'.rep.tiles h.rep.sizes h'.rep.sizes h.rep.blocks h'.rep.blocks

theorem HeapInv.liveHeap (h : HeapInv s i bs) : LiveHeap s i := h.region.size_pos

/-- The pointer of a block lies in the region of its heap, behind its first byte. -/
theorem HeapInv.ptr_inRegion (h : HeapInv s i bs) (hb : b ∈ bs) :
    (s.memHeapList i).base < b.addr + 4 ∧
      b.addr + 4 < (s.memHeapList i).base + (s.memHeapList i).size := by
  have h1 := h.rep.tiles.bounds hb
  have h2 := h.region.aligned
  have h3 := h.region.hi_le.1
  have h4 := (h.rep.sizes b hb).2
  omega

/-- No two heaps share an address. -/
theorem TableOk.owner_unique (h : TableOk s) {x : Nat} (hi : InRegion (s.memHeapList i) x)
    (hj : InRegion (s.memHeapList j) x) : i = j := by
  by_contra hne
  obtain ⟨h1, h2⟩ := hi
  obtain ⟨h3, h4⟩ := hj
  have hli : LiveHeap s i := by unfold LiveHeap; omega
  have hlj : LiveHeap s j := by unfold LiveHeap; omega
  rcases (h.apart i j hne hli hlj).not_mem h1 h2 with h5 | h5 <;> omega

/-- A call that changes the heap in slot `i` and bytes of its region only keeps the table in
order. -/
theorem TableOk.change (h : TableOk s) (hi : HeapInv s' i bs')
    (hothers : ∀ j, j ≠ i → s'.memHeapList j = s.memHeapList j)
    (hsame : SameRegion (s.memHeapList i) (s'.memHeapList i))
    (hmem : ∀ x, ¬InRegion (s.memHeapList i) x → s'.mem x = s.mem x) : TableOk s' := by
  have hregion : ∀ j, SameRegion (s.memHeapList j) (s'.memHeapList j) := by
    intro j
    by_cases hj : j = i
    · rw [hj]
      exact hsame
    · rw [hothers j hj]
      exact ⟨rfl, rfl⟩
  have hlive : ∀ j, LiveHeap s' j ↔ LiveHeap s j := by
    intro j
    unfold LiveHeap
    rw [(hregion j).2]
  refine ⟨?_, ?_, ?_⟩
  · intro j hj
    by_cases hji : j = i
    · rw [hji]
      exact ⟨bs', hi⟩
    · obtain ⟨bs, hinv⟩ := h.heaps j ((hlive j).mp hj)
      exact ⟨bs, hinv.frame (hothers j hji) fun x hx =>
        hmem x fun hxi => hji (h.owner_unique hx hxi)⟩
  · intro j k hjk hj hk
    rw [(hregion j).1, (hregion j).2, (hregion k).1, (hregion k).2]
    exact h.apart j k hjk ((hlive j).mp hj) ((hlive k).mp hk)
  · intro j hj
    rw [(hregion j).1, (hregion j).2]
    exact h.top j ((hlive j).mp hj)

/-- What a call on slot `i` leaves alone in the other heaps. -/
theorem TableOk.keeps_block (h : TableOk s) (hji : j ≠ i) (hb : LiveBlock s j b)
    (hothers : ∀ j, j ≠ i → s'.memHeapList j = s.memHeapList j)
    (hmem : ∀ x, ¬InRegion (s.memHeapList i) x → s'.mem x = s.mem x) : LiveBlock s' j b := by
  obtain ⟨bs, hinv, hmemb, hu⟩ := hb
  exact ⟨bs, hinv.frame (hothers j hji) fun x hx =>
    hmem x fun hxi => hji (h.owner_unique hx hxi), hmemb, hu⟩

/-- Every block changed by an allocation lies in the region of its heap. -/
theorem Allocates.outside {n : Nat} (ha : Allocates s i bs n s' b bs') (h : HeapInv s i bs)
    {x : Nat} (hx : ¬InRegion (s.memHeapList i) x) : s'.mem x = s.mem x := by
  apply ha.mem.outside h.rep.tiles
  by_contra hin
  exact hx (h.region.inRegion (by omega) (by omega))

theorem Frees.outside (hf : Frees s i bs b s' bs') {x : Nat}
    (hx : ¬InRegion (s.memHeapList i) x) : s'.mem x = s.mem x := by
  apply hf.mem.outside hf.inv.rep.tiles
  by_contra hin
  apply hx
  have hin' := hf.inv.region.inRegion (x := x) (by omega) (by omega)
  unfold InRegion at hin' ⊢
  rw [hf.same.1, hf.same.2] at hin'
  exact hin'

end Table

/-! ## Leak records -/

/-- `MEM_DbgLeak_t` for a block of `size` bytes, in unbounded arithmetic. -/
def debugRequest (size : Nat) : Nat := (size + 3) / memAlignNum * memAlignNum + memDbgLeakSize

theorem debugSize_eq {size : Nat} (h : size ≤ 2 ^ 32 - 20) : debugSize size = debugRequest size := by
  unfold debugSize debugRequest alignUp u32 memAlignNum memDbgLeakSize
  omega

theorem debugSize_lt (size : Nat) : debugSize size < 2 ^ 32 := u32_lt _

section Leak

variable {m : Mem} {b : Block}

/-- The record lies at the end of the block's payload. -/
theorem memLeakDbgAddr_eq (hsize : blockSize m b.addr = b.size) (h24 : 24 ≤ b.size)
    (htop : b.addr + b.size ≤ 2 ^ 32) : memLeakDbgAddr m b.addr = b.addr + b.size - 20 := by
  unfold memLeakDbgAddr sub32 u32 memDbgLeakSize memAlignNum
  rw [hsize]
  omega

theorem writeLeak_apply {leak x : Nat} {r : MemDbgLeak} (htop : leak + 16 ≤ 2 ^ 32)
    (hx : x < leak ∨ leak + 16 ≤ x) : writeLeak m leak r x = m x := by
  unfold writeLeak
  rw [u32_of_lt (by omega), u32_of_lt (by omega), u32_of_lt (by omega), write32_apply (by omega),
    write32_apply (by omega), write32_apply (by omega), write32_apply (by omega)]

/-- What was stored is read back. -/
theorem readLeak_writeLeak {leak : Nat} {r : MemDbgLeak} (htop : leak + 16 ≤ 2 ^ 32)
    (hf : r.filename < 2 ^ 32) (hl : r.line < 2 ^ 32) (hs : r.size < 2 ^ 32)
    (hm : r.magic < 2 ^ 32) : readLeak (writeLeak m leak r) leak = r := by
  unfold readLeak writeLeak
  rw [u32_of_lt (by omega), u32_of_lt (by omega), u32_of_lt (by omega)]
  simp only [read32_write32_same]
  rw [read32_write32 (by omega), read32_write32 (by omega), read32_write32 (by omega),
    read32_write32_same, read32_write32 (by omega), read32_write32 (by omega),
    read32_write32_same, read32_write32 (by omega), read32_write32_same, u32_of_lt hf,
    u32_of_lt hl, u32_of_lt hs, u32_of_lt hm]

theorem readLeak_congr {m' : Mem} {leak : Nat}
    (h : ∀ x, leak ≤ x → x < leak + 16 → m' x = m x) : readLeak m' leak = readLeak m leak := by
  unfold readLeak
  rw [read32_congr fun x hx => h x (by have := hx.1; omega) (by have := hx.2; omega),
    read32_congr fun x hx => h x (by have := hx.1; omega) (by have := hx.2; omega),
    read32_congr fun x hx => h x (by have := hx.1; omega) (by have := hx.2; omega),
    read32_congr fun x hx => h x (by have := hx.1; omega) (by have := hx.2; omega)]

end Leak

/-- The block `b` of the heap in slot `i` was allocated for `size` bytes, which lie before the
complete record of the caller. -/
structure HoldsRecord (s : HeapState) (i : Fin memHeapListNum) (b : Block)
    (size filename line : Nat) : Prop where
  live : LiveBlock s i b
  room : size + 24 ≤ b.size
  leak : readLeak s.mem (b.addr + b.size - 20) = ⟨filename, line, size, memDbgLeakMagic⟩

/-! ## Allocation -/

section Allocation

variable {s : HeapState} {i : Fin memHeapListNum} {bs : List Block} {size : Nat}

/-- `MEM_Allocate` returns NULL exactly when the heap cannot serve the request. -/
theorem memAllocate_null_iff (h : HeapInv s i bs) (hsize : size < 2 ^ 32) {s' : HeapState}
    {p : Nat} (hrun : memAllocate s i size = some (s', p)) : p = 0 ↔ Unserved bs size := by
  obtain ⟨s₁, p₁, hrun₁, hcase⟩ := memAllocate_outcome h hsize
  rw [hrun] at hrun₁
  cases hrun₁
  rcases hcase with ⟨rfl, -, hun⟩ | ⟨b, bs', -, rfl, -, -, h0, hlt, c, hsnug, -⟩
  · exact iff_of_true rfl hun
  · refine iff_of_false (by omega) ?_
    rintro (hz | hbig | hnone)
    · exact h0 hz
    · omega
    · have hfits := hsnug.fits
      have := hnone c hsnug.free
      omega

/-- What `MEM_AllocateDebug` does when it allocates the block `b`: an allocation, and stores in
the payload of the block. -/
structure DebugAllocates (s : HeapState) (i : Fin memHeapListNum) (bs : List Block) (size : Nat)
    (s' : HeapState) (b : Block) (bs' : List Block) : Prop where
  alloc : ∃ s₁, Allocates s i bs (roundedSize (clamp4 (debugSize size))) s₁ b bs' ∧
    OnSlot s i s₁ (sub32 s.heapFreeSize b.size) ∧ (∀ x, x ∉ Payload b → s'.mem x = s₁.mem x) ∧
    s' = { s₁ with mem := s'.mem }
  inv : HeapInv s' i bs'

theorem DebugAllocates.liveBlock {s' : HeapState} {b : Block} {bs' : List Block}
    (h : DebugAllocates s i bs size s' b bs') : LiveBlock s' i b := by
  obtain ⟨s₁, ha, -⟩ := h.alloc
  obtain ⟨hb, hu⟩ := (ha.takes.mem_used b).mpr (Or.inl rfl)
  exact ⟨bs', h.inv, hb, hu⟩

/-- Further stores in the payload. -/
theorem DebugAllocates.store {s' : HeapState} {b : Block} {bs' : List Block}
    (h : DebugAllocates s i bs size s' b bs') {m : Mem}
    (hout : ∀ x, x ∉ Payload b → m x = s'.mem x) :
    DebugAllocates s i bs size { s' with mem := m } b bs' := by
  obtain ⟨s₁, ha, hslot, hmem, hs'⟩ := h.alloc
  obtain ⟨hb, hu⟩ := (ha.takes.mem_used b).mpr (Or.inl rfl)
  refine ⟨⟨s₁, ha, hslot, fun x hx => (hout x hx).trans (hmem x hx), ?_⟩,
    h.inv.writePayload hb hu hout⟩
  rw [hs']

/-- `MEM_AllocateDebug` returns NULL exactly when the heap cannot serve the request for the bytes
and the record, as far as that is computed without wrapping; then nothing changes. -/
theorem memAllocateDebug_null (h : HeapInv s i bs) (size filename line : Nat) :
    ∃ s' p, memAllocateDebug s i size filename line = some (s', p) ∧
      (p = 0 ↔ Unserved bs (debugSize size)) ∧ (p = 0 → s' = s) := by
  obtain ⟨s₁, p, hrun, hcase⟩ := memAllocate_spec h (debugSize_lt size)
  have hiff := memAllocate_null_iff h (debugSize_lt size) hrun
  unfold memAllocateDebug
  rw [hrun]
  by_cases hp : p = 0
  · subst hp
    refine ⟨s₁, 0, rfl, hiff, fun _ => ?_⟩
    rcases hcase with ⟨-, rfl⟩ | ⟨b, bs', -, hpb, -⟩
    · rfl
    · omega
  · exact ⟨_, p, if_pos hp, hiff, fun h0 => absurd h0 hp⟩

/-- When the request is computed without wrapping, a pointer is to a block that holds the bytes
and the record. -/
theorem memAllocateDebug_spec (h : HeapInv s i bs) (hsize : size ≤ 2 ^ 32 - 20)
    {filename line : Nat} (hf : filename < 2 ^ 32) (hl : line < 2 ^ 32) :
    ∃ s' p, memAllocateDebug s i size filename line = some (s', p) ∧
      (p = 0 ∧ s' = s ∨ ∃ b bs', DebugAllocates s i bs size s' b bs' ∧ p = b.addr + 4 ∧
        HoldsRecord s' i b size filename line) := by
  have hreq := debugSize_eq hsize
  obtain ⟨s₁, p, hrun, hcase⟩ := memAllocate_outcome h (debugSize_lt size)
  unfold memAllocateDebug
  rw [hrun]
  rcases hcase with ⟨rfl, rfl, -⟩ | ⟨b, bs', ha, rfl, hroom, hslot, -⟩
  · exact ⟨s₁, 0, rfl, Or.inl ⟨rfl, rfl⟩⟩
  · obtain ⟨hb, hu⟩ := (ha.takes.mem_used b).mpr (Or.inl rfl)
    obtain ⟨hb0, -, htop⟩ := ha.inv.bounds hb
    have hok := ha.inv.rep.blocks b hb
    have h4 := (ha.inv.rep.sizes b hb).1
    have hle := (clamp4_spec (debugSize size)).2.1
    -- the record is aligned, so it ends three bytes before the dog byte
    have hroom' : size + 24 ≤ b.size := by
      have hn : debugSize size = (size + 3) / 4 * 4 + 16 := hreq
      omega
    have hblock : sub32 (b.addr + 4) 4 = b.addr := by
      rw [sub32_of_le (by omega) (by omega), Nat.add_sub_cancel]
    have hleak : memLeakDbgAddr s₁.mem b.addr = b.addr + b.size - 20 :=
      memLeakDbgAddr_eq hok.size (by omega) htop
    obtain ⟨m, hm⟩ : ∃ m, m = writeLeak s₁.mem (b.addr + b.size - 20)
      ⟨filename, line, size, memDbgLeakMagic⟩ := ⟨_, rfl⟩
    have hout : ∀ x, x ∉ Payload b → m x = s₁.mem x := by
      intro x hx
      rw [hm]
      apply writeLeak_apply (by omega)
      by_contra hin
      exact hx ⟨by omega, by omega⟩
    have hinv : HeapInv { s₁ with mem := m } i bs' := ha.inv.writePayload hb hu hout
    refine ⟨{ s₁ with mem := m }, b.addr + 4, ?_, Or.inr ⟨b, bs', ⟨⟨s₁, ha, hslot, hout, rfl⟩, hinv⟩,
      rfl, ⟨⟨bs', hinv, hb, hu⟩, hroom', ?_⟩⟩⟩
    · simp only [hblock, hleak, ← hm]
      exact if_pos (by omega)
    · show readLeak m (b.addr + b.size - 20) = _
      rw [hm]
      exact readLeak_writeLeak (by omega) hf hl (by simp only; omega)
        (by simp only [memDbgLeakMagic]; omega)

/-- The heaps that a debug call asks: the heap of the handle, or every leading one with more than
`size + 24` bytes free. -/
def Asked (s : HeapState) (handle : HeapHandle) (size : Nat) (i : Fin memHeapListNum) : Prop :=
  match handle with
  | some j => i = j
  | none => i ∈ leading s (List.finRange memHeapListNum) ∧
      (s.memHeapList i).free > u32 (size + memBlockMinSize)

/-- No heap that is asked can serve the request, as far as it is computed without wrapping. -/
def Refused (s : HeapState) (handle : HeapHandle) (size : Nat) : Prop :=
  ∀ i bs, Asked s handle size i → HeapInv s i bs → Unserved bs (debugSize size)

theorem debugMallocAny_null (h : HeapsOk s) (size filename line : Nat)
    (slots : List (Fin memHeapListNum)) :
    ∃ s' p, debugMallocAny s size filename line slots = some (s', p) ∧
      (p = 0 ↔ ∀ i bs, i ∈ leading s slots → (s.memHeapList i).free > u32 (size + memBlockMinSize) →
        HeapInv s i bs → Unserved bs (debugSize size)) ∧ (p = 0 → s' = s) := by
  induction slots with
  | nil => exact ⟨s, 0, rfl, by simp [leading], fun _ => rfl⟩
  | cons i slots ih =>
    obtain ⟨s₂, p₂, hrest, hiff₂, hsame₂⟩ := ih
    by_cases hlive : (s.memHeapList i).size > 0
    · rw [debugMallocAny, if_pos hlive, leading_cons hlive]
      by_cases hfree : (s.memHeapList i).free > u32 (size + memBlockMinSize)
      · rw [if_pos hfree]
        obtain ⟨bs, hinv⟩ := h i hlive
        obtain ⟨s₁, p₁, hrun, hiff, hsame⟩ := memAllocateDebug_null hinv size filename line
        rw [hrun]
        by_cases hp : p₁ = 0
        · rw [hsame hp]
          refine ⟨s₂, p₂, ?_, ?_, hsame₂⟩
          · show (if p₁ ≠ 0 then _ else _) = _
            rw [if_neg (not_not.mpr hp)]
            exact hrest
          · rw [hiff₂]
            constructor
            · intro hall j cs hj hjf hcs
              rcases List.mem_cons.mp hj with rfl | hj
              · rw [hcs.unique hinv]
                exact hiff.mp hp
              · exact hall j cs hj hjf hcs
            · intro hall j cs hj
              exact hall j cs (List.mem_cons_of_mem _ hj)
        · refine ⟨s₁, p₁, if_pos hp, iff_of_false hp fun hall => ?_, fun h0 => absurd h0 hp⟩
          exact hp (hiff.mpr (hall i bs List.mem_cons_self hfree hinv))
      · rw [if_neg hfree]
        refine ⟨s₂, p₂, hrest, ?_, hsame₂⟩
        rw [hiff₂]
        constructor
        · intro hall j cs hj hjf
          rcases List.mem_cons.mp hj with rfl | hj
          · exact absurd hjf hfree
          · exact hall j cs hj hjf
        · intro hall j cs hj
          exact hall j cs (List.mem_cons_of_mem _ hj)
    · rw [debugMallocAny, if_neg hlive, leading_hole hlive]
      exact ⟨s, 0, rfl, by simp, fun _ => rfl⟩

theorem tuyaMemHeapDebugMalloc_null (h : HeapsOk s) {handle : HeapHandle}
    (hh : ∀ i ∈ handle, LiveHeap s i) (size filename line : Nat) :
    ∃ s' p, tuyaMemHeapDebugMalloc s handle size filename line = some (s', p) ∧
      (p = 0 ↔ Refused s handle size) ∧ (p = 0 → s' = s) := by
  cases handle with
  | some i =>
    obtain ⟨bs, hinv⟩ := h i (hh i rfl)
    obtain ⟨s', p, hrun, hiff, hsame⟩ := memAllocateDebug_null hinv size filename line
    refine ⟨s', p, hrun, ?_, hsame⟩
    rw [hiff]
    constructor
    · rintro hun j cs rfl hcs
      rw [hcs.unique hinv]
      exact hun
    · intro hall
      exact hall i bs rfl hinv
  | none =>
    obtain ⟨s', p, hrun, hiff, hsame⟩ := debugMallocAny_null h size filename line
      (List.finRange memHeapListNum)
    refine ⟨s', p, hrun, hiff.trans ?_, hsame⟩
    constructor
    · rintro hall i bs ⟨hi, hf⟩
      exact hall i bs hi hf
    · intro hall i bs hi hf
      exact hall i bs ⟨hi, hf⟩

theorem debugMallocAny_spec (h : HeapsOk s) (hsize : size ≤ 2 ^ 32 - 20) {filename line : Nat}
    (hf : filename < 2 ^ 32) (hl : line < 2 ^ 32) (slots : List (Fin memHeapListNum)) :
    ∃ s' p, debugMallocAny s size filename line slots = some (s', p) ∧
      (p = 0 ∧ s' = s ∨ ∃ i b bs bs', HeapInv s i bs ∧ DebugAllocates s i bs size s' b bs' ∧
        p = b.addr + 4 ∧ HoldsRecord s' i b size filename line) := by
  induction slots with
  | nil => exact ⟨s, 0, rfl, Or.inl ⟨rfl, rfl⟩⟩
  | cons i slots ih =>
    by_cases hlive : (s.memHeapList i).size > 0
    · rw [debugMallocAny, if_pos hlive]
      by_cases hfree : (s.memHeapList i).free > u32 (size + memBlockMinSize)
      · rw [if_pos hfree]
        obtain ⟨bs, hinv⟩ := h i hlive
        obtain ⟨s₁, p₁, hrun, hcase⟩ := memAllocateDebug_spec hinv hsize hf hl
        rw [hrun]
        rcases hcase with ⟨rfl, rfl⟩ | ⟨b, bs', ha, rfl, hrec⟩
        · exact ih
        · exact ⟨s₁, b.addr + 4, if_pos (by omega),
            Or.inr ⟨i, b, bs, bs', hinv, ha, rfl, hrec⟩⟩
      · rw [if_neg hfree]
        exact ih
    · rw [debugMallocAny, if_neg hlive]
      exact ⟨s, 0, rfl, Or.inl ⟨rfl, rfl⟩⟩

/-- When the request is computed without wrapping, a pointer is to a block that holds the bytes
and the record. -/
theorem tuyaMemHeapDebugMalloc_spec (h : HeapsOk s) {handle : HeapHandle}
    (hh : ∀ i ∈ handle, LiveHeap s i) (hsize : size ≤ 2 ^ 32 - 20) {filename line : Nat}
    (hf : filename < 2 ^ 32) (hl : line < 2 ^ 32) :
    ∃ s' p, tuyaMemHeapDebugMalloc s handle size filename line = some (s', p) ∧
      (p = 0 ∧ s' = s ∨ ∃ i b bs bs', HeapInv s i bs ∧ DebugAllocates s i bs size s' b bs' ∧
        p = b.addr + 4 ∧ HoldsRecord s' i b size filename line) := by
  cases handle with
  | some i =>
    obtain ⟨bs, hinv⟩ := h i (hh i rfl)
    obtain ⟨s', p, hrun, hcase⟩ := memAllocateDebug_spec hinv hsize hf hl
    refine ⟨s', p, hrun, hcase.imp_right ?_⟩
    rintro ⟨b, bs', ha, hp, hrec⟩
    exact ⟨i, b, bs, bs', hinv, ha, hp, hrec⟩
  | none => exact debugMallocAny_spec h hsize hf hl _

end Allocation

end TuyaSdk.TuyaMemHeap
