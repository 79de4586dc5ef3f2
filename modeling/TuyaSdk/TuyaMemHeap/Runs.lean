import TuyaSdk.TuyaMemHeap.Client

/-!
# Runs of a heap

What holds after any sequence of calls on a heap handle: the blocks tile the region, the
free list and the dog bytes agree with the live pointers, the counters are exact
(`heapOk_run`), and payloads are isolated from each other and from the allocator's own
data (`payload_isolated`). Both rest on callers not asking `realloc` for one of the last
eight sizes, where the rounded size wraps and the block is returned as it is.
-/

namespace TuyaSdk.TuyaMemHeap
open TuyaSdk.Lib

/-- The representation of a heap created on `[base, base + size)`: the blocks `bs` tile its
aligned part, the free list runs through the free ones in address order, the dog bytes tell
which are live, and the counters are right; `log` holds every value `heap->free` has had. -/
structure HeapOk (base size : Nat) (i : Fin memHeapListNum) (c : Client) (log : List Nat)
    (bs : List Block) : Prop where
  tiles : Tiles (alignUp base) (alignDown (base + size)) bs
  sizes : ∀ b ∈ bs, blockSize c.heap.mem b.addr = b.size ∧ 4 ∣ b.size
  freeList : Chain (blockNext c.heap.mem) (c.heap.memHeapList i).freeList (freeAddrs bs)
  increasing : (freeAddrs bs).Pairwise (· < ·)
  apart : ∀ b ∈ bs, ∀ d ∈ bs, b.used = false → d.used = false → b.addr + b.size ≠ d.addr
  live : ∀ b ∈ bs, b.used = true ↔ IsLive c.live (b.addr + 4)
  blocks : ∀ p, IsLive c.live p → ∃ b ∈ bs, p = b.addr + 4
  dogUse : ∀ b ∈ bs, c.heap.mem (b.addr + b.size - 1) = memBlockStatUse ↔ b.used = true
  dogFree : ∀ b ∈ bs, c.heap.mem (b.addr + b.size - 1) = memBlockStatFree ↔ b.used = false
  free : (c.heap.memHeapList i).free = freeBytes bs
  watermark : IsLeast { v | v ∈ log } (c.heap.memHeapList i).freeWatermark

/-- Calls that are permitted, and do not reallocate to one of the last eight sizes. -/
def Careful (c : Client) (k : Call) : Prop := Permitted c k ∧ WithinLimit k

instance : (k : Call) → Decidable (WithinLimit k)
  | .realloc ptr size => inferInstanceAs (Decidable (ptr = 0 ∨ size.toNat < 2 ^ 32 - 8))
  | .malloc _ => inferInstanceAs (Decidable True)
  | .free _ => inferInstanceAs (Decidable True)
  | .write _ _ => inferInstanceAs (Decidable True)

instance (c : Client) (k : Call) : Decidable (Careful c k) :=
  inferInstanceAs (Decidable (_ ∧ _))

/-! ## The representation invariant -/

section

variable {s₀ s : HeapState} {i : Fin memHeapListNum} {base size : Nat}

theorem call_spec {c : Client} {bs : List Block} (h : Tracks c.heap i c.live bs) {k : Call}
    (hk : Careful c k) :
    ∃ c' r bs', step i c k = some (c', r) ∧ CallOk i c bs k c' r bs' := by
  obtain ⟨hp, hlim⟩ := hk
  cases k with
  | malloc n => exact malloc_spec h n
  | realloc ptr n =>
    obtain ⟨c', r, bs', hstep, hok, -⟩ := realloc_spec h hp hlim
    exact ⟨c', r, bs', hstep, hok⟩
  | free ptr => exact free_spec h hp
  | write addr byte => exact write_spec h hp

/-- The invariant of a run on a heap created on `[base, base + size)`. -/
structure RunInv (base size : Nat) (i : Fin memHeapListNum) (c : Client) (log : List Nat)
    (bs : List Block) : Prop where
  tracks : Tracks c.heap i c.live bs
  base : (c.heap.memHeapList i).base = base
  size : (c.heap.memHeapList i).size = size
  watermark : WatermarkOk (c.heap.memHeapList i) log

theorem runInv_create (hcreate : tuyaMemHeapCreate s₀ base size = (s, some i))
    (htop : base + size ≤ 2 ^ 32) (hpad : sub32 (alignUp base) base < size) :
    RunInv base size i ⟨s, []⟩ [(s.memHeapList i).free] (initialBlocks base size) := by
  obtain ⟨hinv, hbase, hsize, hw⟩ := tuyaMemHeapCreate_spec hcreate htop hpad
  refine ⟨⟨hinv, by simp, by simp [initialBlocks], by simp⟩, hbase, hsize, by simp, ?_⟩
  simp [hw, IsLeast, lowerBounds]

theorem RunInv.call {c c' : Client} {log : List Nat} {bs bs' : List Block} {k : Call} {r : Reply}
    (h : RunInv base size i c log bs) (hok : CallOk i c bs k c' r bs') :
    RunInv base size i c' (log ++ r.frees) bs' :=
  ⟨hok.tracks, hok.same.1.trans h.base, hok.same.2.trans h.size, hok.watermark log h.watermark⟩

theorem runInv_run {c : Client} {log : List Nat} {bs : List Block}
    (h : RunInv base size i c log bs) {calls : List Call}
    (hl : Machine.Legal (step i) Careful c calls) :
    ∃ c' replies bs', Machine.run (step i) c calls = some (c', replies) ∧
      RunInv base size i c' (log ++ replies.flatMap Reply.frees) bs' := by
  have hstart : ∃ bs, RunInv base size i c (log ++ ([] : List Reply).flatMap Reply.frees) bs :=
    ⟨bs, by simpa using h⟩
  obtain ⟨c', replies, hrun, bs', hinv⟩ := Machine.run_total
    (I := fun c rs => ∃ bs, RunInv base size i c (log ++ rs.flatMap Reply.frees) bs)
    (by
      intro c rs k ⟨bs, hinv⟩ hk
      obtain ⟨c', r, bs', hstep, hok⟩ := call_spec hinv.tracks hk
      refine ⟨c', r, hstep, bs', ?_⟩
      simpa using hinv.call hok)
    hstart hl
  exact ⟨c', replies, bs', hrun, hinv⟩

theorem RunInv.heapOk {c : Client} {log : List Nat} {bs : List Block}
    (h : RunInv base size i c log bs) : HeapOk base size i c log bs := by
  have hinv := h.tracks.inv
  have hrep := hinv.rep
  have hdog : ∀ b ∈ bs, c.heap.mem (b.addr + b.size - 1) = statByte b.used := fun b hb =>
    (hrep.blocks b hb).dog
  have hlo : regionLo (c.heap.memHeapList i) = alignUp base := by rw [regionLo, h.base]
  have hhi : regionHi (c.heap.memHeapList i) = alignDown (base + size) := by
    rw [regionHi, h.base, h.size]
  rw [hlo, hhi] at hrep
  refine ⟨hrep.tiles, fun b hb => ⟨(hrep.blocks b hb).size, (hrep.sizes b hb).1⟩, hrep.chain,
    freeAddrs_increasing hrep.tiles hrep.sizes,
    coalesced_apart hrep.tiles hrep.sizes hinv.coalesced, ?_, ?_, ?_, ?_, hinv.free,
    h.watermark.least⟩
  · intro b hb
    constructor
    · exact h.tracks.held b hb
    · rintro ⟨n, hn⟩
      obtain ⟨d, hd, hu, heq, -⟩ := h.tracks.block _ n hn
      rw [hinv.addr_inj hb hd (by omega)]
      exact hu
  · rintro p ⟨n, hn⟩
    obtain ⟨b, hb, -, heq, -⟩ := h.tracks.block p n hn
    exact ⟨b, hb, heq⟩
  · intro b hb
    rw [hdog b hb]
    cases b.used <;> decide
  · intro b hb
    rw [hdog b hb]
    cases b.used <;> decide

/-- After any careful sequence of calls on a heap that was created on a region larger than
its alignment padding, the heap's representation is in order. -/
theorem heapOk_run (hcreate : tuyaMemHeapCreate s₀ base size = (s, some i))
    (htop : base + size ≤ 2 ^ 32) (hpad : sub32 (alignUp base) base < size) {calls : List Call}
    (hl : Machine.Legal (step i) Careful ⟨s, []⟩ calls) :
    ∃ c replies bs, Machine.run (step i) ⟨s, []⟩ calls = some (c, replies) ∧
      HeapOk base size i c ((s.memHeapList i).free :: replies.flatMap Reply.frees) bs := by
  obtain ⟨c, replies, bs, hrun, hinv⟩ := runInv_run (runInv_create hcreate htop hpad) hl
  exact ⟨c, replies, bs, hrun, hinv.heapOk⟩

end

/-! ## A small heap -/

/-- Zeroed memory and static variables. -/
def bootState : HeapState := ⟨fun _ => 0, fun _ => ⟨0, 0, 0, 0, 0⟩, 0, 0⟩

/-- A heap of 64 bytes at `4096`. -/
def smallHeap : Client := ⟨(tuyaMemHeapCreate bootState 4096 64).1, []⟩

theorem smallHeap_created :
    tuyaMemHeapCreate bootState 4096 64 = (smallHeap.heap, some 0) := by
  have h : (tuyaMemHeapCreate bootState 4096 64).2 = some 0 := by decide
  rw [← h]
  rfl

/-- Two blocks, a store, a reallocation that moves, and a release that merges. -/
def carefulCalls : List Call :=
  [.malloc 4, .malloc 4, .write 4143 7, .realloc 4140 9, .free 4152, .free 0]

theorem heapOk_run_small : ∃ c replies bs,
    Machine.run (step 0) smallHeap carefulCalls = some (c, replies) ∧
      HeapOk 4096 64 0 c
        ((smallHeap.heap.memHeapList 0).free :: replies.flatMap Reply.frees) bs :=
  heapOk_run smallHeap_created (by decide) (by decide)
    (Machine.legal_of_check (by decide +kernel))

/-- A block of 4 bytes "grown" to `2 ^ 32 - 1` bytes, and a store behind the first four. -/
def dogOverwritten : List Call := [.malloc 4, .realloc 4152 0xffffffff, .write 4159 0xaa]

/-- The dog byte of a live block no longer says that it is in use. -/
theorem heapOk_broken : ∃ c replies,
    tuyaMemHeapCreate bootState 4096 64 = (smallHeap.heap, some 0) ∧
      Machine.Legal (step 0) Permitted smallHeap dogOverwritten ∧
      Machine.run (step 0) smallHeap dogOverwritten = some (c, replies) ∧
      ∀ log bs, ¬HeapOk 4096 64 0 c log bs := by
  have hlegal : Machine.legalCheck (step 0) Permitted smallHeap dogOverwritten = true := by
    decide +kernel
  have hend : (Machine.run (step 0) smallHeap dogOverwritten).any (fun r =>
      decide (r.1.live = [(4152, 0xffffffff)] ∧ blockSize r.1.heap.mem 4148 = 12 ∧
        r.1.heap.mem 4159 = memBlockStatFree)) = true := by
    decide +kernel
  obtain ⟨⟨c, replies⟩, hrun, hfacts⟩ := (Option.any_eq_true _ _).mp hend
  obtain ⟨hlive, hsize, hdog⟩ := of_decide_eq_true hfacts
  refine ⟨c, replies, smallHeap_created, Machine.legal_of_check hlegal, hrun, ?_⟩
  intro log bs h
  have hheld : IsLive c.live 4152 := ⟨0xffffffff, by rw [hlive]; simp⟩
  obtain ⟨b, hb, haddr⟩ := h.blocks 4152 hheld
  have hb4148 : b.addr = 4148 := by omega
  have hused : b.used = true := (h.live b hb).mpr (by rw [← haddr]; exact hheld)
  have hb12 := (h.sizes b hb).1
  rw [hb4148, hsize] at hb12
  have huse := (h.dogUse b hb).mpr hused
  rw [hb4148, ← hb12, hdog] at huse
  exact absurd huse (by decide)

end TuyaSdk.TuyaMemHeap
