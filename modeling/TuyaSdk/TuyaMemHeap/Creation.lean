import TuyaSdk.TuyaMemHeap.Debug

/-!
# Creation is all or nothing

`mem_heap_init` subtracts the alignment padding from the size before it compares what is left with
the least size of a heap. The subtraction wraps for a region that is shorter than its padding.
-/

namespace TuyaSdk.TuyaMemHeap
open TuyaSdk.Lib

/-- The only free block of a new heap, with its header and its dog byte, lies in the region. -/
structure InitialBlockIn (m : Mem) (block start size : Nat) : Prop where
  lo : start ≤ block
  hi : block + blockSize m block ≤ start + size
  header : 8 ≤ blockSize m block
  dog : start ≤ memDogAddr m block ∧ memDogAddr m block < start + size
  free : m (memDogAddr m block) = memBlockStatFree
  last : blockNext m block = 0

/-- `tuya_mem_heap_create` returns -1 and changes nothing, or starts a heap inside the region. -/
def CreateOk (s : HeapState) (start size : Nat) : Prop :=
  match tuyaMemHeapCreate s start size with
  | (s', none) => s' = s
  | (s', some i) => InitialBlockIn s'.mem (s'.memHeapList i).freeList start size

/-- The bytes before the first aligned address. -/
def padding (start : Nat) : Nat := (4 - start % 4) % 4

/-- The bytes between the aligned ends of a region that is not shorter than its padding. -/
def usable (start size : Nat) : Nat := (size - padding start) / 4 * 4

/-- What a region must be like for the slot it is to be put in: no shorter than its padding, with
its base address in the slot already when it is too small for a heap, and with its aligned end in
the address space when it is large enough. -/
structure RegionFits (heap : MemHeap) (start size : Nat) : Prop where
  padded : padding start ≤ size
  small : usable start size < memHeapMinSize → heap.base = start
  large : memHeapMinSize ≤ usable start size → start + padding start + usable start size ≤ 2 ^ 32

section Init

variable {s : HeapState} {i : Fin memHeapListNum} {start size : Nat}

theorem sub32_alignUp (h : start < 2 ^ 32) : sub32 (alignUp start) start = padding start := by
  unfold sub32 alignUp padding u32 memAlignNum
  omega

/-- What `mem_heap_init` computes as the usable size. -/
theorem alignDown_sub32 (start : Nat) (hs : size < 2 ^ 32) :
    alignDown (sub32 size (padding start)) =
      if padding start ≤ size then usable start size else 2 ^ 32 - 4 := by
  have hpad : padding start < 4 := Nat.mod_lt _ (by decide)
  unfold alignDown usable memAlignNum
  split
  · rename_i hle
    rw [sub32_of_le hle hs]
  · rename_i hlt
    rw [sub32_of_lt (by omega) (by omega)]
    omega

/-- The memory with the first block of a heap. -/
def newBlock (m : Mem) (first n : Nat) : Mem :=
  let m := setBlockSize (setBlockNext m first 0) first n
  write8 m (memDogAddr m first) memBlockStatFree

theorem memHeapInit_eq (s : HeapState) (i : Fin memHeapListNum) (hst : start < 2 ^ 32) {n : Nat}
    (hn : alignDown (sub32 size (padding start)) = n) :
    memHeapInit s i start size =
      if n < memHeapMinSize then none
      else
        some {
          mem := newBlock s.mem (alignUp start) n
          memHeapList := Function.update s.memHeapList i
            { freeList := alignUp start, base := start, size := size, free := n, freeWatermark := n }
          heapFreeSize := u32 (s.heapFreeSize + n)
          heapFreeSizeWatermark := u32 (s.heapFreeSize + n) } := by
  unfold memHeapInit newBlock
  simp only [sub32_alignUp hst, hn]

/-- The header and the dog byte of the first block. -/
theorem newBlock_spec (m : Mem) {first n : Nat} (hf4 : 4 ∣ first)
    (hn4 : 4 ∣ n) (hmin : memHeapMinSize ≤ n) (hn : n < 2 ^ 32) :
    blockSize (newBlock m first n) first = n ∧ blockNext (newBlock m first n) first = 0 ∧
      memDogAddr (newBlock m first n) first = sub32 (u32 (first + n)) 1 ∧
      newBlock m first n (sub32 (u32 (first + n)) 1) = memBlockStatFree := by
  unfold memHeapMinSize memBlockMinSize memBlockHeadSize at hmin
  obtain ⟨m₁, hm₁⟩ : ∃ m₁, m₁ = setBlockNext m first 0 := ⟨_, rfl⟩
  obtain ⟨m₂, hm₂⟩ : ∃ m₂, m₂ = setBlockSize m₁ first n := ⟨_, rfl⟩
  have hsize₂ : blockSize m₂ first = n := by
    rw [hm₂, blockSize_setBlockSize, u32_of_lt hn]
  have hnext₂ : blockNext m₂ first = 0 := by
    have hkeep : blockNext m₂ first = blockNext m₁ first :=
      blockNext_eq fun x hx _ => by rw [hm₂, setBlockSize_apply (by omega)]
    rw [hkeep, hm₁, blockNext_setBlockNext, u32_of_lt (by decide)]
  have hdog₂ : memDogAddr m₂ first = sub32 (u32 (first + n)) 1 := by
    rw [memDogAddr, hsize₂]
  -- the dog byte is not in the header, wherever it wraps to
  obtain ⟨d, hd⟩ : ∃ d, d = sub32 (u32 (first + n)) 1 := ⟨_, rfl⟩
  have hapart : d < first ∨ first + 8 ≤ d := by
    unfold sub32 u32 at hd
    omega
  have hnew : newBlock m first n = write8 m₂ d memBlockStatFree := by
    unfold newBlock
    simp only [← hm₁, ← hm₂, hdog₂, ← hd]
  have hout : ∀ x, first ≤ x → x < first + 8 → newBlock m first n x = m₂ x := by
    intro x h1 h2
    rw [hnew, write8_apply (by omega)]
  have hsize : blockSize (newBlock m first n) first = n :=
    (blockSize_eq fun x h1 h2 => hout x h1 (by omega)).trans hsize₂
  refine ⟨hsize, ?_, ?_, ?_⟩
  · exact (blockNext_eq fun x h1 h2 => hout x (by omega) (by omega)).trans hnext₂
  · rw [memDogAddr, hsize]
  · rw [hnew, ← hd]
    exact write8_same ..

theorem dvd_alignUp (start : Nat) : 4 ∣ alignUp start := by
  unfold alignUp memAlignNum
  exact Nat.dvd_mul_left _ _

theorem dvd_alignDown (n : Nat) : 4 ∣ alignDown n := by
  unfold alignDown memAlignNum
  exact Nat.dvd_mul_left _ _

/-- The first block of a region that is not refused lies in the region exactly when the region is
no shorter than its padding and its aligned end lies in the address space. -/
theorem initialBlockIn_iff (m : Mem) (h0 : start ≠ 0) (hst : start < 2 ^ 32) (hs : size < 2 ^ 32)
    {n : Nat} (hn : alignDown (sub32 size (padding start)) = n) (hmin : memHeapMinSize ≤ n) :
    InitialBlockIn (newBlock m (alignUp start) n) (alignUp start) start size ↔
      padding start ≤ size ∧ start + padding start + usable start size ≤ 2 ^ 32 := by
  have hn4 : 4 ∣ n := hn ▸ dvd_alignDown _
  have hnlt : n < 2 ^ 32 := by
    rw [← hn]
    exact (Nat.div_mul_le_self _ _).trans_lt (u32_lt _)
  obtain ⟨hsize, hnext, hdog, hfree⟩ := newBlock_spec m (dvd_alignUp start) hn4 hmin hnlt
  have hpad : padding start < 4 := Nat.mod_lt _ (by decide)
  have hup : alignUp start = start + padding start ∨
      alignUp start = 0 ∧ start + padding start = 2 ^ 32 := by
    unfold alignUp padding u32 memAlignNum
    omega
  have hval := alignDown_sub32 start hs
  rw [hn] at hval
  unfold memHeapMinSize memBlockMinSize memBlockHeadSize at hmin
  constructor
  · rintro ⟨hlo, hhi, -, ⟨hdlo, -⟩, -, -⟩
    rw [hsize] at hhi
    rw [hdog] at hdlo
    have hup' : alignUp start = start + padding start := by
      rcases hup with h | ⟨h, -⟩
      · exact h
      · omega
    by_cases hle : padding start ≤ size
    · rw [if_pos hle] at hval
      refine ⟨hle, ?_⟩
      rw [← hval]
      unfold sub32 u32 at hdlo
      omega
    · rw [if_neg hle] at hval
      omega
  · rintro ⟨hle, htop⟩
    rw [if_pos hle] at hval
    rw [← hval] at htop
    have husable : n ≤ size - padding start := by
      rw [hval]
      exact Nat.div_mul_le_self _ _
    have hup' : alignUp start = start + padding start := by
      rcases hup with h | ⟨-, h⟩
      · exact h
      · omega
    have hdog' : sub32 (u32 (alignUp start + n)) 1 = alignUp start + n - 1 := by
      unfold sub32 u32
      omega
    rw [hdog'] at hdog hfree
    refine ⟨by omega, ?_, ?_, ?_, ?_, hnext⟩
    · rw [hsize]
      omega
    · rw [hsize]
      omega
    · rw [hdog]
      omega
    · rw [hdog]
      exact hfree

/-- The slot that a refused region leaves is the one before exactly when the base address is the
same. -/
theorem touched_eq_iff (hdead : ¬LiveHeap s i) :
    ({ s with
        memHeapList := Function.update s.memHeapList i
          { s.memHeapList i with base := start, size := 0 } } : HeapState) = s ↔
      (s.memHeapList i).base = start := by
  have hz : (s.memHeapList i).size = 0 := by
    unfold LiveHeap at hdead
    omega
  constructor
  · intro h
    have hslot := congrArg (fun t : HeapState => (t.memHeapList i).base) h
    simp only [Function.update_self] at hslot
    exact hslot.symm
  · intro h
    have hslot : ({ s.memHeapList i with base := start, size := 0 } : MemHeap) =
        s.memHeapList i := by
      rw [← h, ← hz]
    rw [hslot, Function.update_eq_self]

/-- With an empty slot, the call is all or nothing exactly when the region fits that slot. -/
theorem createOk_firstEmpty (hi : FirstEmpty s i) (h0 : start ≠ 0) (hz : size ≠ 0)
    (hst : start < 2 ^ 32) (hs : size < 2 ^ 32) :
    CreateOk s start size ↔ RegionFits (s.memHeapList i) start size := by
  obtain ⟨n, hn⟩ : ∃ n, alignDown (sub32 size (padding start)) = n := ⟨_, rfl⟩
  have hinit := memHeapInit_eq s i hst hn
  have hval := alignDown_sub32 start hs
  rw [hn] at hval
  have hpad : padding start < 4 := Nat.mod_lt _ (by decide)
  unfold CreateOk
  rcases create_cases s start size with ⟨hnone, -⟩ | ⟨j, hj, -, -, hcase⟩
  · rcases hnone with h | h | h
    · exact absurd h h0
    · exact absurd h hz
    · exact absurd (h i) hi.1
  · obtain rfl := hj.unique hi
    rcases hcase with ⟨hrun, heq⟩ | ⟨s', hrun, heq⟩
    · have hsmall : n < memHeapMinSize := by
        by_contra hge
        rw [hinit, if_neg hge] at hrun
        cases hrun
      have hle : padding start ≤ size := by
        by_contra hlt
        rw [if_neg hlt] at hval
        unfold memHeapMinSize memBlockMinSize memBlockHeadSize at hsmall
        omega
      rw [if_pos hle] at hval
      rw [heq]
      refine (touched_eq_iff hi.1).trans ?_
      constructor
      · intro hbase
        exact ⟨hle, fun _ => hbase, fun hge => by omega⟩
      · intro h
        exact h.small (hval ▸ hsmall)
    · have hmin : memHeapMinSize ≤ n := by
        by_contra hlt
        rw [hinit, if_pos (by omega)] at hrun
        cases hrun
      rw [hinit, if_neg (by omega)] at hrun
      cases hrun
      rw [heq]
      simp only [Function.update_self]
      refine (initialBlockIn_iff s.mem h0 hst hs hn hmin).trans ?_
      constructor
      · rintro ⟨hle, htop⟩
        rw [if_pos hle] at hval
        exact ⟨hle, fun hlt => by omega, fun _ => htop⟩
      · intro h
        have hle := h.padded
        rw [if_pos hle] at hval
        exact ⟨hle, h.large (hval ▸ hmin)⟩

end Init

/-- Creation is all or nothing, and stays in the region, exactly when the region fits the first
empty slot. -/
theorem createOk_iff (s : HeapState) (start size : BitVec 32) :
    CreateOk s start.toNat size.toNat ↔
      ∀ i, FirstEmpty s i → start.toNat ≠ 0 → size.toNat ≠ 0 →
        RegionFits (s.memHeapList i) start.toNat size.toNat := by
  constructor
  · intro h i hi h0 hz
    exact (createOk_firstEmpty hi h0 hz start.isLt size.isLt).mp h
  · intro h
    rcases create_cases s start.toNat size.toNat with ⟨-, heq⟩ | ⟨i, hi, h0, hz, -⟩
    · unfold CreateOk
      rw [heq]
    · exact (createOk_firstEmpty hi h0 hz start.isLt size.isLt).mpr (h i hi h0 hz)

/-- One byte at an address that is not aligned becomes a heap of almost 4 gigabytes. -/
theorem not_forall_createOk :
    ¬∀ (s : HeapState) (start size : BitVec 32), size ≠ 0 →
      CreateOk s start.toNat size.toNat := by
  intro h
  have hempty : FirstEmpty bootState 0 := ⟨by decide, fun j hj => absurd hj (by decide +revert)⟩
  have hok := h bootState 4097 1 (by decide)
  have hfits := (createOk_firstEmpty hempty (by decide) (by decide) (by decide) (by decide)).mp hok
  exact absurd hfits.padded (by decide)

end TuyaSdk.TuyaMemHeap
