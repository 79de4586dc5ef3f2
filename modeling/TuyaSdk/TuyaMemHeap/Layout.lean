import TuyaSdk.TuyaMemHeap.Defs
import TuyaSdk.Lib.Chain

/-!
# Block layouts

The abstract view of a heap region: the blocks it is cut into, in address order. `Tiles`
says that they lie end to end, `BlockOk` that the memory carries a block's size word and
dog byte, and `HeapRep` that memory and heap record represent a layout, the free list
included. Operations replace a few neighbouring blocks, so a layout is taken apart into
the stretches `PartRep` on either side of them (`partRep_append`), which do not notice
writes outside them (`PartRep.congr`).
-/

namespace TuyaSdk.TuyaMemHeap
open TuyaSdk.Lib

/-- A block of the region. -/
structure Block where
  addr : Nat
  size : Nat
  used : Bool
  deriving DecidableEq, Repr

/-- The dog byte of a block. -/
def statByte (used : Bool) : Byte := if used then memBlockStatUse else memBlockStatFree

/-- The blocks lie end to end from `lo` to `hi`. -/
def Tiles : Nat → Nat → List Block → Prop
  | lo, hi, [] => lo = hi
  | lo, hi, b :: bs => b.addr = lo ∧ Tiles (lo + b.size) hi bs

/-- The memory carries the size word and the dog byte of the block. -/
structure BlockOk (m : Mem) (b : Block) : Prop where
  size : blockSize m b.addr = b.size
  dog : m (b.addr + b.size - 1) = statByte b.used

/-- The free blocks of a layout. -/
def freeBlocks (bs : List Block) : List Block := bs.filter fun b => !b.used

/-- The addresses of the free blocks. -/
def freeAddrs (bs : List Block) : List Nat := (freeBlocks bs).map Block.addr

/-- The bytes in free blocks. -/
def freeBytes (bs : List Block) : Nat := ((freeBlocks bs).map Block.size).sum

/-- No two neighbouring blocks are both free. -/
def Coalesced (bs : List Block) : Prop := bs.IsChain fun b c => b.used ∨ c.used

/-- Block sizes that the allocator deals in: room for header, link and dog. -/
def SizeOk (b : Block) : Prop := 4 ∣ b.size ∧ 12 ≤ b.size

/-- The memory `m` represents the blocks `bs` of `[lo, hi)`; the free list enters them at
`p` and leaves them for `q`. -/
structure PartRep (m : Mem) (p lo hi : Nat) (bs : List Block) (q : Nat) : Prop where
  tiles : Tiles lo hi bs
  sizes : ∀ b ∈ bs, SizeOk b
  blocks : ∀ b ∈ bs, BlockOk m b
  chain : Segment (blockNext m) p (freeAddrs bs) q

/-- The memory `m` and the list head `freeList` represent the layout `bs` of `[lo, hi)`. -/
abbrev HeapRep (m : Mem) (freeList lo hi : Nat) (bs : List Block) : Prop :=
  PartRep m freeList lo hi bs 0

/-! ## Tilings -/

theorem tiles_append {lo hi : Nat} {bs cs : List Block} :
    Tiles lo hi (bs ++ cs) ↔ ∃ mid, Tiles lo mid bs ∧ Tiles mid hi cs := by
  induction bs generalizing lo with
  | nil => simp [Tiles]
  | cons b bs ih =>
    simp only [List.cons_append, Tiles, ih]
    constructor
    · rintro ⟨ha, mid, h1, h2⟩
      exact ⟨mid, ⟨ha, h1⟩, h2⟩
    · rintro ⟨mid, ⟨ha, h1⟩, h2⟩
      exact ⟨ha, mid, h1, h2⟩

theorem Tiles.le {lo hi : Nat} {bs : List Block} (h : Tiles lo hi bs) : lo ≤ hi := by
  induction bs generalizing lo with
  | nil => exact Nat.le_of_eq h
  | cons b bs ih =>
    have := ih h.2
    omega

theorem Tiles.bounds {lo hi : Nat} {bs : List Block} (h : Tiles lo hi bs) {b : Block}
    (hb : b ∈ bs) : lo ≤ b.addr ∧ b.addr + b.size ≤ hi := by
  induction bs generalizing lo with
  | nil => simp at hb
  | cons c bs ih =>
    obtain ⟨rfl, ht⟩ := h
    rcases List.mem_cons.mp hb with rfl | hb
    · exact ⟨Nat.le_refl _, ht.le⟩
    · have := ih ht hb
      omega

/-- A block in the middle: the blocks before it end where it starts. -/
theorem tiles_middle {lo hi : Nat} {pre post : List Block} {b : Block} :
    Tiles lo hi (pre ++ b :: post) ↔
      Tiles lo b.addr pre ∧ Tiles (b.addr + b.size) hi post := by
  rw [tiles_append]
  constructor
  · rintro ⟨mid, h1, rfl, h2⟩
    exact ⟨h1, h2⟩
  · rintro ⟨h1, h2⟩
    exact ⟨b.addr, h1, rfl, h2⟩

/-- Blocks end at one place. -/
theorem Tiles.end_unique {lo hi hi' : Nat} {bs : List Block} (h : Tiles lo hi bs)
    (h' : Tiles lo hi' bs) : hi = hi' := by
  induction bs generalizing lo with
  | nil => exact Eq.trans (Eq.symm h) h'
  | cons b bs ih => exact ih h.2 h'.2

/-- Blocks of a tiling are in address order. -/
theorem Tiles.pairwise {lo hi : Nat} {bs : List Block} (h : Tiles lo hi bs) :
    bs.Pairwise fun b c => b.addr + b.size ≤ c.addr := by
  induction bs generalizing lo with
  | nil => exact List.Pairwise.nil
  | cons b bs ih =>
    obtain ⟨rfl, ht⟩ := h
    exact List.pairwise_cons.mpr ⟨fun c hc => (ht.bounds hc).1, ih ht⟩

/-- The blocks on either side of a block of a tiling do not reach into it. -/
theorem Tiles.apart {lo hi : Nat} {pre post : List Block} {b c : Block}
    (h : Tiles lo hi (pre ++ b :: post)) (hc : c ∈ pre ∨ c ∈ post) :
    c.addr + c.size ≤ b.addr ∨ b.addr + b.size ≤ c.addr := by
  obtain ⟨h1, h2⟩ := tiles_middle.mp h
  rcases hc with hc | hc
  · exact Or.inl (h1.bounds hc).2
  · exact Or.inr (h2.bounds hc).1

/-- Two blocks of a tiling lie apart. -/
theorem Tiles.apart_of_ne {lo hi : Nat} {bs : List Block} {b c : Block} (h : Tiles lo hi bs)
    (hb : b ∈ bs) (hc : c ∈ bs) (hne : c ≠ b) :
    c.addr + c.size ≤ b.addr ∨ b.addr + b.size ≤ c.addr := by
  obtain ⟨pre, post, rfl⟩ := List.append_of_mem hb
  apply h.apart
  rcases List.mem_append.mp hc with hc | hc
  · exact Or.inl hc
  · rcases List.mem_cons.mp hc with hc | hc
    · exact absurd hc hne
    · exact Or.inr hc

/-- A tiling of blocks of at least 12 bytes has at most a twelfth as many. -/
theorem Tiles.length_le {lo hi : Nat} {bs : List Block} (h : Tiles lo hi bs)
    (hs : ∀ b ∈ bs, SizeOk b) : 12 * bs.length ≤ hi - lo := by
  induction bs generalizing lo with
  | nil => simp
  | cons b bs ih =>
    have h1 := ih h.2 fun c hc => hs c (List.mem_cons_of_mem _ hc)
    have h2 := (hs b List.mem_cons_self).2
    have h3 := h.2.le
    simp only [List.length_cons]
    omega

/-! ## Block fields in memory -/

theorem blockSize_setBlockSize (m : Mem) (block v : Nat) :
    blockSize (setBlockSize m block v) block = u32 v := read32_write32_same ..

theorem blockNext_setBlockNext (m : Mem) (block v : Nat) :
    blockNext (setBlockNext m block v) block = u32 v := read32_write32_same ..

theorem setBlockSize_apply {m : Mem} {block v x : Nat} (h : x < block ∨ block + 4 ≤ x) :
    setBlockSize m block v x = m x := write32_apply h

theorem setBlockNext_apply {m : Mem} {block v x : Nat} (h : x < block + 4 ∨ block + 8 ≤ x) :
    setBlockNext m block v x = m x := write32_apply (by omega)

theorem blockSize_eq {m m' : Mem} {block : Nat}
    (h : ∀ x, block ≤ x → x < block + 4 → m' x = m x) : blockSize m' block = blockSize m block :=
  read32_congr fun x hx => h x hx.1 hx.2

theorem blockNext_eq {m m' : Mem} {block : Nat}
    (h : ∀ x, block + 4 ≤ x → x < block + 8 → m' x = m x) :
    blockNext m' block = blockNext m block :=
  read32_congr fun x hx => h x hx.1 hx.2

/-! ## What the memory of a block decides -/

theorem BlockOk.congr {m m' : Mem} {b : Block} (h : BlockOk m b) (hs : SizeOk b)
    (heq : ∀ x, b.addr ≤ x → x < b.addr + b.size → m' x = m x) : BlockOk m' b := by
  have h12 := hs.2
  constructor
  · rw [← h.size]
    exact blockSize_eq fun x hx1 hx2 => heq x hx1 (by omega)
  · rw [← h.dog]
    exact heq _ (by omega) (by omega)

theorem blockNext_congr {m m' : Mem} {b : Block} (hs : SizeOk b)
    (heq : ∀ x, b.addr ≤ x → x < b.addr + b.size → m' x = m x) :
    blockNext m' b.addr = blockNext m b.addr := by
  have h12 := hs.2
  exact blockNext_eq fun x hx1 hx2 => heq x (by omega) (by omega)

/-- Storing its link leaves the size word and the dog byte of a block alone. -/
theorem BlockOk.setNext {m : Mem} {b : Block} {q : Nat} (h : BlockOk m b) (hs : SizeOk b) :
    BlockOk (setBlockNext m b.addr q) b := by
  have h12 := hs.2
  constructor
  · rw [← h.size]
    exact blockSize_eq fun x hx1 hx2 => setBlockNext_apply (by omega)
  · rw [← h.dog]
    exact setBlockNext_apply (by omega)

/-- The dog lies in the last byte of the block, also at the top of the address space. -/
theorem memDogAddr_eq {m : Mem} {block n : Nat} (hn : blockSize m block = n) (h0 : 0 < n)
    (hle : block + n ≤ 2 ^ 32) : memDogAddr m block = block + n - 1 := by
  unfold memDogAddr
  rw [hn]
  unfold sub32 u32
  omega

/-! ## Free blocks of a layout -/

theorem freeBlocks_append (bs cs : List Block) :
    freeBlocks (bs ++ cs) = freeBlocks bs ++ freeBlocks cs := List.filter_append ..

theorem freeBlocks_cons_used {b : Block} (h : b.used = true) (bs : List Block) :
    freeBlocks (b :: bs) = freeBlocks bs := by
  simp [freeBlocks, h]

theorem freeBlocks_cons_free {b : Block} (h : b.used = false) (bs : List Block) :
    freeBlocks (b :: bs) = b :: freeBlocks bs := by
  simp [freeBlocks, h]

theorem freeAddrs_append (bs cs : List Block) :
    freeAddrs (bs ++ cs) = freeAddrs bs ++ freeAddrs cs := by
  simp [freeAddrs, freeBlocks_append]

theorem freeAddrs_cons_used {b : Block} (h : b.used = true) (bs : List Block) :
    freeAddrs (b :: bs) = freeAddrs bs := by
  simp [freeAddrs, freeBlocks_cons_used h]

theorem freeAddrs_cons_free {b : Block} (h : b.used = false) (bs : List Block) :
    freeAddrs (b :: bs) = b.addr :: freeAddrs bs := by
  simp [freeAddrs, freeBlocks_cons_free h]

theorem freeBytes_append (bs cs : List Block) :
    freeBytes (bs ++ cs) = freeBytes bs + freeBytes cs := by
  simp [freeBytes, freeBlocks_append]

theorem freeBytes_cons_used {b : Block} (h : b.used = true) (bs : List Block) :
    freeBytes (b :: bs) = freeBytes bs := by
  simp [freeBytes, freeBlocks_cons_used h]

theorem freeBytes_cons_free {b : Block} (h : b.used = false) (bs : List Block) :
    freeBytes (b :: bs) = b.size + freeBytes bs := by
  simp [freeBytes, freeBlocks_cons_free h]

theorem mem_freeBlocks {b : Block} {bs : List Block} :
    b ∈ freeBlocks bs ↔ b ∈ bs ∧ b.used = false := by
  simp [freeBlocks]

theorem mem_freeAddrs {a : Nat} {bs : List Block} :
    a ∈ freeAddrs bs ↔ ∃ b ∈ bs, b.used = false ∧ b.addr = a := by
  simp [freeAddrs, mem_freeBlocks, and_assoc]

theorem length_freeBlocks_le (bs : List Block) : (freeBlocks bs).length ≤ bs.length :=
  List.length_filter_le ..

/-- A free block in the list of free blocks sits in the layout with the free blocks before
it on its left and those after it on its right. -/
theorem freeBlocks_split {bs xs ys : List Block} {b : Block}
    (h : freeBlocks bs = xs ++ b :: ys) :
    ∃ pre post, bs = pre ++ b :: post ∧ freeBlocks pre = xs ∧ freeBlocks post = ys ∧
      b.used = false := by
  induction bs generalizing xs with
  | nil => simp [freeBlocks] at h
  | cons c bs ih =>
    cases hc : c.used with
    | true =>
      rw [freeBlocks_cons_used hc] at h
      obtain ⟨pre, post, rfl, h1, h2, h3⟩ := ih h
      exact ⟨c :: pre, post, rfl, by rw [freeBlocks_cons_used hc, h1], h2, h3⟩
    | false =>
      rw [freeBlocks_cons_free hc] at h
      cases xs with
      | nil =>
        simp only [List.nil_append, List.cons.injEq] at h
        obtain ⟨rfl, rfl⟩ := h
        exact ⟨[], bs, rfl, rfl, rfl, hc⟩
      | cons x xs =>
        simp only [List.cons_append, List.cons.injEq] at h
        obtain ⟨rfl, h⟩ := h
        obtain ⟨pre, post, rfl, h1, h2, h3⟩ := ih h
        exact ⟨c :: pre, post, rfl, by rw [freeBlocks_cons_free hc, h1], h2, h3⟩

/-! ## Stretches of a represented layout -/

theorem partRep_append {m : Mem} {p lo hi q : Nat} {bs cs : List Block} :
    PartRep m p lo hi (bs ++ cs) q ↔
      ∃ mid r, PartRep m p lo mid bs r ∧ PartRep m r mid hi cs q := by
  constructor
  · intro h
    obtain ⟨mid, ht₁, ht₂⟩ := tiles_append.mp h.tiles
    have hchain := h.chain
    rw [freeAddrs_append] at hchain
    obtain ⟨r, hc₁, hc₂⟩ := segment_append.mp hchain
    exact ⟨mid, r,
      ⟨ht₁, fun b hb => h.sizes b (by simp [hb]), fun b hb => h.blocks b (by simp [hb]), hc₁⟩,
      ⟨ht₂, fun b hb => h.sizes b (by simp [hb]), fun b hb => h.blocks b (by simp [hb]), hc₂⟩⟩
  · intro ⟨mid, r, h₁, h₂⟩
    refine ⟨tiles_append.mpr ⟨mid, h₁.tiles, h₂.tiles⟩, ?_, ?_, ?_⟩
    · intro b hb
      rcases List.mem_append.mp hb with hb | hb
      · exact h₁.sizes b hb
      · exact h₂.sizes b hb
    · intro b hb
      rcases List.mem_append.mp hb with hb | hb
      · exact h₁.blocks b hb
      · exact h₂.blocks b hb
    · rw [freeAddrs_append]
      exact segment_append.mpr ⟨r, h₁.chain, h₂.chain⟩

/-- A stretch of one used block: the free list passes it by. -/
theorem partRep_used {m : Mem} {p lo hi q : Nat} {b : Block} (hu : b.used = true) :
    PartRep m p lo hi [b] q ↔
      b.addr = lo ∧ lo + b.size = hi ∧ SizeOk b ∧ BlockOk m b ∧ p = q := by
  constructor
  · intro h
    have hc := h.chain
    rw [freeAddrs_cons_used hu] at hc
    exact ⟨h.tiles.1, h.tiles.2, h.sizes b (by simp), h.blocks b (by simp), hc⟩
  · intro ⟨ha, hhi, hs, hb, hpq⟩
    refine ⟨⟨ha, hhi⟩, by simpa using hs, by simpa using hb, ?_⟩
    rw [freeAddrs_cons_used hu]
    exact hpq

/-- A stretch of one free block: the free list comes to it and leaves by its link. -/
theorem partRep_free {m : Mem} {p lo hi q : Nat} {b : Block} (hf : b.used = false) :
    PartRep m p lo hi [b] q ↔
      b.addr = lo ∧ lo + b.size = hi ∧ SizeOk b ∧ BlockOk m b ∧ p = b.addr ∧ b.addr ≠ 0 ∧
        blockNext m b.addr = q := by
  constructor
  · intro h
    have hc := h.chain
    rw [freeAddrs_cons_free hf] at hc
    exact ⟨h.tiles.1, h.tiles.2, h.sizes b (by simp), h.blocks b (by simp), hc⟩
  · intro ⟨ha, hhi, hs, hb, hpq⟩
    refine ⟨⟨ha, hhi⟩, by simpa using hs, by simpa using hb, ?_⟩
    rw [freeAddrs_cons_free hf]
    exact hpq

theorem partRep_cons {m : Mem} {p lo hi q : Nat} {b : Block} {bs : List Block} :
    PartRep m p lo hi (b :: bs) q ↔
      ∃ r, PartRep m p lo (lo + b.size) [b] r ∧ PartRep m r (lo + b.size) hi bs q := by
  have hcons : b :: bs = [b] ++ bs := rfl
  rw [hcons, partRep_append]
  constructor
  · intro ⟨mid, r, h₁, h₂⟩
    obtain ⟨-, rfl⟩ := h₁.tiles
    exact ⟨r, h₁, h₂⟩
  · intro ⟨r, h₁, h₂⟩
    exact ⟨_, r, h₁, h₂⟩

/-- A layout around one of its blocks. -/
theorem partRep_middle {m : Mem} {p lo hi q : Nat} {pre post : List Block} {b : Block} :
    PartRep m p lo hi (pre ++ b :: post) q ↔
      ∃ r s, PartRep m p lo b.addr pre r ∧ PartRep m r b.addr (b.addr + b.size) [b] s ∧
        PartRep m s (b.addr + b.size) hi post q := by
  rw [partRep_append]
  constructor
  · intro ⟨mid, r, h₁, h⟩
    obtain ⟨s, h₂, h₃⟩ := partRep_cons.mp h
    obtain ⟨rfl, -⟩ := h₂.tiles
    exact ⟨r, s, h₁, h₂, h₃⟩
  · intro ⟨r, s, h₁, h₂, h₃⟩
    exact ⟨b.addr, r, h₁, partRep_cons.mpr ⟨s, h₂, h₃⟩⟩

/-- Writes outside a stretch leave it represented. -/
theorem PartRep.congr {m m' : Mem} {p lo hi q : Nat} {bs : List Block}
    (h : PartRep m p lo hi bs q) (heq : ∀ x, lo ≤ x → x < hi → m' x = m x) :
    PartRep m' p lo hi bs q := by
  have hin : ∀ b ∈ bs, ∀ x, b.addr ≤ x → x < b.addr + b.size → m' x = m x := by
    intro b hb x hx₁ hx₂
    have := h.tiles.bounds hb
    exact heq x (by omega) (by omega)
  refine ⟨h.tiles, h.sizes, fun b hb => (h.blocks b hb).congr (h.sizes b hb) (hin b hb), ?_⟩
  apply h.chain.congr
  intro a ha
  obtain ⟨b, hb, -, rfl⟩ := mem_freeAddrs.mp ha
  exact blockNext_congr (h.sizes b hb) (hin b hb)

/-- The free list passes by a stretch without free blocks, wherever it goes. -/
theorem PartRep.pass {m : Mem} {p lo hi q : Nat} {bs : List Block} (h : PartRep m p lo hi bs q)
    (hnone : freeBlocks bs = []) : p = q ∧ ∀ r, PartRep m r lo hi bs r := by
  have haddrs : freeAddrs bs = [] := by simp [freeAddrs, hnone]
  have hc := h.chain
  rw [haddrs] at hc
  refine ⟨hc, fun r => ⟨h.tiles, h.sizes, h.blocks, ?_⟩⟩
  rw [haddrs]
  rfl

end TuyaSdk.TuyaMemHeap
