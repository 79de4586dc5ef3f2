import TuyaSdk.TuyaMemHeap.Search
import TuyaSdk.TuyaMemHeap.Steps

/-!
# Allocation on a represented layout

`mem_chunk_get` on a memory that represents a layout: it takes a block (`Takes`) and leaves
a memory that represents the new layout, or nothing fits and nothing changes. All bytes it
writes lie in blocks that were free.
-/

namespace TuyaSdk.TuyaMemHeap
open TuyaSdk.Lib

/-- Memory changed only inside the free blocks of `bs`. -/
def ChangedInFree (m m' : Mem) (bs : List Block) : Prop :=
  ∀ x, (∀ b ∈ bs, b.used = false → x < b.addr ∨ b.addr + b.size ≤ x) → m' x = m x

/-- The bytes of a used block are not those of a free one. -/
theorem ChangedInFree.used {m m' : Mem} {lo hi : Nat} {bs : List Block} {c : Block}
    (h : ChangedInFree m m' bs) (ht : Tiles lo hi bs) (hc : c ∈ bs) (hu : c.used = true) {x : Nat}
    (h1 : c.addr ≤ x) (h2 : x < c.addr + c.size) : m' x = m x := by
  apply h
  intro b hb hbf
  have hne : c ≠ b := by
    rintro rfl
    rw [hu] at hbf
    simp at hbf
  have := ht.apart_of_ne hb hc hne
  omega

/-- Bytes outside the region are kept. -/
theorem ChangedInFree.outside {m m' : Mem} {lo hi : Nat} {bs : List Block}
    (h : ChangedInFree m m' bs) (ht : Tiles lo hi bs) {x : Nat} (hx : x < lo ∨ hi ≤ x) :
    m' x = m x := by
  apply h
  intro b hb _
  have := ht.bounds hb
  omega

/-! ## The predecessor's link -/

/-- Storing `q` in the link that leads on from `pre`: the list head when `pre` is NULL. -/
def linkPred (m : Mem) (heap : MemHeap) (pre q : Nat) : Mem × MemHeap :=
  if pre ≠ 0 then (setBlockNext m pre q, heap) else (m, { heap with freeList := q })

theorem chunkTakeOver_eq (m : Mem) (heap : MemHeap) (pre this : Nat) :
    chunkTakeOver m heap pre this =
      (write8 (linkPred m heap pre (blockNext m this)).1
        (memDogAddr (linkPred m heap pre (blockNext m this)).1 this) memBlockStatUse,
      (linkPred m heap pre (blockNext m this)).2) := rfl

theorem linkPred_heap (m : Mem) (heap : MemHeap) (pre q : Nat) :
    ∃ m' freeList', linkPred m heap pre q = (m', { heap with freeList := freeList' }) := by
  unfold linkPred
  split
  · exact ⟨_, heap.freeList, rfl⟩
  · exact ⟨_, q, rfl⟩

/-- After the link of the last free block of a stretch is stored, the free list leaves the
stretch for `q`. -/
theorem linkPred_spec {m : Mem} {heap : MemHeap} {lo hi q r : Nat} {bs : List Block}
    (h : PartRep m heap.freeList lo hi bs r) (hq : q < 2 ^ 32) :
    PartRep (linkPred m heap (lastAddr (freeBlocks bs)) q).1
        (linkPred m heap (lastAddr (freeBlocks bs)) q).2.freeList lo hi bs q ∧
      ChangedInFree m (linkPred m heap (lastAddr (freeBlocks bs)) q).1 bs := by
  rcases List.eq_nil_or_concat (freeBlocks bs) with hnone | ⟨xs, c, hlast⟩
  · rw [hnone]
    exact ⟨(h.pass hnone).2 q, fun x _ => rfl⟩
  · rw [List.concat_eq_append] at hlast
    obtain ⟨pre, post, rfl, hpre, hpost, hcfree⟩ := freeBlocks_split hlast
    rw [hlast, lastAddr_concat]
    obtain ⟨r₁, r₂, h₁, h₂, h₃⟩ := partRep_middle.mp h
    obtain ⟨-, -, hcs, hcok, rfl, hc0, -⟩ := (partRep_free hcfree).mp h₂
    have h12 := hcs.2
    have hlink : linkPred m heap c.addr q = (setBlockNext m c.addr q, heap) := if_pos hc0
    rw [hlink]
    have hout : ∀ x, x < c.addr ∨ c.addr + c.size ≤ x → setBlockNext m c.addr q x = m x :=
      fun x hx => setBlockNext_apply (by omega)
    have h₂' : PartRep (setBlockNext m c.addr q) c.addr c.addr (c.addr + c.size) [c] q := by
      refine (partRep_free hcfree).mpr ⟨rfl, rfl, hcs, hcok.setNext hcs, rfl, hc0, ?_⟩
      rw [blockNext_setBlockNext, u32_of_lt hq]
    have h₃' := (h₃.congr fun x hx₁ _ => hout x (Or.inr hx₁)).pass hpost
    refine ⟨partRep_middle.mpr
      ⟨c.addr, q, h₁.congr fun x _ hx₂ => hout x (Or.inl hx₂), h₂', h₃'.2 q⟩, ?_⟩
    intro x hx
    exact hout x (hx c (by simp) hcfree)

/-! ## Taking a block -/

section Split

variable {m : Mem} {freeList lo hi n : Nat} {pre post : List Block} {b : Block}

/-- What `chunkSplit` leaves in memory. -/
theorem chunkSplit_effect (hsize : blockSize m b.addr = b.size) (hn : 12 ≤ n)
    (hfit : n + memHeapMinSize ≤ b.size) (htop : b.addr + b.size ≤ 2 ^ 32) (h0 : b.addr ≠ 0) :
    (chunkSplit m b.addr n).2 = b.addr + (b.size - n) ∧
      BlockOk (chunkSplit m b.addr n).1 ⟨b.addr, b.size - n, false⟩ ∧
      BlockOk (chunkSplit m b.addr n).1 ⟨b.addr + (b.size - n), n, true⟩ ∧
      blockNext (chunkSplit m b.addr n).1 b.addr = blockNext m b.addr ∧
      ∀ x, x < b.addr ∨ b.addr + b.size ≤ x → (chunkSplit m b.addr n).1 x = m x := by
  unfold memHeapMinSize memBlockMinSize memBlockHeadSize at hfit
  have hsub : sub32 (blockSize m b.addr) n = b.size - n := by
    rw [hsize, sub32_of_le (by omega) (by omega)]
  -- the four writes in order, each with the address it goes to
  obtain ⟨m₁, hm₁⟩ : ∃ m₁, m₁ = setBlockSize m b.addr (b.size - n) := ⟨_, rfl⟩
  have hs₁ : blockSize m₁ b.addr = b.size - n := by
    rw [hm₁, blockSize_setBlockSize, u32_of_lt (by omega)]
  have hd₁ : memDogAddr m₁ b.addr = b.addr + (b.size - n) - 1 :=
    memDogAddr_eq hs₁ (by omega) (by omega)
  obtain ⟨m₂, hm₂⟩ : ∃ m₂, m₂ = write8 m₁ (b.addr + (b.size - n) - 1) memBlockStatFree :=
    ⟨_, rfl⟩
  have hout₂ : ∀ x, x ≠ b.addr + (b.size - n) - 1 → m₂ x = m₁ x := fun x hx => by
    rw [hm₂, write8_apply hx]
  have hs₂ : blockSize m₂ b.addr = b.size - n := by
    rw [← hs₁]
    exact blockSize_eq fun x hx1 hx2 => hout₂ x (by omega)
  have hnew : u32 (b.addr + (b.size - n)) = b.addr + (b.size - n) := u32_of_lt (by omega)
  obtain ⟨m₃, hm₃⟩ : ∃ m₃, m₃ = setBlockSize m₂ (b.addr + (b.size - n)) n := ⟨_, rfl⟩
  have hs₃ : blockSize m₃ (b.addr + (b.size - n)) = n := by
    rw [hm₃, blockSize_setBlockSize, u32_of_lt (by omega)]
  have hout₃ : ∀ x, x < b.addr + (b.size - n) ∨ b.addr + (b.size - n) + 4 ≤ x → m₃ x = m₂ x :=
    fun x hx => by rw [hm₃, setBlockSize_apply hx]
  have hd₃ : memDogAddr m₃ (b.addr + (b.size - n)) = b.addr + (b.size - n) + n - 1 :=
    memDogAddr_eq hs₃ (by omega) (by omega)
  obtain ⟨m₄, hm₄⟩ : ∃ m₄, m₄ = write8 m₃ (b.addr + (b.size - n) + n - 1) memBlockStatUse :=
    ⟨_, rfl⟩
  have hout₄ : ∀ x, x ≠ b.addr + (b.size - n) + n - 1 → m₄ x = m₃ x := fun x hx => by
    rw [hm₄, write8_apply hx]
  have heq : chunkSplit m b.addr n = (m₄, b.addr + (b.size - n)) := by
    simp only [chunkSplit, hsub, ← hm₁, hd₁, ← hm₂, hs₂, hnew, ← hm₃, hd₃, ← hm₄]
  have hlow : ∀ x, x < b.addr + (b.size - n) - 1 → m₄ x = m₁ x := fun x hx => by
    rw [hout₄ x (by omega), hout₃ x (by omega), hout₂ x (by omega)]
  rw [heq]
  refine ⟨rfl, ⟨?_, ?_⟩, ⟨?_, ?_⟩, ?_, ?_⟩
  · show blockSize m₄ b.addr = b.size - n
    rw [← hs₁]
    exact blockSize_eq fun x hx1 hx2 => hlow x (by omega)
  · have h1 := hout₄ (b.addr + (b.size - n) - 1) (by omega)
    have h2 := hout₃ (b.addr + (b.size - n) - 1) (by omega)
    simp only [h1, h2, hm₂, write8_same, statByte, Bool.false_eq_true, if_false]
  · show blockSize m₄ (b.addr + (b.size - n)) = n
    have hkeep : blockSize m₄ (b.addr + (b.size - n)) = blockSize m₃ (b.addr + (b.size - n)) :=
      blockSize_eq fun x hx1 hx2 => hout₄ x (by omega)
    exact hkeep.trans hs₃
  · simp only [hm₄, write8_same, statByte, if_true]
  · have hnext : blockNext m₄ b.addr = blockNext m₁ b.addr :=
      blockNext_eq fun x hx1 hx2 => hlow x (by omega)
    rw [hnext, hm₁]
    exact blockNext_eq fun x hx1 hx2 => setBlockSize_apply (by omega)
  · intro x hx
    show m₄ x = m x
    rw [hout₄ x (by omega), hout₃ x (by omega), hout₂ x (by omega), hm₁,
      setBlockSize_apply (by omega)]

/-- Splitting a free block of a represented layout. -/
theorem PartRep.split (h : HeapRep m freeList lo hi (pre ++ b :: post)) (hfree : b.used = false)
    (hn : 12 ≤ n) (h4 : 4 ∣ n) (hfit : n + memHeapMinSize ≤ b.size) (hhi : hi ≤ 2 ^ 32) :
    (chunkSplit m b.addr n).2 = b.addr + (b.size - n) ∧
      HeapRep (chunkSplit m b.addr n).1 freeList lo hi
        (pre ++ ⟨b.addr, b.size - n, false⟩ :: ⟨b.addr + (b.size - n), n, true⟩ :: post) ∧
      ChangedInFree m (chunkSplit m b.addr n).1 (pre ++ b :: post) := by
  obtain ⟨r, q, h₁, h₂, h₃⟩ := partRep_middle.mp h
  obtain ⟨-, -, hs, hok, rfl, h0, hnext⟩ := (partRep_free hfree).mp h₂
  have htop := h₃.tiles.le
  obtain ⟨hnew, hok₁, hok₂, hlink, hout⟩ := chunkSplit_effect hok.size hn hfit (by omega) h0
  have hrest : n ≤ b.size ∧ 12 ≤ b.size - n := by
    unfold memHeapMinSize memBlockMinSize memBlockHeadSize at hfit
    omega
  have hend : b.addr + (b.size - n) + n = b.addr + b.size := by omega
  refine ⟨hnew, partRep_middle.mpr ⟨b.addr, q, ?_, ?_, ?_⟩, ?_⟩
  · exact h₁.congr fun x _ hx => hout x (Or.inl hx)
  · exact (partRep_free rfl).mpr
      ⟨rfl, rfl, ⟨Nat.dvd_sub hs.1 h4, hrest.2⟩, hok₁, rfl, h0, hlink.trans hnext⟩
  · refine partRep_cons.mpr ⟨q, ?_, ?_⟩
    · exact (partRep_used rfl).mpr ⟨rfl, rfl, ⟨h4, hn⟩, hok₂, rfl⟩
    · show PartRep _ q (b.addr + (b.size - n) + n) hi post 0
      rw [hend]
      exact h₃.congr fun x hx _ => hout x (Or.inr hx)
  · intro x hx
    exact hout x (hx b (by simp) hfree)

end Split

/-- Taking the whole of a free block out of a represented layout. -/
theorem PartRep.takeOver {m : Mem} {heap : MemHeap} {lo hi : Nat} {pre post : List Block}
    {b : Block} (h : HeapRep m heap.freeList lo hi (pre ++ b :: post)) (hfree : b.used = false)
    (hhi : hi ≤ 2 ^ 32) :
    HeapRep (chunkTakeOver m heap (lastAddr (freeBlocks pre)) b.addr).1
        (chunkTakeOver m heap (lastAddr (freeBlocks pre)) b.addr).2.freeList lo hi
        (pre ++ ⟨b.addr, b.size, true⟩ :: post) ∧
      ChangedInFree m (chunkTakeOver m heap (lastAddr (freeBlocks pre)) b.addr).1
        (pre ++ b :: post) := by
  obtain ⟨r, q, h₁, h₂, h₃⟩ := partRep_middle.mp h
  obtain ⟨-, -, hs, hok, rfl, h0, rfl⟩ := (partRep_free hfree).mp h₂
  have h12 := hs.2
  have htop := h₃.tiles.le
  obtain ⟨hl₁, hlout⟩ := linkPred_spec (q := blockNext m b.addr) h₁ (read32_lt m _)
  rw [chunkTakeOver_eq]
  obtain ⟨⟨m₁, heap₁⟩, hm₁⟩ : ∃ r, r = linkPred m heap (lastAddr (freeBlocks pre))
    (blockNext m b.addr) := ⟨_, rfl⟩
  rw [← hm₁] at hl₁ hlout
  rw [← hm₁]
  -- the link is stored below `b`, so `b` and what follows are as before
  have hkeep : ∀ x, b.addr ≤ x → m₁ x = m x := fun x hx => hlout.outside h₁.tiles (Or.inr hx)
  have hsize₁ : blockSize m₁ b.addr = b.size :=
    (blockSize_eq fun x hx _ => hkeep x hx).trans hok.size
  have hdog : memDogAddr m₁ b.addr = b.addr + b.size - 1 :=
    memDogAddr_eq hsize₁ (by omega) (by omega)
  simp only [hdog]
  have hout : ∀ x, x < b.addr ∨ b.addr + b.size ≤ x →
      write8 m₁ (b.addr + b.size - 1) memBlockStatUse x = m₁ x := fun x hx =>
    write8_apply (by omega)
  refine ⟨partRep_middle.mpr ⟨blockNext m b.addr, blockNext m b.addr, ?_, ?_, ?_⟩, ?_⟩
  · exact hl₁.congr fun x _ hx => hout x (Or.inl hx)
  · refine (partRep_used rfl).mpr ⟨rfl, rfl, hs, ⟨?_, ?_⟩, rfl⟩
    · have hkeep₂ : blockSize (write8 m₁ (b.addr + b.size - 1) memBlockStatUse) b.addr =
          blockSize m₁ b.addr := blockSize_eq fun x hx₁ hx₂ => write8_apply (by omega)
      exact hkeep₂.trans hsize₁
    · exact write8_same ..
  · refine h₃.congr fun x hx _ => ?_
    rw [hout x (Or.inr hx), hkeep x (by omega)]
  · intro x hx
    have hb := hx b (by simp) hfree
    show write8 m₁ (b.addr + b.size - 1) memBlockStatUse x = m x
    rw [hout x hb]
    exact hlout x fun c hc hcf => hx c (by simp [hc]) hcf

/-- The free block `c` fits a request of `n` and is no larger than the first one that does. -/
structure SnugFit (n : Nat) (bs : List Block) (c : Block) : Prop where
  free : c ∈ freeBlocks bs
  fits : n ≤ c.size
  le_first : ∀ d, (freeBlocks bs).find? (fun d => n ≤ d.size) = some d → c.size ≤ d.size

/-- The block `b` is the end of the block `c`, or all of it. -/
def CutFrom (c b : Block) : Prop := c.addr ≤ b.addr ∧ b.addr + b.size = c.addr + c.size

/-- `mem_chunk_get` takes a block of the layout, cut from a free block that fits snugly, or
leaves everything as it is when no free block is large enough. -/
theorem memChunkGet_spec {m : Mem} {heap : MemHeap} {lo hi n : Nat} {bs : List Block}
    (h : HeapRep m heap.freeList lo hi bs) (hlen : bs.length < heap.size) (hn : 12 ≤ n)
    (h4 : 4 ∣ n) (hhi : hi ≤ 2 ^ 32) :
    ∃ m' freeList' block,
      memChunkGet m heap n = some (m', { heap with freeList := freeList' }, block) ∧
      (block = 0 ∧ m' = m ∧ freeList' = heap.freeList ∧ (∀ b ∈ freeBlocks bs, b.size < n) ∨
        ∃ b bs', Takes n bs b bs' ∧ block = b.addr ∧ b.addr ≠ 0 ∧
          HeapRep m' freeList' lo hi bs' ∧ ChangedInFree m m' bs ∧
          ∃ c, SnugFit n bs c ∧ CutFrom c b) := by
  have hfl := (length_freeBlocks_le bs).trans_lt hlen
  obtain ⟨r, hr, hspec⟩ := chunkSelect_spec n h.freeList hfl
  unfold memChunkGet
  rw [hr]
  cases r with
  | none => exact ⟨m, heap.freeList, 0, rfl, Or.inl ⟨rfl, rfl, rfl, hspec⟩⟩
  | some r =>
    obtain ⟨preAddr, this⟩ := r
    obtain ⟨xs, b, ys, hfs, rfl, rfl, hfit, hfirst⟩ := hspec
    have hsnug : SnugFit n bs b := ⟨by rw [hfs]; simp, hfit, hfirst⟩
    obtain ⟨pre, post, rfl, rfl, -, hfree⟩ := freeBlocks_split hfs
    have hbm : b ∈ pre ++ b :: post := by simp
    have hbound := h.tiles.bounds hbm
    have hb0 : b.addr ≠ 0 := h.chain.ne_zero (mem_freeAddrs.mpr ⟨b, hbm, hfree, rfl⟩)
    have hsub : sub32 (blockSize m b.addr) n = b.size - n := by
      rw [(h.blocks b hbm).size, sub32_of_le hfit (by omega)]
    by_cases hmin : memHeapMinSize ≤ b.size - n
    · have hfit' : n + memHeapMinSize ≤ b.size := by omega
      obtain ⟨hnew, hrep, hch⟩ := h.split hfree hn h4 hfit' hhi
      refine ⟨_, heap.freeList, b.addr + (b.size - n), ?_,
        Or.inr ⟨_, _, Takes.split pre post b hfree hfit', rfl, by simp only; omega, hrep, hch, b,
          hsnug, Nat.le_add_right _ _, by simp only; omega⟩⟩
      simp only [hsub, if_pos hmin, ← hnew]
    · obtain ⟨hrep, hch⟩ := h.takeOver hfree hhi
      obtain ⟨m₁, freeList₁, hl⟩ :=
        linkPred_heap m heap (lastAddr (freeBlocks pre)) (blockNext m b.addr)
      rw [chunkTakeOver_eq, hl] at hrep hch
      refine ⟨_, freeList₁, b.addr, ?_,
        Or.inr ⟨_, _, Takes.whole pre post b hfree hfit, rfl, hb0, hrep, hch, b, hsnug,
          Nat.le_refl _, rfl⟩⟩
      simp only [hsub, if_neg hmin, chunkTakeOver_eq, hl]

end TuyaSdk.TuyaMemHeap
