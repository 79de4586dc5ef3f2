import TuyaSdk.TuyaMemHeap.Runs

/-!
# Completeness of allocation

With a heap's handle `tuya_mem_heap_malloc` returns NULL only when nothing could be
returned, and takes a block that is no larger than the first one that fits. With handle 0
the heaps in front of the first empty slot are asked in turn, each only when its `free`
exceeds the request by more than 24 bytes (`mallocAny_spec`).
-/

namespace TuyaSdk.TuyaMemHeap
open TuyaSdk.Lib

/-- Every slot in use holds a well-formed heap. -/
def HeapsOk (s : HeapState) : Prop := ∀ i, 0 < (s.memHeapList i).size → ∃ bs, HeapInv s i bs

/-- The call returns a pointer. -/
def Serves (s : HeapState) (handle : HeapHandle) (size : Nat) : Prop :=
  ∃ s' ptr, tuyaMemHeapMalloc s handle size = some (s', ptr) ∧ ptr ≠ 0

/-- Slot `i` has no empty slot before it and more than `size + 24` bytes free. -/
def Offered (s : HeapState) (i : Fin memHeapListNum) (size : Nat) : Prop :=
  (∀ j ≤ i, 0 < (s.memHeapList j).size) ∧ (s.memHeapList i).free > u32 (size + memBlockMinSize)

/-- A request to the heap in slot `i` with the layout `bs`: NULL is for a request that the
heap cannot serve, and a pointer is to a block that fits and is cut from a free block no
larger than the first that fits. -/
def MallocFits (s : HeapState) (i : Fin memHeapListNum) (bs : List Block) (size : Nat) : Prop :=
  ∃ s' ptr, tuyaMemHeapMalloc s (some i) size = some (s', ptr) ∧ (ptr = 0 → Unserved bs size) ∧
    (ptr ≠ 0 → ∃ b c, ptr = b.addr + 4 ∧ blockSize s'.mem b.addr = b.size ∧
      requestSize size ≤ b.size ∧ SnugFit (requestSize size) bs c ∧ CutFrom c b)

section

variable {s : HeapState} {size : Nat}

/-- A slot with none but slots in use up to it is among the leading slots in use. -/
theorem mem_takeWhile_of_sorted {n : Nat} {p : Fin n → Bool} {i : Fin n} {l : List (Fin n)}
    (hl : l.Pairwise (· < ·)) (hi : i ∈ l) (hp : ∀ j ≤ i, p j = true) : i ∈ l.takeWhile p := by
  induction l with
  | nil => simp at hi
  | cons a l ih =>
    obtain ⟨hlt, hl⟩ := List.pairwise_cons.mp hl
    rcases List.mem_cons.mp hi with rfl | hi
    · rw [List.takeWhile_cons, if_pos (hp i le_rfl)]
      exact List.mem_cons_self
    · rw [List.takeWhile_cons, if_pos (hp a (hlt i hi).le)]
      exact List.mem_cons_of_mem _ (ih hl hi)

theorem mallocFits (size : BitVec 32) {i : Fin memHeapListNum} {bs : List Block}
    (h : HeapInv s i bs) : MallocFits s i bs size.toNat := by
  obtain ⟨s', ptr, hrun, hcase⟩ := memAllocate_outcome h size.isLt
  refine ⟨s', ptr, hrun, ?_, ?_⟩
  · intro hp
    rcases hcase with ⟨-, -, hnone⟩ | ⟨b, bs', -, hpb, -⟩
    · exact hnone
    · omega
  · intro hp
    rcases hcase with ⟨h0, -⟩ | ⟨b, bs', ha, hpb, hroom, -, -, hover, c, hsnug, hcut⟩
    · exact absurd h0 hp
    · have hbm := ((ha.takes.mem_used b).mpr (Or.inl rfl)).1
      have hlt : clamp4 size.toNat < 2 ^ 32 - 8 := by
        have := requestSize_overflow size.toNat
        omega
      have hfits := ha.takes.fits
      rw [roundedSize_eq hlt] at hfits
      exact ⟨b, c, hpb, (ha.inv.rep.blocks b hbm).size, hfits, hsnug, hcut⟩

/-- The slots that the handle-0 loop gets to. -/
def leading (s : HeapState) (slots : List (Fin memHeapListNum)) : List (Fin memHeapListNum) :=
  slots.takeWhile fun i => decide (0 < (s.memHeapList i).size)

theorem leading_cons {i : Fin memHeapListNum} (h : 0 < (s.memHeapList i).size)
    (slots : List (Fin memHeapListNum)) : leading s (i :: slots) = i :: leading s slots := by
  simp [leading, h]

/-- The loop stops at the first empty slot. -/
theorem leading_hole {i : Fin memHeapListNum} (h : ¬0 < (s.memHeapList i).size)
    (slots : List (Fin memHeapListNum)) : leading s (i :: slots) = [] := by
  simp [leading, h]

/-- The handle-0 loop returns what one of the leading slots returns, or NULL after all of
them that have enough bytes free have returned NULL. -/
theorem mallocAny_spec (hs : HeapsOk s) (hsize : size < 2 ^ 32) (slots : List (Fin memHeapListNum)) :
    ∃ s' ptr, mallocAny s size slots = some (s', ptr) ∧
      (ptr = 0 ∧ s' = s ∧
          (∀ i ∈ leading s slots, (s.memHeapList i).free > u32 (size + memBlockMinSize) →
            memAllocate s i size = some (s, 0)) ∨
        ptr ≠ 0 ∧ ∃ i, 0 < (s.memHeapList i).size ∧ memAllocate s i size = some (s', ptr)) := by
  induction slots with
  | nil => exact ⟨s, 0, rfl, Or.inl ⟨rfl, rfl, by simp [leading]⟩⟩
  | cons i slots ih =>
    by_cases hlive : (s.memHeapList i).size > 0
    · rw [mallocAny, if_pos hlive, leading_cons hlive]
      by_cases hfree : (s.memHeapList i).free > u32 (size + memBlockMinSize)
      · rw [if_pos hfree]
        obtain ⟨bs, hinv⟩ := hs i hlive
        obtain ⟨s', ptr, hrun, hcase⟩ := memAllocate_spec hinv hsize
        rw [hrun]
        by_cases hp : ptr = 0
        · subst hp
          -- the heap has refused, so the state is as before
          have hsame : s' = s := by
            rcases hcase with ⟨-, rfl⟩ | ⟨b, bs', -, hpb, -⟩
            · rfl
            · omega
          subst hsame
          obtain ⟨s'', ptr, hrest, hcase⟩ := ih
          refine ⟨s'', ptr, hrest, hcase.imp_left ?_⟩
          intro ⟨h1, h2, h3⟩
          refine ⟨h1, h2, fun j hj hjf => ?_⟩
          rcases List.mem_cons.mp hj with rfl | hj
          · exact hrun
          · exact h3 j hj hjf
        · exact ⟨s', ptr, if_pos hp, Or.inr ⟨hp, i, hlive, hrun⟩⟩
      · rw [if_neg hfree]
        obtain ⟨s', ptr, hrest, hcase⟩ := ih
        refine ⟨s', ptr, hrest, hcase.imp_left ?_⟩
        intro ⟨h1, h2, h3⟩
        refine ⟨h1, h2, fun j hj hjf => ?_⟩
        rcases List.mem_cons.mp hj with rfl | hj
        · exact absurd hjf hfree
        · exact h3 j hj hjf
    · exact ⟨s, 0, by rw [mallocAny, if_neg hlive],
        Or.inl ⟨rfl, rfl, by simp [leading_hole hlive]⟩⟩

/-- Allocation is complete and fits: on every well-formed heap a request fails only when it
must, and a request without a handle is served whenever a heap that it is offered to would
serve it. -/
theorem malloc_complete (hs : HeapsOk s) (size : BitVec 32) :
    (∀ i bs, HeapInv s i bs → MallocFits s i bs size.toNat) ∧
      ∀ i, Offered s i size.toNat → Serves s (some i) size.toNat → Serves s none size.toNat := by
  refine ⟨fun i bs h => mallocFits size h, ?_⟩
  intro i ⟨hbefore, hfree⟩ ⟨s₁, p, hrun, hp⟩
  obtain ⟨s', ptr, hany, hcase⟩ := mallocAny_spec hs size.isLt (List.finRange memHeapListNum)
  refine ⟨s', ptr, hany, ?_⟩
  rcases hcase with ⟨-, -, hnone⟩ | ⟨hptr, -⟩
  · have hmem : i ∈ leading s (List.finRange memHeapListNum) := by
      apply mem_takeWhile_of_sorted (List.pairwise_lt_finRange _) (List.mem_finRange i)
      intro j hj
      exact decide_eq_true (hbefore j hj)
    have hrefused := hnone i hmem hfree
    have hsame : memAllocate s i size.toNat = some (s₁, p) := hrun
    rw [hsame] at hrefused
    cases hrefused
    exact absurd rfl hp
  · exact hptr

end

/-! ## A heap of one small block -/

/-- A heap of 28 bytes at `4096`: its only block is free. -/
def tightHeap : HeapState := (tuyaMemHeapCreate bootState 4096 28).1

theorem tightHeap_ok : HeapsOk tightHeap := by
  have hcreate : tuyaMemHeapCreate bootState 4096 28 = (tightHeap, some 0) := by
    have h : (tuyaMemHeapCreate bootState 4096 28).2 = some 0 := by decide
    rw [← h]
    rfl
  intro i hi
  have hslot : ∀ j, 0 < (tightHeap.memHeapList j).size → j = 0 := by decide
  rw [hslot i hi]
  exact ⟨_, (tuyaMemHeapCreate_spec hcreate (by decide) (by decide)).1⟩

/-- Four bytes are refused without a handle and served with the handle of the only heap. -/
theorem full_heap_refuses : HeapsOk tightHeap ∧ 0 < (tightHeap.memHeapList 0).size ∧
    Serves tightHeap (some 0) 4 ∧ ¬Serves tightHeap none 4 := by
  have hserve : ((tuyaMemHeapMalloc tightHeap (some 0) 4).map Prod.snd) = some 4100 := by
    decide +kernel
  have hrefuse : ((tuyaMemHeapMalloc tightHeap none 4).map Prod.snd) = some 0 := by
    decide +kernel
  refine ⟨tightHeap_ok, by decide, ?_, ?_⟩
  · obtain ⟨⟨s', ptr⟩, hrun, hp⟩ := Option.map_eq_some_iff.mp hserve
    simp only at hp
    exact ⟨s', ptr, hrun, by omega⟩
  · intro ⟨s', ptr, hrun, hp⟩
    rw [hrun] at hrefuse
    simp only [Option.map_some, Option.some.injEq] at hrefuse
    exact hp hrefuse

theorem malloc_complete_tight : (∀ i bs, HeapInv tightHeap i bs → MallocFits tightHeap i bs 3) ∧
    ∀ i, Offered tightHeap i 3 → Serves tightHeap (some i) 3 → Serves tightHeap none 3 :=
  malloc_complete tightHeap_ok 3

end TuyaSdk.TuyaMemHeap
