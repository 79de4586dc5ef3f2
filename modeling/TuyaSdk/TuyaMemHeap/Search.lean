import TuyaSdk.TuyaMemHeap.Layout

/-!
# Walks of the free list

`mem_chunk_get` walks the free list twice, with a trailing pointer each time: once for the
first block that fits and then ahead from it for a tighter one. `MEM_Deallocate` walks it
once for the two free blocks around the one released. Each walk ends, and what it found is
stated on the list of free blocks.
-/

namespace TuyaSdk.TuyaMemHeap
open TuyaSdk.Lib

/-- The trailing pointer after the blocks `xs`: the last of them, or `NULL`. -/
def lastAddr (xs : List Block) : Nat := (xs.getLast?.map Block.addr).getD 0

@[simp] theorem lastAddr_nil : lastAddr [] = 0 := rfl

@[simp] theorem lastAddr_concat (xs : List Block) (b : Block) : lastAddr (xs ++ [b]) = b.addr := by
  simp [lastAddr]

/-- The free list of a layout, with the sizes that the memory gives its blocks. -/
structure FreeListRep (m : Mem) (freeList : Nat) (fs : List Block) : Prop where
  chain : Chain (blockNext m) freeList (fs.map Block.addr)
  sizes : ∀ b ∈ fs, blockSize m b.addr = b.size

theorem HeapRep.freeList {m : Mem} {freeList lo hi : Nat} {bs : List Block}
    (h : HeapRep m freeList lo hi bs) : FreeListRep m freeList (freeBlocks bs) :=
  ⟨h.chain, fun b hb => (h.blocks b (mem_freeBlocks.mp hb).1).size⟩

/-- A walk that has passed `xs` and has `ys` still ahead. -/
structure Cursor (m : Mem) (fs xs ys : List Block) (pre cur : Nat) : Prop where
  split : fs = xs ++ ys
  pre : pre = lastAddr xs
  ahead : Chain (blockNext m) cur (ys.map Block.addr)

theorem FreeListRep.cursor {m : Mem} {freeList : Nat} {fs : List Block}
    (h : FreeListRep m freeList fs) : Cursor m fs [] fs 0 freeList :=
  ⟨rfl, rfl, h.chain⟩

/-- A cursor that is not at NULL is at the first block ahead. -/
theorem Cursor.block {m : Mem} {fs xs ys : List Block} {pre cur : Nat}
    (h : Cursor m fs xs ys pre cur) (h0 : cur ≠ 0) : ∃ b zs, ys = b :: zs ∧ cur = b.addr := by
  cases ys with
  | nil => exact absurd h.ahead h0
  | cons b zs => exact ⟨b, zs, rfl, h.ahead.1⟩

/-- A cursor at NULL has passed the whole list. -/
theorem Cursor.end {m : Mem} {fs xs ys : List Block} {pre : Nat}
    (h : Cursor m fs xs ys pre 0) : ys = [] := by
  cases ys with
  | nil => rfl
  | cons b zs => exact absurd h.ahead.1.symm h.ahead.2.1

theorem Cursor.advance {m : Mem} {fs xs zs : List Block} {b : Block} {pre : Nat}
    (h : Cursor m fs xs (b :: zs) pre b.addr) :
    Cursor m fs (xs ++ [b]) zs b.addr (blockNext m b.addr) :=
  ⟨by simp [h.split], by simp, h.ahead.2.2⟩

/-! ## The block that `mem_chunk_get` selects -/

/-- The block at `this` is free, fits, follows `pre` in the free list, and is not larger
than the first block that fits. -/
def Chosen (fs : List Block) (size pre this : Nat) : Prop :=
  ∃ xs b ys, fs = xs ++ b :: ys ∧ pre = lastAddr xs ∧ this = b.addr ∧ size ≤ b.size ∧
    ∀ c, fs.find? (fun c => size ≤ c.size) = some c → b.size ≤ c.size

theorem run_chunkFirstPass (size : Nat) {m : Mem} {freeList n : Nat} {fs : List Block}
    (h : FreeListRep m freeList fs) (hn : fs.length < n) :
    ∃ r, Loop.run (chunkFirstPass m size) n (0, freeList) = some r ∧
      match r with
      | none => ∀ b ∈ fs, b.size < size
      | some (pre, this) => ∃ xs b ys, Cursor m fs xs (b :: ys) pre this ∧ this = b.addr ∧
          size ≤ b.size ∧ ∀ c ∈ xs, c.size < size := by
  refine Loop.run_bounded
    (I := fun k v => ∃ xs ys, Cursor m fs xs ys v.1 v.2 ∧ (∀ c ∈ xs, c.size < size) ∧
      k = ys.length) ?_ ?_ ⟨[], fs, h.cursor, by simp, rfl⟩ hn
  · rintro k ⟨pre, this⟩ r ⟨xs, ys, hc, hxs, -⟩ hb
    simp only [chunkFirstPass] at hb
    by_cases h0 : this = 0
    · subst h0
      simp only [if_true, Pass.exit.injEq] at hb
      subst hb
      obtain rfl := hc.end
      intro b hb
      rw [hc.split, List.append_nil] at hb
      exact hxs b hb
    · rw [if_neg h0] at hb
      split at hb
      · rename_i hfit
        simp only [Pass.exit.injEq] at hb
        subst hb
        obtain ⟨b, zs, rfl, rfl⟩ := hc.block h0
        have hsize := h.sizes b (by rw [hc.split]; simp)
        exact ⟨xs, b, zs, hc, rfl, by omega, hxs⟩
      · simp at hb
  · rintro k ⟨pre, this⟩ s' ⟨xs, ys, hc, hxs, rfl⟩ hb
    simp only [chunkFirstPass] at hb
    split at hb
    · simp at hb
    · rename_i h0
      split at hb
      · simp at hb
      · rename_i hfit
        simp only [Pass.again.injEq] at hb
        subst hb
        obtain ⟨b, zs, rfl, rfl⟩ := hc.block h0
        have hsize := h.sizes b (by rw [hc.split]; simp)
        refine ⟨zs.length, by simp, xs ++ [b], zs, hc.advance, ?_, rfl⟩
        intro c hcm
        rcases List.mem_append.mp hcm with hcm | hcm
        · exact hxs c hcm
        · rw [List.mem_singleton.mp hcm]
          omega

/-- The look-ahead keeps a block that fits, with its predecessor. -/
theorem run_lookAheadPass {m : Mem} {freeList size n cap pre this : Nat}
    {fs xs ys : List Block} {b : Block} (h : FreeListRep m freeList fs)
    (hc : Cursor m fs xs (b :: ys) pre this) (hthis : this = b.addr) (hfit : size ≤ b.size)
    (hcap : b.size ≤ cap) (hn : fs.length < n) :
    ∃ r, Loop.run (lookAheadPass m size) n ⟨pre, this, this, blockNext m this, 0⟩ = some r ∧
      ∃ xs b ys, fs = xs ++ b :: ys ∧ r.1 = lastAddr xs ∧ r.2 = b.addr ∧ size ≤ b.size ∧
        b.size ≤ cap := by
  subst hthis
  have hlen : ys.length < n := by
    have : fs.length = xs.length + (ys.length + 1) := by rw [hc.split]; simp
    omega
  refine Loop.run_bounded
    (I := fun k v => (∃ xs b ys, fs = xs ++ b :: ys ∧ v.pre = lastAddr xs ∧ v.this = b.addr ∧
        size ≤ b.size ∧ b.size ≤ cap) ∧
      ∃ xs ys, Cursor m fs xs ys v.preBak v.thisBak ∧ k = ys.length) ?_ ?_
    ⟨⟨xs, b, ys, hc.split, hc.pre, rfl, hfit, hcap⟩, xs ++ [b], ys, hc.advance, rfl⟩ hlen
  · rintro k v r ⟨hfound, xs', ys', hcur, -⟩ hb
    unfold lookAheadPass at hb
    by_cases h0 : v.thisBak = 0
    · rw [if_pos h0] at hb
      cases hb
      exact hfound
    · rw [if_neg h0] at hb
      obtain ⟨c, zs, rfl, hcaddr⟩ := hcur.block h0
      obtain ⟨xs, b, ys, hfs, hpre, hthis, hfit, hcap⟩ := hfound
      have hcsize := h.sizes c (by rw [hcur.split]; simp)
      have hbsize := h.sizes b (by rw [hfs]; simp)
      rw [hcaddr, hthis, hcsize, hbsize] at hb
      by_cases hit : size ≤ c.size ∧ c.size ≤ b.size
      · simp only [if_pos hit] at hb
        split at hb
        · cases hb
          exact ⟨xs', c, zs, hcur.split, hcur.pre, rfl, hit.1, hit.2.trans hcap⟩
        · simp at hb
      · simp only [if_neg hit] at hb
        split at hb
        · cases hb
          exact ⟨xs, b, ys, hfs, hpre, hthis, hfit, hcap⟩
        · simp at hb
  · rintro k v v' ⟨hfound, xs', ys', hcur, rfl⟩ hb
    unfold lookAheadPass at hb
    by_cases h0 : v.thisBak = 0
    · rw [if_pos h0] at hb
      simp at hb
    · rw [if_neg h0] at hb
      obtain ⟨c, zs, rfl, hcaddr⟩ := hcur.block h0
      obtain ⟨xs, b, ys, hfs, hpre, hthis, hfit, hcap⟩ := hfound
      have hcsize := h.sizes c (by rw [hcur.split]; simp)
      have hbsize := h.sizes b (by rw [hfs]; simp)
      rw [hcaddr, hthis, hcsize, hbsize] at hb
      rw [hcaddr] at hcur
      by_cases hit : size ≤ c.size ∧ c.size ≤ b.size
      · simp only [if_pos hit] at hb
        split at hb
        · simp at hb
        · cases hb
          exact ⟨zs.length, by simp,
            ⟨xs', c, zs, hcur.split, hcur.pre, rfl, hit.1, hit.2.trans hcap⟩,
            xs' ++ [c], zs, hcur.advance, rfl⟩
      · simp only [if_neg hit] at hb
        split at hb
        · simp at hb
        · cases hb
          exact ⟨zs.length, by simp, ⟨xs, b, ys, hfs, hpre, hthis, hfit, hcap⟩,
            xs' ++ [c], zs, hcur.advance, rfl⟩

/-- `mem_chunk_get` finds a block whenever a free block is large enough. -/
theorem chunkSelect_spec (size : Nat) {m : Mem} {heap : MemHeap} {fs : List Block}
    (h : FreeListRep m heap.freeList fs) (hn : fs.length < heap.size) :
    ∃ r, chunkSelect m heap size = some r ∧
      match r with
      | none => ∀ b ∈ fs, b.size < size
      | some (pre, this) => Chosen fs size pre this := by
  obtain ⟨r, hr, hspec⟩ := run_chunkFirstPass size h hn
  unfold chunkSelect
  rw [hr]
  cases r with
  | none => exact ⟨none, rfl, hspec⟩
  | some r =>
    obtain ⟨pre, this⟩ := r
    obtain ⟨xs, b, ys, hc, hthis, hfit, hxs⟩ := hspec
    have hfirst : fs.find? (fun c => size ≤ c.size) = some b := by
      have hnone : xs.find? (fun c => size ≤ c.size) = none := by
        rw [List.find?_eq_none]
        intro c hcm
        have := hxs c hcm
        simpa using this
      rw [hc.split, List.find?_append, hnone]
      simp [hfit]
    obtain ⟨⟨pre', this'⟩, hrun, xs', b', ys', hfs, hpre, hthis', hfit', hle⟩ :=
      run_lookAheadPass h hc hthis hfit (Nat.le_refl b.size) hn
    refine ⟨some (pre', this'), by simp only [hrun, Option.map_some], ?_⟩
    refine ⟨xs', b', ys', hfs, hpre, hthis', hfit', ?_⟩
    intro c hcf
    rw [hfirst] at hcf
    cases hcf
    exact hle

/-! ## The free blocks around a block -/

/-- The walk of `MEM_Deallocate` stops between the free blocks below and above `block`. -/
theorem run_neighboursPass (block : Nat) {m : Mem} {freeList n : Nat} {fs : List Block}
    (h : FreeListRep m freeList fs) (hn : fs.length < n) :
    ∃ r, Loop.run (neighboursPass m block) n (0, freeList) = some r ∧
      ∃ xs ys, Cursor m fs xs ys r.1 r.2 ∧ (∀ b ∈ xs, b.addr < block) ∧
        ∀ b, ys.head? = some b → block ≤ b.addr := by
  refine Loop.run_bounded
    (I := fun k v => ∃ xs ys, Cursor m fs xs ys v.1 v.2 ∧ (∀ b ∈ xs, b.addr < block) ∧
      k = ys.length) ?_ ?_ ⟨[], fs, h.cursor, by simp, rfl⟩ hn
  · rintro k ⟨pre, next⟩ r ⟨xs, ys, hc, hxs, -⟩ hb
    simp only [neighboursPass] at hb
    split at hb
    · simp at hb
    · rename_i hstop
      cases hb
      refine ⟨xs, ys, hc, hxs, ?_⟩
      intro b hb
      cases ys with
      | nil => simp at hb
      | cons c zs =>
        simp only [List.head?_cons, Option.some.injEq] at hb
        subst hb
        have hnext : next = c.addr := hc.ahead.1
        have hne : c.addr ≠ 0 := hc.ahead.2.1
        omega
  · rintro k ⟨pre, next⟩ s' ⟨xs, ys, hc, hxs, rfl⟩ hb
    simp only [neighboursPass] at hb
    split at hb
    · rename_i hgo
      cases hb
      obtain ⟨b, zs, rfl, rfl⟩ := hc.block hgo.1
      refine ⟨zs.length, by simp, xs ++ [b], zs, hc.advance, ?_, rfl⟩
      intro c hcm
      rcases List.mem_append.mp hcm with hcm | hcm
      · exact hxs c hcm
      · rw [List.mem_singleton.mp hcm]
        exact hgo.2
    · simp at hb

end TuyaSdk.TuyaMemHeap
