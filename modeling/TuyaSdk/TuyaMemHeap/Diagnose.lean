import TuyaSdk.TuyaMemHeap.Status

/-!
# Diagnosis of an undamaged heap

The walk of `MEM_HeapStatus` stands between two stretches of the layout, with the first
free block of the second at hand (`WalkAt`). A pass takes it over one block; in a window it
stays so when the other tasks leave it resumable. Then the walk ends at the top of the
region with `valid` set, and without other tasks the blocks are counted exactly.
-/

namespace TuyaSdk.TuyaMemHeap
open TuyaSdk.Lib

/-! ## Boundaries and free blocks found by walking -/

section Walks

variable {m : Mem} {lo hi e n p : Nat} {bs : List Block}

/-- Where the size words lead inside the region, a block of the layout starts or the last
one ends. -/
theorem IsBoundary.split (h : IsBoundary m e n lo) (ht : Tiles lo hi bs)
    (hok : ∀ b ∈ bs, BlockOk m b) (he : e ≤ hi) : ∃ pre post, bs = pre ++ post ∧ Tiles lo e pre := by
  induction bs generalizing lo n with
  | nil =>
    cases n with
    | zero => exact absurd h id
    | succ n =>
      rcases h with heq | ⟨hlt, -⟩
      · exact ⟨[], [], rfl, heq⟩
      · have hend : lo = hi := ht
        omega
  | cons b bs ih =>
    cases n with
    | zero => exact absurd h id
    | succ n =>
      rcases h with heq | ⟨-, hrest⟩
      · exact ⟨[], b :: bs, rfl, heq⟩
      · obtain ⟨hb, ht⟩ := ht
        rw [← hb, (hok b List.mem_cons_self).size, hb] at hrest
        obtain ⟨pre, post, rfl, hpre⟩ :=
          ih hrest ht fun c hc => hok c (List.mem_cons_of_mem _ hc)
        exact ⟨b :: pre, post, rfl, hb, hpre⟩

/-- Along a list of addresses of which those in `xs` are below `e` and those in `ys` not, the
walk stops at the first of `ys`. -/
theorem freeFrom_eq {xs ys : List Nat} (h : Chain (blockNext m) p (xs ++ ys))
    (hxs : ∀ x ∈ xs, x < e) (hys : ∀ y ∈ ys, e ≤ y) (hn : xs.length < n) :
    freeFrom m e n p = ys.headD 0 := by
  induction xs generalizing p n with
  | nil =>
    obtain ⟨n, rfl⟩ : ∃ k, n = k + 1 := ⟨n - 1, by omega⟩
    have hp : p = ys.headD 0 := chain_start h
    rw [freeFrom, if_pos, hp]
    cases ys with
    | nil => exact Or.inl hp
    | cons y ys =>
      rw [hp]
      exact Or.inr (hys y List.mem_cons_self)
  | cons x xs ih =>
    obtain ⟨n, rfl⟩ : ∃ k, n = k + 1 := ⟨n - 1, by omega⟩
    obtain ⟨rfl, h0, h⟩ := h
    have hlt := hxs p List.mem_cons_self
    rw [freeFrom, if_neg (by omega)]
    simp only [List.length_cons] at hn
    exact ih h (fun x hx => hxs x (List.mem_cons_of_mem _ hx)) (by omega)

end Walks

/-- The first free block from a boundary of the layout on. -/
theorem HeapInv.freeFrom_eq {s : HeapState} {i : Fin memHeapListNum} {pre post : List Block} {e : Nat}
    (h : HeapInv s i (pre ++ post)) (ht : Tiles (regionLo (s.memHeapList i)) e pre) :
    freeFrom s.mem e (s.memHeapList i).size (s.memHeapList i).freeList =
      (freeAddrs post).headD 0 := by
  have hchain := h.rep.chain
  rw [freeAddrs_append] at hchain
  obtain ⟨mid, ht', htp⟩ := tiles_append.mp h.rep.tiles
  have hmid : mid = e := ht'.end_unique ht
  subst hmid
  have hlen := h.length_lt
  rw [List.length_append] at hlen
  have hle : (freeAddrs pre).length ≤ pre.length := by
    rw [freeAddrs, List.length_map]
    exact length_freeBlocks_le pre
  apply TuyaMemHeap.freeFrom_eq hchain
  · intro x hx
    obtain ⟨b, hb, -, rfl⟩ := mem_freeAddrs.mp hx
    have h1 := ht.bounds hb
    have h2 := (h.rep.sizes b (List.mem_append_left _ hb)).2
    omega
  · intro y hy
    obtain ⟨b, hb, -, rfl⟩ := mem_freeAddrs.mp hy
    exact (htp.bounds hb).1
  · omega

/-! ## One pass -/

/-- The walk stands between the blocks `pre` and `post` of the layout. -/
structure WalkAt (i : Fin memHeapListNum) (v : HeapWalk) (pre post : List Block) : Prop where
  inv : HeapInv v.client.heap i (pre ++ post)
  tiles : Tiles (regionLo (v.client.heap.memHeapList i)) v.addr pre
  free : v.freeBlockp = (freeAddrs post).headD 0

section Pass

variable {i : Fin memHeapListNum} {others : Nat → List Call} {top : Nat} {v : HeapWalk}
  {pre post : List Block} {b : Block}

theorem WalkAt.rest (h : WalkAt i v pre post) :
    Tiles v.addr (regionHi (v.client.heap.memHeapList i)) post := by
  obtain ⟨mid, ht, htp⟩ := tiles_append.mp h.inv.rep.tiles
  rw [← ht.end_unique h.tiles]
  exact htp

/-- At the end of the layout the walk is at the top, with no free block left. -/
theorem WalkAt.done (h : WalkAt i v pre []) (htop : top = regionHi (v.client.heap.memHeapList i)) :
    statusPass i others top v =
      .exit (some ({ v with status := { v.status with valid := 1 } }, 0)) := by
  have haddr : v.addr = top := htop ▸ h.rest
  have hfree : v.freeBlockp = 0 := h.free
  unfold statusPass
  rw [if_neg (by omega)]
  simp only [haddr, hfree, and_self, if_true]

/-- The block that the walk stands at. -/
theorem WalkAt.block (h : WalkAt i v pre (b :: post))
    (htop : top = regionHi (v.client.heap.memHeapList i)) (hlt : top < 2 ^ 32) :
    v.addr = b.addr ∧ v.addr < top ∧ v.addr + b.size ≤ top ∧
      blockSize v.client.heap.mem v.addr = b.size ∧
      v.client.heap.mem (memDogAddr v.client.heap.mem v.addr) = statByte b.used := by
  obtain ⟨hb, ht⟩ := h.rest
  have hmem : b ∈ pre ++ b :: post := by simp
  have hok := h.inv.rep.blocks b hmem
  have h12 := (h.inv.rep.sizes b hmem).2
  have hle := ht.le
  have hsize : blockSize v.client.heap.mem v.addr = b.size := by
    rw [← hb]
    exact hok.size
  refine ⟨hb.symm, by omega, by omega, hsize, ?_⟩
  rw [memDogAddr_eq hsize (by omega) (by omega), ← hb]
  exact hok.dog

/-- Over a block whose size word and dog byte are as before, with the walk's free block. -/
theorem WalkAt.next (h : WalkAt i v pre (b :: post))
    (htop : top = regionHi (v.client.heap.memHeapList i)) (hlt : top < 2 ^ 32) {v' : HeapWalk}
    (hclient : v'.client = v.client)
    (haddr : v'.addr = u32 (v.addr + blockSize v.client.heap.mem v.addr))
    (hfree : v'.freeBlockp = (freeAddrs post).headD 0) : WalkAt i v' (pre ++ [b]) post := by
  obtain ⟨hb, -, hle, hsize, -⟩ := h.block htop hlt
  refine ⟨?_, ?_, hfree⟩
  · rw [hclient]
    simpa using h.inv
  · rw [hclient, haddr, hsize, u32_of_lt (by omega)]
    exact tiles_append.mpr ⟨v.addr, h.tiles, hb.symm, rfl⟩

/-- The first free block above a block in use is not that block. -/
theorem WalkAt.used_ne (h : WalkAt i v pre (b :: post)) (hu : b.used = true) :
    v.freeBlockp = (freeAddrs post).headD 0 ∧ v.addr ≠ v.freeBlockp := by
  have hfree := h.free
  rw [freeAddrs_cons_used hu] at hfree
  refine ⟨hfree, ?_⟩
  obtain ⟨hb, ht⟩ := h.rest
  have hmem : b ∈ pre ++ b :: post := by simp
  have h12 := (h.inv.rep.sizes b hmem).2
  have hpos := (h.inv.bounds hmem).1
  intro heq
  rw [hfree] at heq
  cases hf : freeAddrs post with
  | nil =>
    rw [hf] at heq
    simp only [List.headD_nil] at heq
    omega
  | cons x xs =>
    rw [hf] at heq
    obtain ⟨d, hd, -, hda⟩ := mem_freeAddrs.mp (show x ∈ freeAddrs post by rw [hf]; simp)
    have := (ht.bounds hd).1
    simp only [List.headD_cons] at heq
    omega

theorem statByte_true : statByte true = memBlockStatUse := rfl

/-- A block in use without a leak record. -/
theorem WalkAt.pass_used (h : WalkAt i v pre (b :: post)) (others : Nat → List Call)
    (hu : b.used = true) (htop : top = regionHi (v.client.heap.memHeapList i)) (hlt : top < 2 ^ 32)
    (hno : ¬OpensWindow top v) :
    statusPass i others top v =
      .again (HeapWalk.advance { v with status := countUsed v.status }) := by
  obtain ⟨-, hat, -, -, hdog⟩ := h.block htop hlt
  have hne := (h.used_ne hu).2
  rw [hu] at hdog
  have hmagic : leakMagic v.client.heap.mem v.addr ≠ memDbgLeakMagic :=
    fun hm => hno ⟨hat, hdog, hne, hm⟩
  unfold statusPass
  rw [if_pos hat]
  simp only [hdog]
  rw [if_pos statByte_true, if_neg hne, if_neg hmagic]

/-- A free block. -/
theorem WalkAt.pass_free (h : WalkAt i v pre (b :: post)) (others : Nat → List Call)
    (hf : b.used = false) (htop : top = regionHi (v.client.heap.memHeapList i)) (hlt : top < 2 ^ 32) :
    statusPass i others top v =
        .again (HeapWalk.advance { v with
          freeBlockp := (freeAddrs post).headD 0
          status := countFree v.status b.size }) := by
  obtain ⟨hb, hat, -, hsize, hdog⟩ := h.block htop hlt
  rw [hf] at hdog
  have hfree := h.free
  rw [freeAddrs_cons_free hf, List.headD_cons, ← hb] at hfree
  have hchain := h.inv.rep.chain
  rw [freeAddrs_append, freeAddrs_cons_free hf] at hchain
  obtain ⟨r, -, -, -, hnext⟩ := segment_append.mp hchain
  have hnext' : blockNext v.client.heap.mem v.addr = (freeAddrs post).headD 0 := by
    rw [hb]
    exact chain_start hnext
  unfold statusPass
  rw [if_pos hat]
  simp only [hdog, statByte, Bool.false_eq_true, if_false]
  rw [if_neg (by decide), if_pos trivial, if_neg (by simp [hfree]), hsize, hfree, hnext']

/-- The status after the block `b`. -/
def countBlock (st : HeapStatus) (b : Block) : HeapStatus :=
  if b.used then countUsed st else countFree st b.size

/-- A block that opens no window. -/
theorem WalkAt.pass_block (h : WalkAt i v pre (b :: post)) (others : Nat → List Call)
    (htop : top = regionHi (v.client.heap.memHeapList i)) (hlt : top < 2 ^ 32)
    (hno : ¬OpensWindow top v) :
    ∃ v', statusPass i others top v = .again v' ∧ WalkAt i v' (pre ++ [b]) post ∧
      v'.client = v.client ∧ v'.addr = v.addr + b.size ∧ v'.status = countBlock v.status b ∧
      v'.addr ≤ top := by
  obtain ⟨-, -, hle, hsize, -⟩ := h.block htop hlt
  have hnext : u32 (v.addr + blockSize v.client.heap.mem v.addr) = v.addr + b.size := by
    rw [hsize, u32_of_lt (by omega)]
  cases hu : b.used with
  | true =>
    obtain ⟨v', hv'⟩ : ∃ v', v' = HeapWalk.advance { v with status := countUsed v.status } :=
      ⟨_, rfl⟩
    have hwalk : WalkAt i v' (pre ++ [b]) post := by
      rw [hv']
      exact h.next htop hlt rfl rfl (h.used_ne hu).1
    have haddr : v'.addr = v.addr + b.size := by
      rw [hv']
      exact hnext
    exact ⟨v', hv' ▸ h.pass_used others hu htop hlt hno, hwalk, by rw [hv']; rfl, haddr,
      by rw [hv', countBlock, if_pos hu]; rfl, by omega⟩
  | false =>
    obtain ⟨v', hv'⟩ : ∃ v', v' = HeapWalk.advance { v with
        freeBlockp := (freeAddrs post).headD 0
        status := countFree v.status b.size } := ⟨_, rfl⟩
    have hwalk : WalkAt i v' (pre ++ [b]) post := by
      rw [hv']
      exact h.next htop hlt rfl rfl rfl
    have haddr : v'.addr = v.addr + b.size := by
      rw [hv']
      exact hnext
    exact ⟨v', hv' ▸ h.pass_free others hu htop hlt, hwalk, by rw [hv']; rfl, haddr,
      by rw [hv', countBlock, hu]; rfl, by omega⟩

/-- Careful calls of other tasks return and leave the heap in order. -/
theorem tracks_run {c : Client} {bs : List Block} (h : Tracks c.heap i c.live bs) {calls : List Call}
    (hl : Machine.Legal (step i) Careful c calls) :
    ∃ c' replies bs', Machine.run (step i) c calls = some (c', replies) ∧
      Tracks c'.heap i c'.live bs' ∧ SameRegion (c.heap.memHeapList i) (c'.heap.memHeapList i) := by
  obtain ⟨c', replies, hrun, bs', ht, hsame⟩ := Machine.run_total
    (I := fun c' _ => ∃ bs', Tracks c'.heap i c'.live bs' ∧
      SameRegion (c.heap.memHeapList i) (c'.heap.memHeapList i))
    (by
      intro c₁ rs k ⟨bs₁, ht, hsame⟩ hk
      obtain ⟨c₂, r, bs₂, hstep, hok⟩ := call_spec ht hk
      exact ⟨c₂, r, hstep, bs₂, hok.tracks, hsame.trans hok.same⟩)
    ⟨bs, h, rfl, rfl⟩ hl
  exact ⟨c', replies, bs', hrun, ht, hsame⟩

/-- A block in use with a leak record: the walk goes on in the layout that the other tasks
leave. -/
theorem WalkAt.pass_window (h : WalkAt i v pre (b :: post)) (hu : b.used = true)
    (htracks : Tracks v.client.heap i v.client.live (pre ++ b :: post))
    (htop : top = regionHi (v.client.heap.memHeapList i)) (hlt : top < 2 ^ 32)
    (hopen : OpensWindow top v) (hok : WindowOk i others v) :
    ∃ v' pre' post', statusPass i others top v = .again v' ∧ WalkAt i v' pre' post' ∧
      Tracks v'.client.heap i v'.client.live (pre' ++ post') ∧
      top = regionHi (v'.client.heap.memHeapList i) ∧ v.addr < v'.addr ∧ v'.addr ≤ top := by
  obtain ⟨hb, hat, hle, hsize, hdog⟩ := h.block htop hlt
  obtain ⟨hfree, hne⟩ := h.used_ne hu
  obtain ⟨hlegal, hresume⟩ := hok
  obtain ⟨c', replies, bs', hrun, ht, hsame⟩ := tracks_run htracks hlegal
  obtain ⟨hpos, hbound, hboundary, hfrom⟩ := hresume (c', replies) hrun
  simp only at hpos hbound hboundary hfrom
  have htop' : top = regionHi (c'.heap.memHeapList i) := by rw [hsame.hi, htop]
  rw [hu] at hdog
  have hpass : statusPass i others top v = .again (HeapWalk.advance { v with
      client := c'
      status := countUsed v.status
      outputs := v.outputs ++ [.memUse v.addr]
      windows := v.windows + 1 }) := by
    unfold statusPass
    rw [if_pos hat]
    simp only [hdog]
    rw [if_pos statByte_true, if_neg hne, if_pos hopen.2.2.2, hrun]
  have hend : u32 (v.addr + blockSize c'.heap.mem v.addr) =
      v.addr + blockSize c'.heap.mem v.addr := u32_of_lt (by omega)
  obtain ⟨pre', post', rfl, hpre'⟩ :=
    hboundary.split ht.inv.rep.tiles ht.inv.rep.blocks hbound
  refine ⟨_, pre', post', hpass, ⟨ht.inv, ?_, ?_⟩, ht, htop', ?_, ?_⟩
  · show Tiles _ (u32 (v.addr + blockSize c'.heap.mem v.addr)) pre'
    rw [hend]
    exact hpre'
  · -- the first free block above the printed one, before and after the window
    show v.freeBlockp = (freeAddrs post').headD 0
    have hinv : HeapInv v.client.heap i ((pre ++ [b]) ++ post) := by
      simpa using h.inv
    have htiles : Tiles (regionLo (v.client.heap.memHeapList i))
        (v.addr + blockSize v.client.heap.mem v.addr) (pre ++ [b]) :=
      tiles_append.mpr ⟨v.addr, h.tiles, hb.symm, by rw [hsize]; rfl⟩
    rw [hfree, ← hinv.freeFrom_eq htiles, ← hfrom]
    exact ht.inv.freeFrom_eq hpre'
  · show v.addr < u32 (v.addr + blockSize c'.heap.mem v.addr)
    omega
  · show u32 (v.addr + blockSize c'.heap.mem v.addr) ≤ top
    omega

/-- From every place between two blocks the walk gets to the top, whatever the other tasks
do in windows that are in order. -/
theorem WalkAt.run {n : Nat} (h : WalkAt i v pre post)
    (htracks : Tracks v.client.heap i v.client.live (pre ++ post))
    (htop : top = regionHi (v.client.heap.memHeapList i)) (hlt : top < 2 ^ 32)
    (hn : top - v.addr < n) (hok : WindowsOk i others top n v) :
    ∃ v', Loop.run (statusPass i others top) n v = some (some (v', 0)) ∧ v'.status.valid = 1 := by
  induction n generalizing v pre post with
  | zero => omega
  | succ n ih =>
    obtain ⟨hwindow, hrest⟩ := hok
    cases post with
    | nil => exact ⟨_, Loop.run_exit (h.done htop), rfl⟩
    | cons b post =>
      have h12 := (h.inv.rep.sizes b (by simp)).2
      by_cases hopen : OpensWindow top v
      · have hu : b.used = true := by
          by_contra hu
          have hdog := (h.block htop hlt).2.2.2.2
          have hfree : b.used = false := by simpa using hu
          rw [hopen.2.1, hfree] at hdog
          exact absurd hdog (by decide)
        obtain ⟨v', pre', post', hpass, hwalk, ht, htop', hprogress, hle'⟩ :=
          h.pass_window hu htracks htop hlt hopen (hwindow hopen)
        rw [Loop.run_again hpass]
        exact ih hwalk ht htop' (by omega) (hrest _ hpass)
      · obtain ⟨v', hpass, hwalk, hclient, haddr, -, hle⟩ := h.pass_block others htop hlt hopen
        have hlayout : pre ++ b :: post = (pre ++ [b]) ++ post := by simp
        rw [Loop.run_again hpass]
        apply ih hwalk
        · rw [hclient, ← hlayout]
          exact htracks
        · rw [hclient]
          exact htop
        · omega
        · exact hrest _ hpass

/-- Without other tasks a window changes nothing. -/
theorem WalkAt.pass_alone (h : WalkAt i v pre (b :: post))
    (htop : top = regionHi (v.client.heap.memHeapList i)) (hlt : top < 2 ^ 32) :
    ∃ v', statusPass i (fun _ => []) top v = .again v' ∧ WalkAt i v' (pre ++ [b]) post ∧
      v'.client = v.client ∧ v'.addr = v.addr + b.size ∧ v'.status = countBlock v.status b := by
  by_cases hopen : OpensWindow top v
  · obtain ⟨-, hat, hle, hsize, hdog⟩ := h.block htop hlt
    have hu : b.used = true := by
      by_contra hu
      have hfree : b.used = false := by simpa using hu
      rw [hopen.2.1, hfree] at hdog
      exact absurd hdog (by decide)
    obtain ⟨hfree, hne⟩ := h.used_ne hu
    have hnext : u32 (v.addr + blockSize v.client.heap.mem v.addr) = v.addr + b.size := by
      rw [hsize, u32_of_lt (by omega)]
    obtain ⟨v', hv'⟩ : ∃ v', v' = HeapWalk.advance { v with
        status := countUsed v.status
        outputs := v.outputs ++ [.memUse v.addr]
        windows := v.windows + 1 } := ⟨_, rfl⟩
    have hpass : statusPass i (fun _ => []) top v = .again v' := by
      rw [hv']
      unfold statusPass
      rw [if_pos hat]
      simp only [hopen.2.1, if_true]
      rw [if_neg hne, if_pos hopen.2.2.2, Machine.run_nil]
    refine ⟨v', hpass, ?_, by rw [hv']; rfl, by rw [hv']; exact hnext,
      by rw [hv', countBlock, if_pos hu]; rfl⟩
    rw [hv']
    exact h.next htop hlt rfl rfl hfree
  · obtain ⟨v', hpass, hwalk, hclient, haddr, hstatus, -⟩ :=
      h.pass_block (fun _ => []) htop hlt hopen
    exact ⟨v', hpass, hwalk, hclient, haddr, hstatus⟩

theorem WalkAt.run_alone {n : Nat} (h : WalkAt i v pre post)
    (htop : top = regionHi (v.client.heap.memHeapList i)) (hlt : top < 2 ^ 32)
    (hn : post.length < n) :
    ∃ v', Loop.run (statusPass i (fun _ => []) top) n v = some (some (v', 0)) ∧
      v'.client = v.client ∧ v'.status = { post.foldl countBlock v.status with valid := 1 } := by
  induction post generalizing v pre n with
  | nil =>
    obtain ⟨n, rfl⟩ : ∃ k, n = k + 1 := ⟨n - 1, by omega⟩
    exact ⟨_, Loop.run_exit (h.done htop), rfl, rfl⟩
  | cons b post ih =>
    simp only [List.length_cons] at hn
    obtain ⟨n, rfl⟩ : ∃ k, n = k + 1 := ⟨n - 1, by omega⟩
    obtain ⟨v₁, hpass, hwalk, hclient, -, hstatus⟩ := h.pass_alone htop hlt
    obtain ⟨v', hrun, hclient', hstatus'⟩ := ih hwalk (by rw [hclient]; exact htop)
      (show post.length < n by omega)
    refine ⟨v', (Loop.run_again hpass).trans hrun, hclient'.trans hclient, ?_⟩
    rw [hstatus', hstatus, List.foldl_cons]

end Pass

/-! ## The counts -/

theorem countUsed_freeBlock (st : HeapStatus) : (countUsed st).freeBlock = st.freeBlock := by
  unfold countUsed
  generalize u32 (st.usedBlock + 1) = n
  rfl

theorem countFree_usedBlock (st : HeapStatus) (size : Nat) :
    (countFree st size).usedBlock = st.usedBlock := by
  unfold countFree
  generalize sub32 (sub32 size memBlockHeadSize) 1 = thisSize
  generalize u32 (st.freeBlock + 1) = n
  generalize u32 (st.free + thisSize) = k
  rfl

theorem foldl_countBlock (bs : List Block) (st : HeapStatus) (hu : st.usedBlock < 2 ^ 32)
    (hf : st.freeBlock < 2 ^ 32) :
    (bs.foldl countBlock st).usedBlock = u32 (st.usedBlock + (bs.filter Block.used).length) ∧
      (bs.foldl countBlock st).freeBlock = u32 (st.freeBlock + (freeBlocks bs).length) := by
  induction bs generalizing st with
  | nil => exact ⟨(u32_of_lt hu).symm, (u32_of_lt hf).symm⟩
  | cons b bs ih =>
    rw [List.foldl_cons]
    cases hb : b.used with
    | true =>
      have hcount : countBlock st b = countUsed st := if_pos hb
      obtain ⟨h1, h2⟩ := ih (countUsed st) (u32_lt _) (by rw [countUsed_freeBlock]; exact hf)
      rw [hcount, h1, h2, freeBlocks_cons_used hb, List.filter_cons_of_pos hb]
      refine ⟨?_, by rw [countUsed_freeBlock]⟩
      simp only [countUsed, List.length_cons]
      unfold u32
      omega
    | false =>
      have hcount : countBlock st b = countFree st b.size := by
        rw [countBlock, hb]
        rfl
      obtain ⟨h1, h2⟩ := ih (countFree st b.size) (by rw [countFree_usedBlock]; exact hu) (u32_lt _)
      rw [hcount, h1, h2, freeBlocks_cons_free hb, List.filter_cons_of_neg (by simp [hb])]
      refine ⟨by rw [countFree_usedBlock], ?_⟩
      simp only [countFree, List.length_cons]
      unfold u32
      omega

/-! ## The reports -/

section Reports

variable {i : Fin memHeapListNum} {others : Nat → List Call} {c : Client} {bs : List Block}

/-- The walk itself does not report a damaged heap. -/
theorem run_quiet {top n : Nat} {v : HeapWalk} {q : Option (HeapWalk × Nat)}
    (hv : DbgOutput.memMngDamaged ∉ v.outputs)
    (h : Loop.run (statusPass i others top) n v = some q) :
    ∀ w, q = some w → DbgOutput.memMngDamaged ∉ w.1.outputs := by
  refine Loop.run_post (I := fun v => DbgOutput.memMngDamaged ∉ v.outputs)
    (Q := fun q => ∀ w, q = some w → DbgOutput.memMngDamaged ∉ w.1.outputs) ?_ ?_ hv h
  · intro v r hv hexit w hw
    subst hw
    simp only [statusPass] at hexit
    split at hexit
    · split at hexit
      · split at hexit
        · cases hexit
          simpa using hv
        · split at hexit
          · split at hexit <;> simp at hexit
          · simp at hexit
      · split at hexit
        · split at hexit
          · cases hexit
            simpa using hv
          · simp at hexit
        · cases hexit
          simpa using hv
    · cases hexit
      exact hv
  · intro v v' hv hagain
    simp only [statusPass] at hagain
    split at hagain
    · split at hagain
      · split at hagain
        · simp at hagain
        · split at hagain
          · split at hagain
            · simp at hagain
            · cases hagain
              simpa [HeapWalk.advance] using hv
          · cases hagain
            exact hv
      · split at hagain
        · split at hagain
          · simp at hagain
          · cases hagain
            exact hv
        · simp at hagain
    · simp at hagain

/-- What is put out after the walk. -/
theorem diagnose_eq {c' : Client} {status : HeapStatus} {outputs : List DbgOutput}
    (h : memHeapStatus i others c = some (c', status, outputs)) :
    tuyaMemHeapDiagnose i others c = some (c', outputs ++
      (if status.valid = 0 then [.memMngDamaged] else []) ++ [.heapStatus status]) := by
  rw [tuyaMemHeapDiagnose, h]
  rfl

/-- The start of the walk. -/
theorem HeapInv.startWalk (h : HeapInv c.heap i bs) : WalkAt i (startWalk i c) [] bs :=
  ⟨h, rfl, chain_start h.rep.chain⟩

theorem HeapInv.topAddr (h : HeapInv c.heap i bs)
    (htop : (c.heap.memHeapList i).base + (c.heap.memHeapList i).size < 2 ^ 32) :
    topAddr (c.heap.memHeapList i) = regionHi (c.heap.memHeapList i) ∧
      topAddr (c.heap.memHeapList i) < 2 ^ 32 := by
  have heq : TuyaMemHeap.topAddr (c.heap.memHeapList i) = regionHi (c.heap.memHeapList i) := by
    rw [TuyaMemHeap.topAddr, u32_of_lt htop, regionHi]
  have := h.region.hi_le.1
  exact ⟨heq, by omega⟩

/-- The diagnosis of a heap in order: whatever other tasks do in windows that are in order,
the walk ends with `valid` set and no damage is reported; and without other tasks the blocks
in use and the free blocks are counted. -/
theorem heapStatus_valid (h : Tracks c.heap i c.live bs)
    (htop : (c.heap.memHeapList i).base + (c.heap.memHeapList i).size < 2 ^ 32) :
    (∀ others : Nat → List Call,
      WindowsOk i others (topAddr (c.heap.memHeapList i)) ((c.heap.memHeapList i).size + 1)
        (startWalk i c) →
      ∃ c' status outputs texts, memHeapStatus i others c = some (c', status, outputs) ∧
        status.valid = 1 ∧ tuyaMemHeapDiagnose i others c = some (c', texts) ∧
        .memMngDamaged ∉ texts) ∧
      ∃ status outputs, memHeapStatus i (fun _ => []) c = some (c, status, outputs) ∧
        status.valid = 1 ∧ status.usedBlock = (bs.filter Block.used).length ∧
        status.freeBlock = (freeBlocks bs).length := by
  obtain ⟨heq, hlt⟩ := h.inv.topAddr htop
  have hlen := h.inv.length_lt
  constructor
  · intro others hok
    have hn : topAddr (c.heap.memHeapList i) - (startWalk i c).addr <
        (c.heap.memHeapList i).size + 1 := by
      have h1 := h.inv.region.aligned
      have h2 := h.inv.region.hi_le.1
      have h3 := h.inv.region.size_pos
      have haddr : (startWalk i c).addr = regionLo (c.heap.memHeapList i) := rfl
      rw [haddr]
      omega
    obtain ⟨v, hrun, hvalid⟩ := h.inv.startWalk.run h heq hlt hn hok
    have hstatus : memHeapStatus i others c = some (v.client, v.status, v.outputs) := by
      rw [memHeapStatus, hrun]
    have hquiet := run_quiet (by simp [TuyaMemHeap.startWalk]) hrun _ rfl
    refine ⟨v.client, v.status, v.outputs, _, hstatus, hvalid, diagnose_eq hstatus, ?_⟩
    rw [hvalid]
    simpa using hquiet
  · obtain ⟨v, hrun, hclient, hstatus⟩ := h.inv.startWalk.run_alone heq hlt (Nat.lt_succ_of_lt hlen)
    obtain ⟨st, hst⟩ : ∃ st, st = (startWalk i c).status := ⟨_, rfl⟩
    have hzero : st.usedBlock = 0 ∧ st.freeBlock = 0 := by
      rw [hst]
      exact ⟨rfl, rfl⟩
    have hcounts := foldl_countBlock bs st (by omega) (by omega)
    rw [hzero.1, hzero.2, Nat.zero_add, Nat.zero_add] at hcounts
    rw [← hst] at hstatus
    have hused := List.length_filter_le Block.used bs
    have hfree := length_freeBlocks_le bs
    have hsize := h.inv.region.base_pos
    refine ⟨v.status, v.outputs, ?_, ?_, ?_, ?_⟩
    · have hclient' : v.client = c := hclient
      rw [memHeapStatus, hrun]
      simp only [hclient']
    · rw [hstatus]
    · rw [hstatus, hcounts.1, u32_of_lt (by omega)]
    · rw [hstatus, hcounts.2, u32_of_lt (by omega)]

end Reports

/-! ## A heap with a leak record -/

/-- A heap of 128 bytes at `4096`. -/
def diagnosedHeap : HeapState := (tuyaMemHeapCreate bootState 4096 128).1

theorem diagnosedHeap_created :
    tuyaMemHeapCreate bootState 4096 128 = (diagnosedHeap, some 0) := by
  have h : (tuyaMemHeapCreate bootState 4096 128).2 = some 0 := by decide
  rw [← h]
  rfl

/-- A free block behind a block in use whose leak record has its magic word. -/
def leakRecordCalls : List Call :=
  [.malloc 12, .malloc 28, .free 4208, .write 4196 0x68, .write 4197 0x24, .write 4198 0x57,
    .write 4199 0x13]

/-- The heap after these calls, in order. -/
theorem leakRecord_tracks {c : Client} {replies : List Reply}
    (hrun : Machine.run (step 0) ⟨diagnosedHeap, []⟩ leakRecordCalls = some (c, replies)) :
    ∃ bs, Tracks c.heap 0 c.live bs := by
  have hinv := runInv_create diagnosedHeap_created (by decide) (by decide)
  have hlegal : Machine.Legal (step 0) Careful ⟨diagnosedHeap, []⟩ leakRecordCalls :=
    Machine.legal_of_check (by decide +kernel)
  obtain ⟨c', replies', bs, hrun', ht, -⟩ := tracks_run hinv.tracks hlegal
  rw [hrun] at hrun'
  cases hrun'
  exact ⟨bs, ht⟩

/-- Another task allocates 12 bytes while the block is printed, and gets the free block behind
it, which leaves the heap in order: the heap is reported as damaged. -/
theorem diagnose_cries_wolf : ∃ c replies bs,
    Machine.run (step 0) ⟨diagnosedHeap, []⟩ leakRecordCalls = some (c, replies) ∧
      Tracks c.heap 0 c.live bs ∧
      (∃ c₁ replies₁ bs₁, Machine.run (step 0) c [.malloc 12] = some (c₁, replies₁) ∧
        Tracks c₁.heap 0 c₁.live bs₁) ∧
      ∃ c' status outputs texts,
        memHeapStatus 0 (fun _ => [.malloc 12]) c = some (c', status, outputs) ∧
        status.valid = 0 ∧ tuyaMemHeapDiagnose 0 (fun _ => [.malloc 12]) c = some (c', texts) ∧
        .memMngDamaged ∈ texts := by
  have hend : (Machine.run (step 0) ⟨diagnosedHeap, []⟩ leakRecordCalls).any (fun r =>
      Machine.legalCheck (step 0) Careful r.1 [.malloc 12] &&
      (memHeapStatus 0 (fun _ => [.malloc 12]) r.1).any fun q => q.2.1.valid == 0) = true := by
    decide +kernel
  obtain ⟨⟨c, replies⟩, hrun, hfacts⟩ := (Option.any_eq_true _ _).mp hend
  simp only [Bool.and_eq_true] at hfacts
  obtain ⟨hlegal, hdamaged⟩ := hfacts
  obtain ⟨⟨c', status, outputs⟩, hstatus, hvalid⟩ := (Option.any_eq_true _ _).mp hdamaged
  simp only [beq_iff_eq] at hvalid
  obtain ⟨bs, ht⟩ := leakRecord_tracks hrun
  obtain ⟨c₁, replies₁, bs₁, hrun₁, ht₁, -⟩ := tracks_run ht (Machine.legal_of_check hlegal)
  refine ⟨c, replies, bs, hrun, ht, ⟨c₁, replies₁, bs₁, hrun₁, ht₁⟩, c', status, outputs, _,
    hstatus, hvalid, diagnose_eq hstatus, ?_⟩
  rw [hvalid]
  simp

/-- Another task allocates from the free block below the one that is printed. -/
theorem heapStatus_valid_window : ∃ c replies bs,
    Machine.run (step 0) ⟨diagnosedHeap, []⟩ leakRecordCalls = some (c, replies) ∧
      Tracks c.heap 0 c.live bs ∧ (∃ c' status outputs texts,
        memHeapStatus 0 (fun _ => [.malloc 40]) c = some (c', status, outputs) ∧
        status.valid = 1 ∧ tuyaMemHeapDiagnose 0 (fun _ => [.malloc 40]) c = some (c', texts) ∧
        .memMngDamaged ∉ texts) ∧
      ∃ status outputs, memHeapStatus 0 (fun _ => []) c = some (c, status, outputs) ∧
        status.valid = 1 ∧ status.usedBlock = (bs.filter Block.used).length ∧
        status.freeBlock = (freeBlocks bs).length := by
  have hend : (Machine.run (step 0) ⟨diagnosedHeap, []⟩ leakRecordCalls).any (fun r =>
      decide ((r.1.heap.memHeapList 0).base + (r.1.heap.memHeapList 0).size < 2 ^ 32 ∧
        WindowsOk 0 (fun _ => [.malloc 40]) (topAddr (r.1.heap.memHeapList 0))
          ((r.1.heap.memHeapList 0).size + 1) (startWalk 0 r.1))) = true := by
    decide +kernel
  obtain ⟨⟨c, replies⟩, hrun, hfacts⟩ := (Option.any_eq_true _ _).mp hend
  obtain ⟨htop, hwindows⟩ := of_decide_eq_true hfacts
  obtain ⟨bs, ht⟩ := leakRecord_tracks hrun
  obtain ⟨hothers, halone⟩ := heapStatus_valid ht htop
  exact ⟨c, replies, bs, hrun, ht, hothers _ hwindows, halone⟩

end TuyaSdk.TuyaMemHeap
