import TuyaSdk.TuyaMemHeap.Sizes

/-!
# Releasing a block once

The byte that the header of a released block leads to says so, and a second release is refused.
`tuya_mem_heap_debug_realloc` copies as many bytes as were asked for, however many the old block
has, and then releases it.
-/

namespace TuyaSdk.TuyaMemHeap
open TuyaSdk.Lib

section Release

variable {s s' : HeapState} {i : Fin memHeapListNum} {b : Block} {handle : HeapHandle}

/-- The release of a pointer whose block is marked free does nothing. -/
theorem memDeallocate_free {p : Nat}
    (h : s.mem (memDogAddr s.mem (sub32 p memBlockHeadSize)) = memBlockStatFree) :
    memDeallocate s i p = some s := by
  unfold memDeallocate
  split
  · rfl
  · have hne : s.mem (memDogAddr s.mem (sub32 p memBlockHeadSize)) ≠ memBlockStatUse := by
      rw [h]
      decide
    exact if_pos hne

theorem freeAny_null (slots : List (Fin memHeapListNum)) : freeAny s 0 slots = some s := by
  induction slots with
  | nil => rfl
  | cons a slots ih => simp [freeAny, ih]

theorem tuyaMemHeapFree_null : tuyaMemHeapFree s handle 0 = some s := by
  cases handle with
  | none => exact freeAny_null _
  | some i => rfl

/-- Releasing a block twice in a row is releasing it once. -/
theorem free_free (hh : handle = some i ∨ handle = none ∧ TableOk s) (hb : LiveBlock s i b) :
    ∃ s', tuyaMemHeapFree s handle (b.addr + 4) = some s' ∧
      tuyaMemHeapFree s' handle (b.addr + 4) = some s' := by
  obtain ⟨bs, hinv, hmem, hu⟩ := id hb
  obtain ⟨hb0, h12, htop⟩ := hinv.bounds hmem
  have hblock : sub32 (b.addr + 4) 4 = b.addr := by
    rw [sub32_of_le (by omega) (by omega), Nat.add_sub_cancel]
  obtain ⟨s', bs', hrun, hf, hslot, hmark⟩ := memDeallocate_marks hinv hmem hu
  have hagain : memDeallocate s' i (b.addr + 4) = some s' := by
    apply memDeallocate_free
    show s'.mem (memDogAddr s'.mem (sub32 (b.addr + 4) 4)) = memBlockStatFree
    rw [hblock]
    exact hmark
  rcases hh with rfl | ⟨rfl, htable⟩
  · exact ⟨s', hrun, hagain⟩
  · rcases tuyaMemHeapFree_cases htable hb (Or.inl rfl) with ⟨heq, hbefore⟩ | ⟨heq, -⟩
    · refine ⟨s', heq.trans hrun, ?_⟩
      have hlive := hbefore.resolve_left (Option.some_ne_none i).symm
      have htable' : TableOk s' := htable.change hf.inv hslot.others hf.same fun x hx => hf.outside hx
      have hin := hinv.ptr_inRegion hmem
      rw [← hf.same.1, ← hf.same.2] at hin
      rw [← hagain]
      apply freeAny_eq (List.pairwise_lt_finRange _) (List.mem_finRange i)
      · intro j hj
        have hl := hlive j hj
        unfold LiveHeap at hl ⊢
        by_cases hji : j = i
        · rw [hji, hf.same.2, ← hji]
          exact hl
        · rw [hslot.others j hji]
          exact hl
      · exact hin
      · exact htable'.top
      · exact fun j hj hx => hj (htable'.owner_unique hx ⟨hin.1.le, hin.2⟩)
    · exact ⟨s, heq, heq⟩

end Release

/-- Four bytes allocated in a heap of 128, and released twice. -/
theorem free_free_fresh : ∃ (s : HeapState) (b : Block) (s' : HeapState),
    memAllocate freshHeap 0 4 = some (s, b.addr + 4) ∧
    tuyaMemHeapFree s (some 0) (b.addr + 4) = some s' ∧
      tuyaMemHeapFree s' (some 0) (b.addr + 4) = some s' := by
  obtain ⟨bs, hinv⟩ := freshHeap_ok.heaps 0 (freshHeap_live 0 rfl)
  obtain ⟨s, p, hrun, hcase⟩ := memAllocate_spec hinv (show 4 < 2 ^ 32 by decide)
  have hserved : (memAllocate freshHeap 0 4).any (fun r => r.2 ≠ 0) = true := by decide +kernel
  rw [hrun] at hserved
  have hp : p ≠ 0 := by simpa using hserved
  rcases hcase with ⟨h0, -⟩ | ⟨b, bs', ha, rfl, -⟩
  · exact absurd h0 hp
  · obtain ⟨hb, hu⟩ := (ha.takes.mem_used b).mpr (Or.inl rfl)
    obtain ⟨s', h1, h2⟩ := free_free (Or.inl rfl) ⟨bs', ha.inv, hb, hu⟩
    exact ⟨s, b, s', hrun, h1, h2⟩

/-! ## `tuya_mem_heap_debug_realloc` -/

/-- `tuya_mem_heap_debug_realloc`, with the stretches of memory that its `memcpy` reads. -/
def tuyaMemHeapDebugRealloc (s : HeapState) (handle : HeapHandle) (ptr size filename line : Nat) :
    Option (HeapState × Nat × List (Nat × Nat)) :=
  match tuyaMemHeapDebugMalloc s handle size filename line with
  | none => none
  | some (s₁, tmp) =>
    if tmp = 0 then some (s₁, 0, [])
    else
      (tuyaMemHeapFree { s₁ with mem := memcpy s₁.mem tmp ptr size } handle ptr).map fun s₂ =>
        (s₂, tmp, [(ptr, size)])

/-- The block of the live pointer `ptr` has been released, as the last thing that happened. -/
def ReleasedLast (s s' : HeapState) (ptr : Nat) : Prop :=
  ∃ i b, LiveBlock s i b ∧ ptr = b.addr + 4 ∧
    ∃ s₂ bs bs', HeapInv s₂ i bs ∧ Frees s₂ i bs b s' bs'

/-- The call on a pointer for which `m` bytes were asked: only its payload is read; without a
pointer it is an allocation; when it fails nothing has changed; otherwise the new block holds the
bytes and its record, starts with the bytes of the old block, and the old block is released. -/
def DebugReallocOk (s : HeapState) (handle : HeapHandle) (ptr m n filename line : Nat) : Prop :=
  ∃ s' p reads, tuyaMemHeapDebugRealloc s handle ptr n filename line = some (s', p, reads) ∧
    (∀ r ∈ reads, ∀ x, r.1 ≤ x → x < r.1 + r.2 →
      ∃ i b, LiveBlock s i b ∧ ptr = b.addr + 4 ∧ x ∈ Payload b) ∧
    (ptr = 0 → tuyaMemHeapDebugMalloc s handle n filename line = some (s', p)) ∧
    (ptr ≠ 0 → p = 0 → s' = s) ∧
    (ptr ≠ 0 → p ≠ 0 → (∀ k < min m n, s'.mem (p + k) = s.mem (ptr + k)) ∧
      (∃ j c, HoldsRecord s' j c n filename line ∧ p = c.addr + 4) ∧ ReleasedLast s s' ptr)

/-- The new size is no more than the old payload, and the release finds the heap of the pointer;
or nothing is asked for without a pointer; or the allocation is refused. -/
def DebugReallocFits (s : HeapState) (handle : HeapHandle) (ptr n : Nat) : Prop :=
  Refused s handle n ∨ ptr = 0 ∧ n = 0 ∨
    ∃ i b, LiveBlock s i b ∧ ptr = b.addr + 4 ∧ n + 5 ≤ b.size ∧ debugRequest n < 2 ^ 32 ∧
      (handle = some i ∨ ∀ j ≤ i, LiveHeap s j)

section DebugRealloc

variable {s s' : HeapState} {i j : Fin memHeapListNum} {b c : Block} {handle : HeapHandle}
  {m n filename line : Nat}

/-- Two blocks in use at one address are one block of one heap. -/
theorem LiveBlock.unique (h : TableOk s) (hb : LiveBlock s i b) (hc : LiveBlock s j c)
    (haddr : b.addr = c.addr) : i = j ∧ b = c := by
  obtain ⟨bs, hinv, hb, -⟩ := hb
  obtain ⟨cs, hinv', hc, -⟩ := hc
  have hin := hinv.ptr_inRegion hb
  have hin' := hinv'.ptr_inRegion hc
  rw [← haddr] at hin'
  obtain rfl : i = j := h.owner_unique ⟨hin.1.le, hin.2⟩ ⟨hin'.1.le, hin'.2⟩
  obtain rfl := hinv.unique hinv'
  exact ⟨rfl, hinv.addr_inj hb hc haddr⟩

/-- A released block is not in use. -/
theorem Frees.not_live {bs bs' : List Block} (hinv : HeapInv s i bs)
    (hf : Frees s i bs b s' bs') : ¬LiveBlock s' i b := by
  rintro ⟨cs, hcs, hb, hu⟩
  rw [hcs.unique hf.inv] at hb
  exact ((hf.releases.mem_used hinv.rep.tiles hinv.rep.sizes b).mp ⟨hb, hu⟩).2.2 rfl

/-- The release of another block leaves the bytes of a block in use. -/
theorem Frees.keeps_mem {bs bs' : List Block} (h : TableOk s) (hf : Frees s i bs b s' bs')
    (hc : LiveBlock s j c) (hc' : LiveBlock s' j c) {x : Nat} (h1 : c.addr ≤ x)
    (h2 : x < c.addr + c.size) : s'.mem x = s.mem x := by
  by_cases hji : j = i
  · subst hji
    obtain ⟨cs, hcs, hmem, hu⟩ := hc'
    rw [hcs.unique hf.inv] at hmem
    exact hf.mem.used hf.inv.rep.tiles hmem hu h1 h2
  · obtain ⟨cs, hcs, hmem, -⟩ := hc
    have hx := hcs.block_inRegion hmem h1 h2
    exact hf.outside fun hxi => hji (h.owner_unique hx hxi)

/-- A byte of a block in use is not in the payload of another. -/
theorem LiveBlock.not_mem_payload (h : TableOk s) (hb : LiveBlock s i b) (hc : LiveBlock s j c)
    (hne : i = j → b ≠ c) {x : Nat} (h1 : b.addr ≤ x) (h2 : x < b.addr + b.size) :
    x ∉ Payload c := by
  obtain ⟨bs, hinv, hb, -⟩ := hb
  obtain ⟨cs, hinv', hc, -⟩ := hc
  intro hx
  have hx1 : c.addr + 4 ≤ x := hx.1
  have hx2 : x < c.addr + c.size - 1 := hx.2
  obtain rfl : i = j := h.owner_unique (hinv.block_inRegion hb h1 h2)
    (hinv'.block_inRegion hc (by omega) (by omega))
  obtain rfl := hinv.unique hinv'
  have hapart := hinv.rep.tiles.apart_of_ne hc hb (hne rfl)
  omega

/-- An allocation leaves the bytes of the blocks in use. -/
theorem Allocates.keeps_mem {bs bs' : List Block} {k : Nat} (h : TableOk s) (hinv : HeapInv s j bs)
    (ha : Allocates s j bs k s' c bs') (hb : LiveBlock s i b) {x : Nat} (h1 : b.addr ≤ x)
    (h2 : x < b.addr + b.size) : s'.mem x = s.mem x := by
  obtain ⟨cs, hcs, hmem, hu⟩ := hb
  by_cases hij : i = j
  · subst hij
    rw [hcs.unique hinv] at hmem
    exact ha.mem.used hinv.rep.tiles hmem hu h1 h2
  · exact ha.outside hinv fun hx => hij (h.owner_unique (hcs.block_inRegion hmem h1 h2) hx)

/-- The state of the call between the copy and the release. -/
structure Copied (s : HeapState) (i : Fin memHeapListNum) (b : Block) (n filename line : Nat)
    (j : Fin memHeapListNum) (c : Block) (s₂ : HeapState) : Prop where
  table : TableOk s₂
  old : LiveBlock s₂ i b
  new : HoldsRecord s₂ j c n filename line
  ne : i = j → b ≠ c
  same : ∀ k, SameRegion (s.memHeapList k) (s₂.memHeapList k)
  bytes : ∀ k < n, k < b.size - 4 → s₂.mem (c.addr + 4 + k) = s.mem (b.addr + 4 + k)

/-- The allocation and the copy, when the request is computed without wrapping. -/
theorem debugRealloc_copied (h : TableOk s) (hb : LiveBlock s i b)
    (hh : ∀ k ∈ handle, LiveHeap s k) (hn : debugRequest n < 2 ^ 32) (hf : filename < 2 ^ 32)
    (hl : line < 2 ^ 32) {s₁ : HeapState} {p : Nat}
    (hrun : tuyaMemHeapDebugMalloc s handle n filename line = some (s₁, p)) (hp : p ≠ 0) :
    ∃ j c, p = c.addr + 4 ∧
      Copied s i b n filename line j c
        { s₁ with mem := memcpy s₁.mem (c.addr + 4) (b.addr + 4) n } := by
  obtain ⟨s', p', hrun', hcase⟩ := tuyaMemHeapDebugMalloc_spec h.heaps hh
    (debugRequest_lt_iff.mp hn) hf hl
  rw [hrun] at hrun'
  cases hrun'
  rcases hcase with ⟨h0, -⟩ | ⟨j, c, bs, bs', hinv, ha, hpc, hrec⟩
  · exact absurd h0 hp
  · have hroom := hrec.room
    obtain ⟨s₀, ha₀, hslot, hmem, hs₁⟩ := ha.alloc
    have hcopy : ∀ x, x < c.addr + 4 ∨ c.addr + 4 + n ≤ x →
        memcpy s₁.mem (c.addr + 4) (b.addr + 4) n x = s₁.mem x := fun x hx => memcpy_apply hx
    have hout : ∀ x, x ∉ Payload c →
        memcpy s₁.mem (c.addr + 4) (b.addr + 4) n x = s₀.mem x := by
      intro x hx
      refine (hcopy x ?_).trans (hmem x hx)
      by_contra hin
      exact hx ⟨by omega, by omega⟩
    obtain ⟨htable, hb₂, -, hne⟩ := ha₀.moves h hinv hslot.others hb hout
    have hs₂ : ({ s₁ with mem := memcpy s₁.mem (c.addr + 4) (b.addr + 4) n } : HeapState) =
        { s₀ with mem := memcpy s₁.mem (c.addr + 4) (b.addr + 4) n } := by
      rw [hs₁]
    have hnew := hrec.store hcopy
    obtain ⟨-, hb₁, hc₁, -⟩ := ha₀.moves h hinv hslot.others hb (m := s₁.mem) hmem
    have htable₁ : TableOk { s₀ with mem := s₁.mem } :=
      (ha₀.moves h hinv hslot.others hb (m := s₁.mem) hmem).1
    refine ⟨j, c, hpc, ?_, ?_, hnew, hne, ?_, ?_⟩
    · rw [hs₂]
      exact htable
    · rw [hs₂]
      exact hb₂
    · intro k
      rw [hs₂]
      by_cases hk : k = j
      · rw [hk]
        exact ha₀.same
      · show SameRegion (s.memHeapList k) (s₀.memHeapList k)
        rw [hslot.others k hk]
        exact ⟨rfl, rfl⟩
    · intro k hk hkb
      show memcpy s₁.mem (c.addr + 4) (b.addr + 4) n (c.addr + 4 + k) = _
      rw [memcpy_copied hk, hmem _ (hb₁.not_mem_payload htable₁ hc₁ hne (by omega) (by omega))]
      exact ha₀.keeps_mem h hinv hb (by omega) (by omega)

theorem SameRegion.liveHeap {k : Fin memHeapListNum}
    (h : SameRegion (s.memHeapList k) (s'.memHeapList k)) : LiveHeap s' k ↔ LiveHeap s k := by
  unfold LiveHeap
  rw [h.2]

/-- Once copied, the old block is released, or not found because of an empty slot. -/
theorem Copied.release (h : Copied s i b n filename line j c s') (hr : Reaches handle i) :
    (handle = some i ∨ ∀ k ≤ i, LiveHeap s k) ∧
        (∃ s₂ bs bs', tuyaMemHeapFree s' handle (b.addr + 4) = some s₂ ∧ HeapInv s' i bs ∧
          Frees s' i bs b s₂ bs' ∧ OnSlot s' i s₂ (u32 (s'.heapFreeSize + b.size))) ∨
      ¬(handle = some i ∨ ∀ k ≤ i, LiveHeap s k) ∧
        tuyaMemHeapFree s' handle (b.addr + 4) = some s' := by
  rcases tuyaMemHeapFree_cases h.table h.old hr with ⟨heq, hfound⟩ | ⟨heq, hnone, k, hk, hdead⟩
  · refine Or.inl ⟨hfound.imp_right fun hl k hk => (h.same k).liveHeap.mp (hl k hk), ?_⟩
    obtain ⟨bs, hinv, hmem, hu⟩ := h.old
    obtain ⟨s₂, bs', hrun, hf, hslot⟩ := memDeallocate_outcome hinv hmem hu
    exact ⟨s₂, bs, bs', heq.trans hrun, hinv, hf, hslot⟩
  · refine Or.inr ⟨?_, heq⟩
    rintro (hsome | hall)
    · rw [hnone] at hsome
      cases hsome
    · exact hdead ((h.same k).liveHeap.mpr (hall k hk.le))

/-- The release leaves the new block with its record and its bytes. -/
theorem Copied.holdsRecord {s₂ : HeapState} {bs bs' : List Block}
    (h : Copied s i b n filename line j c s') (hinv : HeapInv s' i bs)
    (hf : Frees s' i bs b s₂ bs')
    (hslot : OnSlot s' i s₂ (u32 (s'.heapFreeSize + b.size))) :
    HoldsRecord s₂ j c n filename line ∧
      ∀ x, c.addr ≤ x → x < c.addr + c.size → s₂.mem x = s'.mem x := by
  have hlive : LiveBlock s₂ j c :=
    hf.keeps h.table hinv hslot.others h.new.live fun hji => (h.ne hji.symm).symm
  have hmem : ∀ x, c.addr ≤ x → x < c.addr + c.size → s₂.mem x = s'.mem x :=
    fun x h1 h2 => hf.keeps_mem h.table h.new.live hlive h1 h2
  have hroom := h.new.room
  refine ⟨⟨hlive, hroom, ?_⟩, hmem⟩
  rw [← h.new.leak]
  exact readLeak_congr fun x h1 h2 => hmem x (by omega) (by omega)

/-- `tuya_mem_heap_debug_realloc` is a realloc exactly when the new size fits the old payload and
the release finds the block, or nothing is to be done. -/
theorem debugReallocOk_iff (h : TableOk s) (hh : ∀ k ∈ handle, LiveHeap s k) {ptr : Nat}
    (hp : ptr = 0 ∨ ∃ i b, LiveBlock s i b ∧ ptr = b.addr + 4 ∧ Reaches handle i) (m : Nat)
    (n filename line : BitVec 32) :
    DebugReallocOk s handle ptr m n.toNat filename.toNat line.toNat ↔
      DebugReallocFits s handle ptr n.toNat := by
  obtain ⟨s₁, p, hrun, hnull, hsame⟩ :=
    tuyaMemHeapDebugMalloc_null h.heaps hh n.toNat filename.toNat line.toNat
  by_cases hp0 : p = 0
  · refine iff_of_true ⟨s₁, 0, [], ?_, ?_, ?_, fun _ _ => hsame hp0, fun _ hne => absurd rfl hne⟩
      (Or.inl (hnull.mp hp0))
    · unfold tuyaMemHeapDebugRealloc
      rw [hrun]
      exact if_pos hp0
    · exact fun r hr => absurd hr List.not_mem_nil
    · rintro -
      rw [hrun, hp0]
  · have hserved : ¬Refused s handle n.toNat := fun hr => hp0 (hnull.mpr hr)
    have hcall : tuyaMemHeapDebugRealloc s handle ptr n.toNat filename.toNat line.toNat =
        (tuyaMemHeapFree { s₁ with mem := memcpy s₁.mem p ptr n.toNat } handle ptr).map fun s₂ =>
          (s₂, p, [(ptr, n.toNat)]) := by
      unfold tuyaMemHeapDebugRealloc
      rw [hrun]
      exact if_neg hp0
    rcases hp with rfl | ⟨i, b, hb, rfl, hr⟩
    · rw [tuyaMemHeapFree_null] at hcall
      constructor
      · rintro ⟨s', p', reads, heq, hreads, -⟩
        rw [hcall] at heq
        cases heq
        refine Or.inr (Or.inl ⟨rfl, ?_⟩)
        by_contra hn
        obtain ⟨i, b, -, hb, -⟩ := hreads _ (List.mem_singleton.mpr rfl) 0 (Nat.le_refl 0)
          (by simp only; omega)
        omega
      · rintro (href | ⟨-, hn⟩ | ⟨i, b, -, hb, -⟩)
        · exact absurd href hserved
        · have hmem : memcpy s₁.mem p 0 n.toNat = s₁.mem := by
            funext x
            exact memcpy_apply (by omega)
          rw [hmem] at hcall
          refine ⟨s₁, p, _, hcall, ?_, fun _ => hrun, fun hne => absurd rfl hne,
            fun hne => absurd rfl hne⟩
          intro r hr x h1 h2
          rw [List.mem_singleton.mp hr] at h1 h2
          simp only at h1 h2
          omega
        · omega
    · constructor
      · rintro ⟨s', p', reads, heq, hreads, -, -, hdone⟩
        rw [hcall] at heq
        obtain ⟨s₂, hfree, hres⟩ := Option.map_eq_some_iff.mp heq
        cases hres
        obtain ⟨-, ⟨j', c', hrec', -⟩, i', b', hb', hbb', s₃, bs, bs', hinv, hf⟩ :=
          hdone (by omega) hp0
        have hn : debugRequest n.toNat < 2 ^ 32 := by
          obtain ⟨cs, hcs, hc', -⟩ := hrec'.live
          have hbound := hcs.bounds hc'
          have hroom := hrec'.room
          exact debugRequest_lt_iff.mpr (by omega)
        obtain ⟨j, c, rfl, hcopied⟩ :=
          debugRealloc_copied h hb hh hn filename.isLt line.isLt hrun hp0
        refine Or.inr (Or.inr ⟨i, b, hb, rfl, ?_, hn, ?_⟩)
        · obtain ⟨bs, hinv, hmem, -⟩ := id hb
          have h12 := (hinv.bounds hmem).2.1
          by_cases hz : n.toNat = 0
          · omega
          · obtain ⟨k, d, hd, hdb, hx⟩ := hreads _ (List.mem_singleton.mpr rfl)
              (b.addr + 4 + (n.toNat - 1)) (by simp only; omega) (by simp only; omega)
            obtain ⟨-, rfl⟩ := hb.unique h hd (by omega)
            have hlast := hx.2
            omega
        · rcases hcopied.release hr with ⟨hfound, -⟩ | ⟨-, hmissed⟩
          · exact hfound
          · -- the block that was not found is still in use
            rw [hmissed] at hfree
            cases hfree
            obtain ⟨rfl, rfl⟩ := hb.unique h hb' (by omega)
            exact absurd hcopied.old (hf.not_live hinv)
      · rintro (href | ⟨h0, -⟩ | ⟨i', b', hb', hbb', hroom, hn, hfound⟩)
        · exact absurd href hserved
        · omega
        · obtain ⟨rfl, rfl⟩ := hb.unique h hb' (by omega)
          obtain ⟨j, c, rfl, hcopied⟩ :=
            debugRealloc_copied h hb hh hn filename.isLt line.isLt hrun hp0
          rcases hcopied.release hr with ⟨-, s₂, bs, bs', hfree, hinv, hf, hslot⟩ | ⟨hno, -⟩
          · rw [hfree] at hcall
            obtain ⟨hrec, hkeep⟩ := hcopied.holdsRecord hinv hf hslot
            have hroom' := hrec.room
            refine ⟨s₂, c.addr + 4, _, hcall, ?_, fun h0 => by omega, fun _ h0 => by omega, ?_⟩
            · intro r hr x h1 h2
              rw [List.mem_singleton.mp hr] at h1 h2
              simp only at h1 h2
              exact ⟨i, b, hb, rfl, by omega, by omega⟩
            · refine fun _ _ => ⟨fun k hk => ?_, ⟨j, c, hrec, rfl⟩, i, b, hb, rfl, _, bs, bs', hinv,
                hf⟩
              have hkn : k < n.toNat := lt_of_lt_of_le hk (Nat.min_le_right _ _)
              rw [hkeep _ (by omega) (by omega)]
              exact hcopied.bytes k hkn (by omega)
          · exact absurd hfound hno

end DebugRealloc

/-- A pointer for 20 bytes in a heap of 128, and 8 bytes asked for. -/
theorem debugReallocOk_iff_fresh : ∃ (s : HeapState) (p : Nat), p ≠ 0 ∧
    (DebugReallocOk s (some 0) p 20 (8 : BitVec 32).toNat (1 : BitVec 32).toNat
        (2 : BitVec 32).toNat ↔
      DebugReallocFits s (some 0) p (8 : BitVec 32).toNat) := by
  have hfresh := (heapsInv_noHeaps fun _ => 0).create 4096 128 (by decide)
  obtain ⟨s, p, hrun, hinv⟩ := hfresh.malloc (some 0) 20 freshHeap_live
  have hserved : (tuyaMemHeapMalloc freshHeap (some 0) (20 : BitVec 32).toNat).any (fun r =>
      r.2 ≠ 0 ∧ InRegion (r.1.memHeapList 0) r.2 ∧ LiveHeap r.1 0) = true := by decide +kernel
  have hrun' : tuyaMemHeapMalloc freshHeap (some 0) (20 : BitVec 32).toNat = some (s, p) := hrun
  rw [hrun'] at hserved
  obtain ⟨hp, hin, hlive⟩ : p ≠ 0 ∧ InRegion (s.memHeapList 0) p ∧ LiveHeap s 0 := by
    simpa using hserved
  have hmem : (p, (20 : BitVec 32).toNat) ∈ addPtr s (noHeaps fun _ => 0).live p
      (20 : BitVec 32).toNat 0 := by
    rw [addPtr, if_pos ⟨hp, hin⟩]
    exact List.mem_cons_self
  obtain ⟨b, hb, hpb, -⟩ := hinv.liveBlock hmem
  refine ⟨s, p, hp, debugReallocOk_iff hinv.tableOk ?_ (Or.inr ⟨0, b, hb, hpb, Or.inr rfl⟩) 20 8 1 2⟩
  intro k hk
  cases hk
  exact hlive

/-- Without a pointer the call copies from address 0. -/
theorem not_forall_debugReallocOk :
    ¬∀ (s : HeapState) (handle : HeapHandle) (ptr m : Nat) (n filename line : BitVec 32),
      TableOk s → (∀ k ∈ handle, LiveHeap s k) →
      (ptr = 0 ∨ ∃ i b, LiveBlock s i b ∧ ptr = b.addr + 4 ∧ m + 24 ≤ b.size ∧ Reaches handle i) →
      DebugReallocOk s handle ptr m n.toNat filename.toNat line.toNat := by
  intro h
  obtain ⟨s', p, reads, hrun, hreads, -⟩ :=
    h freshHeap (some 0) 0 0 4 1 2 freshHeap_ok freshHeap_live (Or.inl rfl)
  have hread : (tuyaMemHeapDebugRealloc freshHeap (some 0) 0 (4 : BitVec 32).toNat
      (1 : BitVec 32).toNat (2 : BitVec 32).toNat).any (fun r => r.2.2 = [(0, 4)]) = true := by
    decide +kernel
  rw [hrun] at hread
  have hlist : reads = [(0, 4)] := by simpa using hread
  obtain ⟨i, b, -, hb, -⟩ := hreads (0, 4) (by simp [hlist]) 0 (Nat.le_refl 0) (by decide)
  omega

end TuyaSdk.TuyaMemHeap
