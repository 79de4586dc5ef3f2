import TuyaSdk.TuyaMemHeap.Accounting

/-!
# Creating and deleting heaps

`tuya_mem_heap_create` fills the first empty slot of `mem_heap_list`, and an orderly
`tuya_mem_heap_delete` empties the last slot in use, so the heaps stay in the leading slots
where the handle-0 loops look for them. `Accounted` is what the handle-0 entry points then
report, after every run of orderly calls (`accounted_run`).
-/

namespace TuyaSdk.TuyaMemHeap
open TuyaSdk.Lib

/-! ## Creation -/

section Create

variable {s s' : HeapState} {i : Fin memHeapListNum} {base size : Nat}

/-- A new heap changes its slot and its region only, and adds its free bytes to the count. -/
theorem memHeapInit_frame (h : memHeapInit s i base size = some s') (h0 : base ≠ 0)
    (htop : base + size ≤ 2 ^ 32) (hpad : sub32 (alignUp base) base < size) :
    OnSlot s i s' (u32 (s.heapFreeSize + (s'.memHeapList i).free)) ∧
      ∀ x, x < base ∨ base + size ≤ x → s'.mem x = s.mem x := by
  obtain ⟨hlo, hend, h4⟩ := region_created h0 htop hpad
  have hhi : alignDown (base + size) ≤ base + size := Nat.div_mul_le_self _ _
  unfold memHeapInit at h
  obtain ⟨usable, husable⟩ : ∃ usable, usable =
    alignDown (sub32 size (sub32 (alignUp base) base)) := ⟨_, rfl⟩
  simp only [← husable] at h hend h4
  split at h
  · simp at h
  · rename_i hmin
    unfold memHeapMinSize memBlockMinSize memBlockHeadSize at hmin
    obtain ⟨m₁, hm₁⟩ : ∃ m₁, m₁ = setBlockNext s.mem (alignUp base) 0 := ⟨_, rfl⟩
    obtain ⟨m₂, hm₂⟩ : ∃ m₂, m₂ = setBlockSize m₁ (alignUp base) usable := ⟨_, rfl⟩
    have hsize₂ : blockSize m₂ (alignUp base) = usable := by
      rw [hm₂, blockSize_setBlockSize, u32_of_lt (by omega)]
    have hdog : memDogAddr m₂ (alignUp base) = alignUp base + usable - 1 :=
      memDogAddr_eq hsize₂ (by omega) (by omega)
    simp only [← hm₁, ← hm₂, hdog, Option.some.injEq] at h
    subst h
    refine ⟨⟨fun j hj => Function.update_of_ne hj _ _, ?_⟩, ?_⟩
    · simp only [Function.update_self]
    · intro x hx
      show write8 m₂ (alignUp base + usable - 1) memBlockStatFree x = s.mem x
      rw [write8_apply (by omega), hm₂, setBlockSize_apply (by omega), hm₁,
        setBlockNext_apply (by omega)]

/-- A region of no more than its alignment padding is refused, unless it is shorter. -/
theorem memHeapInit_padding (hpad : sub32 (alignUp base) base = size) :
    memHeapInit s i base size = none := by
  have hlt : size < 2 ^ 32 := by
    rw [← hpad]
    exact u32_lt _
  have hzero : alignDown (sub32 size (sub32 (alignUp base) base)) = 0 := by
    rw [hpad, sub32_of_le le_rfl hlt, Nat.sub_self]
    rfl
  simp only [memHeapInit, hzero]
  rfl

/-- Slot `i` is the first empty one. -/
def FirstEmpty (s : HeapState) (i : Fin memHeapListNum) : Prop :=
  ¬LiveHeap s i ∧ ∀ j < i, LiveHeap s j

theorem FirstEmpty.unique {i j : Fin memHeapListNum} (hi : FirstEmpty s i) (hj : FirstEmpty s j) :
    i = j := by
  rcases lt_trichotomy i j with hlt | heq | hgt
  · exact absurd (hj.2 i hlt) hi.1
  · exact heq
  · exact absurd (hi.2 j hgt) hj.1

/-- The search of `MEM_HeapCreate` for an empty slot. -/
theorem find_firstEmpty {i : Fin memHeapListNum}
    (h : (List.finRange memHeapListNum).find? (fun i => (s.memHeapList i).size = 0) = some i) :
    FirstEmpty s i := by
  obtain ⟨hdead, as, bs, hsplit, has⟩ := List.find?_eq_some_iff_append.mp h
  have hdead' : ¬LiveHeap s i := by
    have := of_decide_eq_true hdead
    unfold LiveHeap
    omega
  refine ⟨hdead', fun j hj => ?_⟩
  have hsorted := List.pairwise_lt_finRange memHeapListNum
  have hmem := List.mem_finRange j
  rw [hsplit] at hsorted hmem
  rcases List.mem_append.mp hmem with hja | hjb
  · have hne : (s.memHeapList j).size ≠ 0 := by simpa using has j hja
    unfold LiveHeap
    omega
  · -- the slots behind the one found have larger numbers
    have hle : i ≤ j := by
      rcases List.mem_cons.mp hjb with rfl | hjb
      · exact le_rfl
      · have htail := (List.pairwise_append.mp hsorted).2.1
        exact ((List.pairwise_cons.mp htail).1 j hjb).le
    exact absurd hj hle.not_gt

/-- What `tuya_mem_heap_create` does: nothing, a base address in an empty slot, or a heap in
the first empty slot. -/
theorem create_cases (s : HeapState) (base size : Nat) :
    (base = 0 ∨ size = 0 ∨ ∀ i, LiveHeap s i) ∧ tuyaMemHeapCreate s base size = (s, none) ∨
      ∃ i, FirstEmpty s i ∧ base ≠ 0 ∧ size ≠ 0 ∧
        (memHeapInit s i base size = none ∧ tuyaMemHeapCreate s base size =
            ({ s with
                memHeapList := Function.update s.memHeapList i
                  { s.memHeapList i with base := base, size := 0 } }, none) ∨
          ∃ s', memHeapInit s i base size = some s' ∧
            tuyaMemHeapCreate s base size = (s', some i)) := by
  unfold tuyaMemHeapCreate
  by_cases hparams : base = 0 ∨ size = 0
  · exact Or.inl ⟨hparams.imp_right Or.inl, if_pos hparams⟩
  · rw [if_neg hparams]
    rw [not_or] at hparams
    cases hfind : (List.finRange memHeapListNum).find? fun i => (s.memHeapList i).size = 0 with
    | none =>
      refine Or.inl ⟨Or.inr (Or.inr fun i => ?_), rfl⟩
      have hne : (s.memHeapList i).size ≠ 0 := by
        simpa using List.find?_eq_none.mp hfind i (List.mem_finRange i)
      exact Nat.pos_of_ne_zero hne
    | some i =>
      refine Or.inr ⟨i, find_firstEmpty hfind, hparams.1, hparams.2, ?_⟩
      cases hinit : memHeapInit s i base size with
      | none => exact Or.inl ⟨rfl, by simp only [hinit]⟩
      | some s' => exact Or.inr ⟨s', rfl, by simp only [hinit]⟩

end Create

section Table

variable {c : Clients} {i : Fin memHeapListNum}

/-- Changing the record of an empty slot that stays empty. -/
theorem HeapsInv.touch_dead (h : HeapsInv c) (hi : ¬LiveHeap c.heap i) {heap : MemHeap}
    (hsize : heap.size = 0) :
    HeapsInv ⟨{ c.heap with memHeapList := Function.update c.heap.memHeapList i heap }, c.live⟩ := by
  obtain ⟨s', hs'⟩ : ∃ s', s' =
    { c.heap with memHeapList := Function.update c.heap.memHeapList i heap } := ⟨_, rfl⟩
  have hothers : ∀ j, j ≠ i → s'.memHeapList j = c.heap.memHeapList j := by
    intro j hj
    rw [hs']
    exact Function.update_of_ne hj _ _
  have hi' : ¬LiveHeap s' i := by
    simp [LiveHeap, hs', hsize]
  have hlive : ∀ j, LiveHeap s' j → LiveHeap c.heap j ∧ j ≠ i := by
    intro j hj
    have hji : j ≠ i := by
      rintro rfl
      exact hi' hj
    unfold LiveHeap at hj ⊢
    rw [hothers j hji] at hj
    exact ⟨hj, hji⟩
  have hlive' : ∀ j, LiveHeap c.heap j → LiveHeap s' j := by
    intro j hj
    have hji : j ≠ i := by
      rintro rfl
      exact hi hj
    unfold LiveHeap
    rw [hothers j hji]
    exact hj
  rw [← hs']
  refine ⟨?_, fun j hj => h.dead j fun hl => hj (hlive' j hl), ?_, ?_, ?_, ?_⟩
  · intro j hj
    obtain ⟨bs, ht⟩ := h.tracks j (hlive j hj).1
    refine ⟨bs, ht.frame (hothers j (hlive j hj).2) fun x _ => ?_⟩
    rw [hs']
  · intro j k hjk hj hk
    rw [hothers j (hlive j hj).2, hothers k (hlive k hk).2]
    exact h.apart j k hjk (hlive j hj).1 (hlive k hk).1
  · intro j hj
    rw [hothers j (hlive j hj).2]
    exact h.top j (hlive j hj).1
  · intro j k hjk hk
    exact hlive' j (h.leading j k hjk (hlive k hk).1)
  · have hsum := sumLive_change (f := MemHeap.free) hothers
    rw [if_neg hi, if_neg hi'] at hsum
    have htotal : s'.heapFreeSize = c.heap.heapFreeSize := by rw [hs']
    have := h.total
    show s'.heapFreeSize = sumLive s' MemHeap.free
    omega

/-- A heap created in the first empty slot, on memory that no other heap has. -/
theorem HeapsInv.init (h : HeapsInv c) (hi : ¬LiveHeap c.heap i)
    (hbefore : ∀ j < i, LiveHeap c.heap j) {base size : Nat} {s' : HeapState}
    (hrun : memHeapInit c.heap i base size = some s') (h0 : base ≠ 0)
    (hsize : size ≠ 0) (htop : base + size < 2 ^ 32) (hpad : sub32 (alignUp base) base ≤ size)
    (hapart : ∀ j, LiveHeap c.heap j →
      Apart base size (c.heap.memHeapList j).base (c.heap.memHeapList j).size) :
    HeapsInv ⟨s', c.live⟩ := by
  have hpad' : sub32 (alignUp base) base < size := by
    rcases hpad.lt_or_eq with hlt | heq
    · exact hlt
    · rw [memHeapInit_padding heq] at hrun
      simp at hrun
  obtain ⟨hinv, hbase', hsize', -⟩ := memHeapInit_spec hrun h0 htop.le hpad'
  obtain ⟨hslot, hmem⟩ := memHeapInit_frame hrun h0 htop.le hpad'
  have hi' : LiveHeap s' i := by
    rw [LiveHeap, hsize']
    exact Nat.pos_of_ne_zero hsize
  have hlive : ∀ j, j ≠ i → (LiveHeap s' j ↔ LiveHeap c.heap j) := by
    intro j hj
    unfold LiveHeap
    rw [hslot.others j hj]
  have htracks : ∀ j, LiveHeap s' j → ∃ bs, Tracks s' j (c.live j) bs := by
    intro j hj
    by_cases hji : j = i
    · subst hji
      refine ⟨_, hinv, ?_, ?_, ?_⟩
      · rw [h.dead j hi]
        simp
      · simp [initialBlocks]
      · rw [h.dead j hi]
        simp
    · have hj' := (hlive j hji).mp hj
      obtain ⟨bs, ht⟩ := h.tracks j hj'
      refine ⟨bs, ht.frame (hslot.others j hji) fun x hx => hmem x ?_⟩
      exact ((hapart j hj').symm.not_mem hx.1 hx.2)
  have hregions : ∀ j k, j ≠ k → LiveHeap s' j → LiveHeap s' k →
      Apart (s'.memHeapList j).base (s'.memHeapList j).size
        (s'.memHeapList k).base (s'.memHeapList k).size := by
    intro j k hjk hj hk
    by_cases hji : j = i
    · subst hji
      rw [hbase', hsize', hslot.others k hjk.symm]
      exact hapart k ((hlive k hjk.symm).mp hk)
    · rw [hslot.others j hji]
      by_cases hki : k = i
      · subst hki
        rw [hbase', hsize']
        exact (hapart j ((hlive j hji).mp hj)).symm
      · rw [hslot.others k hki]
        exact h.apart j k hjk ((hlive j hji).mp hj) ((hlive k hki).mp hk)
  have htops : ∀ j, LiveHeap s' j → (s'.memHeapList j).base + (s'.memHeapList j).size < 2 ^ 32 := by
    intro j hj
    by_cases hji : j = i
    · rw [hji, hbase', hsize']
      exact htop
    · rw [hslot.others j hji]
      exact h.top j ((hlive j hji).mp hj)
  refine ⟨htracks, ?_, hregions, htops, ?_, ?_⟩
  · intro j hj
    by_cases hji : j = i
    · rw [hji]
      exact h.dead i hi
    · exact h.dead j fun hl => hj ((hlive j hji).mpr hl)
  · intro j k hjk hk
    by_cases hji : j = i
    · rw [hji]
      exact hi'
    · apply (hlive j hji).mpr
      by_cases hki : k = i
      · subst hki
        exact hbefore j (lt_of_le_of_ne hjk hji)
      · exact h.leading j k hjk ((hlive k hki).mp hk)
  · have hsum := sumLive_change (f := MemHeap.free) hslot.others
    rw [if_neg hi, if_pos hi'] at hsum
    have hlt : sumLive s' MemHeap.free < 2 ^ 32 := by
      refine lt_of_le_of_lt (sumLive_le fun j hj => ?_)
        (sumLive_size_lt (fun j hj => ⟨?_, htops j hj⟩) hregions)
      · obtain ⟨bs, ht⟩ := htracks j hj
        exact ht.inv.free_le
      · obtain ⟨bs, ht⟩ := htracks j hj
        exact ht.inv.region.base_pos
    show s'.heapFreeSize = sumLive s' MemHeap.free
    rw [hslot.total, h.total, ← hsum, Nat.add_zero, u32_of_lt hlt]

theorem HeapsInv.create (h : HeapsInv c) (startAddr : Nat) (size : BitVec 32)
    (hok : Orderly c (.create startAddr size)) :
    HeapsInv ⟨(tuyaMemHeapCreate c.heap startAddr size.toNat).1, c.live⟩ := by
  obtain ⟨⟨htop, hapart⟩, hpad⟩ := hok
  rcases create_cases c.heap startAddr size.toNat with ⟨-, heq⟩ |
    ⟨i, ⟨hi, hbefore⟩, h0, hsize, ⟨-, heq⟩ | ⟨s', hinit, heq⟩⟩
  · rw [heq]
    exact h
  · rw [heq]
    exact h.touch_dead hi rfl
  · rw [heq]
    have hpad' : sub32 (alignUp startAddr) startAddr ≤ size.toNat := by
      rcases hpad with rfl | hpad
      · exact absurd rfl hsize
      · exact hpad
    exact h.init hi hbefore hinit h0 hsize htop hpad' hapart

/-! ## Deletion -/

theorem delete_others (s : HeapState) (i : Fin memHeapListNum) :
    ∀ j, j ≠ i → (memHeapDelete s i).memHeapList j = s.memHeapList j :=
  fun _ hj => Function.update_of_ne hj _ _

theorem not_liveHeap_delete (s : HeapState) (i : Fin memHeapListNum) :
    ¬LiveHeap (memHeapDelete s i) i := by
  simp [LiveHeap, memHeapDelete]

theorem liveHeap_delete {s : HeapState} {i j : Fin memHeapListNum} :
    LiveHeap (memHeapDelete s i) j ↔ LiveHeap s j ∧ j ≠ i := by
  by_cases hj : j = i
  · subst hj
    simp [not_liveHeap_delete]
  · unfold LiveHeap
    rw [delete_others s i j hj]
    simp [hj]

/-- The sum over the heaps loses what the deleted heap contributed. -/
theorem sumLive_delete {s : HeapState} (hi : LiveHeap s i) (f : MemHeap → Nat) :
    sumLive (memHeapDelete s i) f + f (s.memHeapList i) = sumLive s f := by
  have hsum := sumLive_change (f := f) (delete_others s i)
  rw [if_pos hi, if_neg (not_liveHeap_delete s i)] at hsum
  exact hsum

theorem HeapsInv.delete (h : HeapsInv c) (hi : LiveHeap c.heap i) (hd : Deletable c.heap i) :
    HeapsInv ⟨memHeapDelete c.heap i, Function.update c.live i []⟩ := by
  refine ⟨?_, ?_, ?_, ?_, ?_, ?_⟩
  · intro j hj
    obtain ⟨hl, hji⟩ := liveHeap_delete.mp hj
    obtain ⟨bs, ht⟩ := h.tracks j hl
    have hlive : Function.update c.live i [] j = c.live j := Function.update_of_ne hji _ _
    have htf := ht.frame (delete_others c.heap i j hji) fun x _ => rfl
    rw [← hlive] at htf
    exact ⟨bs, htf⟩
  · intro j hj
    by_cases hji : j = i
    · subst hji
      exact Function.update_self ..
    · exact (Function.update_of_ne hji _ _).trans
        (h.dead j fun hl => hj (liveHeap_delete.mpr ⟨hl, hji⟩))
  · intro j k hjk hj hk
    obtain ⟨hj, hji⟩ := liveHeap_delete.mp hj
    obtain ⟨hk, hki⟩ := liveHeap_delete.mp hk
    rw [delete_others c.heap i j hji, delete_others c.heap i k hki]
    exact h.apart j k hjk hj hk
  · intro j hj
    obtain ⟨hj, hji⟩ := liveHeap_delete.mp hj
    rw [delete_others c.heap i j hji]
    exact h.top j hj
  · intro j k hjk hk
    obtain ⟨hkl, hki⟩ := liveHeap_delete.mp hk
    refine liveHeap_delete.mpr ⟨h.leading j k hjk hkl, ?_⟩
    rintro rfl
    exact hd.2 k (lt_of_le_of_ne hjk (Ne.symm hki)) hkl
  · have hsum := sumLive_delete hi MemHeap.free
    rw [hd.1, ← h.total] at hsum
    exact hsum.symm

end Table

/-! ## What the handle-0 entry points report -/

/-- The global accounting of the heaps: `s_heap_free_size` is the sum of the free bytes of
the heaps, `tuya_mem_heap_state` adds the sizes of all of them to a `total_size` of 0, and
`tuya_mem_heap_free` without a handle releases every live pointer. -/
structure Accounted (c : Clients) : Prop where
  freeSize : c.heap.heapFreeSize = sumLive c.heap MemHeap.free
  available : tuyaMemHeapAvailable c.heap none = toInt32 (sumLive c.heap MemHeap.free)
  totalSize : ∀ st : HeapStat, st.totalSize < 2 ^ 32 →
    ((tuyaMemHeapState c.heap none st).totalSize = sumLive c.heap MemHeap.size ↔ st.totalSize = 0)
  releases : ∀ i p n, (p, n) ∈ c.live i →
    ∃ s' b bs bs', tuyaMemHeapFree c.heap none p = some s' ∧ p = b.addr + 4 ∧
      Frees c.heap i bs b s' bs'

section Accounted

variable {c : Clients} {i : Fin memHeapListNum} {slots : List (Fin memHeapListNum)}

/-- The handle-0 loop of `tuya_mem_heap_state` adds the sizes of the leading heaps. -/
theorem addSizes_eq (s : HeapState) {total : Nat} (h : total < 2 ^ 32) :
    addSizes s total slots =
      u32 (total + ((leading s slots).map fun i => (s.memHeapList i).size).sum) := by
  induction slots generalizing total with
  | nil => simp [addSizes, leading, u32_of_lt h]
  | cons a slots ih =>
    by_cases ha : (s.memHeapList a).size > 0
    · rw [addSizes, if_pos ha, ih (u32_lt _), leading_cons ha, List.map_cons, List.sum_cons]
      unfold u32
      omega
    · rw [addSizes, if_neg ha, leading_hole ha]
      exact (u32_of_lt h).symm

/-- A heap behind an empty slot is missed by the loop. -/
theorem sum_leading_le {s : HeapState} {j : Fin memHeapListNum} (hsorted : slots.Pairwise (· < ·))
    (hi : i ∈ slots) (hdead : ¬LiveHeap s i) (hj : j ∈ slots) (hij : i < j) :
    ((leading s slots).map fun i => (s.memHeapList i).size).sum + (s.memHeapList j).size ≤
      (slots.map fun i => (s.memHeapList i).size).sum := by
  induction slots with
  | nil => simp at hi
  | cons a slots ih =>
    obtain ⟨hlt, hsorted⟩ := List.pairwise_cons.mp hsorted
    by_cases ha : LiveHeap s a
    · have hai : i ∈ slots := by
        rcases List.mem_cons.mp hi with rfl | hi
        · exact absurd ha hdead
        · exact hi
      have haj : j ∈ slots := by
        rcases List.mem_cons.mp hj with rfl | hj
        · exact absurd hij (hlt i hai).not_gt
        · exact hj
      have := ih hsorted hai haj
      rw [leading_cons ha, List.map_cons, List.map_cons, List.sum_cons, List.sum_cons]
      omega
    · rw [leading_hole ha, List.map_nil, List.sum_nil, Nat.zero_add]
      exact List.single_le_sum (fun _ _ => Nat.zero_le _) _ (List.mem_map_of_mem hj)

/-- When the heaps are in the leading slots, the loop misses none of them. -/
theorem sum_leading {s : HeapState} (hleading : ∀ i j, i ≤ j → LiveHeap s j → LiveHeap s i)
    (hsorted : slots.Pairwise (· < ·)) :
    ((leading s slots).map fun i => (s.memHeapList i).size).sum =
      (slots.map fun i => (s.memHeapList i).size).sum := by
  induction slots with
  | nil => rfl
  | cons a slots ih =>
    obtain ⟨hlt, hsorted⟩ := List.pairwise_cons.mp hsorted
    by_cases ha : LiveHeap s a
    · rw [leading_cons ha, List.map_cons, List.map_cons, List.sum_cons, List.sum_cons, ih hsorted]
    · have hzero : ∀ j ∈ a :: slots, (s.memHeapList j).size = 0 := by
        intro j hj
        by_contra hne
        have hl : LiveHeap s j := Nat.pos_of_ne_zero hne
        rcases List.mem_cons.mp hj with rfl | hj
        · exact ha hl
        · exact ha (hleading a j (hlt j hj).le hl)
      have hsum : ((a :: slots).map fun i => (s.memHeapList i).size).sum = 0 := by
        apply List.sum_eq_zero
        intro x hx
        obtain ⟨j, hj, rfl⟩ := List.mem_map.mp hx
        exact hzero j hj
      rw [leading_hole ha, hsum]
      rfl

theorem HeapsInv.accounted (h : HeapsInv c) : Accounted c := by
  refine ⟨h.total, congrArg toInt32 h.total, ?_, ?_⟩
  · intro st hst
    have hsize : sumLive c.heap MemHeap.size < 2 ^ 32 :=
      sumLive_size_lt (fun j hj => ⟨h.base_pos hj, h.top j hj⟩) h.apart
    have hall : ((List.finRange memHeapListNum).map fun i => (c.heap.memHeapList i).size).sum =
        sumLive c.heap MemHeap.size := by
      rw [sumLive_size, Fin.sum_univ_def]
    simp only [tuyaMemHeapState]
    rw [addSizes_eq c.heap hst, sum_leading h.leading (List.pairwise_lt_finRange _), hall]
    unfold u32
    omega
  · intro i p n hp
    have hi : LiveHeap c.heap i := by
      by_contra hdead
      rw [h.dead i hdead] at hp
      simp at hp
    obtain ⟨s', b, bs, bs', hrun, hpb, hf, -⟩ := h.deallocate hi hp
    exact ⟨s', b, bs, bs', (h.free_any hi hp).trans hrun, hpb, hf⟩

/-- An orderly call returns and leaves the table in order. -/
theorem HeapsInv.step (h : HeapsInv c) {k : HeapCall} (hk : Orderly c k) :
    ∃ c' r, heapsStep c k = some (c', r) ∧ HeapsInv c' := by
  cases k with
  | create startAddr size => exact ⟨_, _, rfl, h.create startAddr size hk⟩
  | delete i => exact ⟨_, _, rfl, h.delete hk.1 hk.2⟩
  | malloc handle size =>
    obtain ⟨s', p, hrun, hinv⟩ := h.malloc handle size hk.1
    exact ⟨_, .ptr p, by rw [heapsStep, hrun]; rfl, hinv⟩
  | write addr byte => exact ⟨_, _, rfl, h.write byte hk.1⟩
  | free handle ptr =>
    -- NULL changes nothing: it is live in no heap, and no loop releases it
    have hnull : ∀ j, dropPtr 0 (c.live j) = c.live j := by
      intro j
      apply dropPtr_of_not_live
      intro n hn
      by_cases hj : LiveHeap c.heap j
      · obtain ⟨bs, ht⟩ := h.tracks j hj
        exact ht.ne_zero hn rfl
      · rw [h.dead j hj] at hn
        simp at hn
    have hrelease : ∀ i, (∃ e ∈ c.live i, e.1 = ptr) →
        ∃ s', memDeallocate c.heap i ptr = some s' ∧ tuyaMemHeapFree c.heap none ptr = some s' ∧
          HeapsInv ⟨s', fun j => dropPtr ptr (c.live j)⟩ := by
      rintro i ⟨⟨p, n⟩, hp, rfl⟩
      have hi : LiveHeap c.heap i := by
        by_contra hdead
        rw [h.dead i hdead] at hp
        simp at hp
      obtain ⟨s', b, bs, bs', hrun, -, -, hinv⟩ := h.deallocate hi hp
      exact ⟨s', hrun, (h.free_any hi hp).trans hrun, hinv⟩
    have hdone : ∀ s', tuyaMemHeapFree c.heap handle ptr = some s' →
        heapsStep c (.free handle ptr) =
          some (⟨s', fun j => dropPtr ptr (c.live j)⟩, .done) := by
      intro s' hrun
      rw [heapsStep, hrun]
      rfl
    have hkeep : ptr = 0 → tuyaMemHeapFree c.heap handle ptr = some c.heap →
        ∃ c' r, heapsStep c (.free handle ptr) = some (c', r) ∧ HeapsInv c' := by
      intro h0 hrun
      refine ⟨_, _, hdone _ hrun, ?_⟩
      simp only [h0, hnull]
      exact h
    cases handle with
    | none =>
      rcases hk.1 with rfl | ⟨i, hlive⟩
      · apply hkeep rfl
        have hskip : ∀ slots, TuyaMemHeap.freeAny c.heap 0 slots = some c.heap := by
          intro slots
          induction slots with
          | nil => rfl
          | cons a slots ih => simp [TuyaMemHeap.freeAny, ih]
        exact hskip _
      · obtain ⟨s', -, hrun, hinv⟩ := hrelease i hlive
        exact ⟨_, _, hdone s' hrun, hinv⟩
    | some i =>
      rcases hk.1.2 with rfl | hlive
      · exact hkeep rfl rfl
      · obtain ⟨s', hrun, -, hinv⟩ := hrelease i hlive
        exact ⟨_, _, hdone s' hrun, hinv⟩

/-- Deleting a heap that still has free bytes, or has a heap behind it, breaks the
accounting. -/
theorem HeapsInv.delete_breaks (h : HeapsInv c) (hi : LiveHeap c.heap i)
    (hd : ¬Deletable c.heap i) :
    ¬Accounted ⟨memHeapDelete c.heap i, Function.update c.live i []⟩ := by
  intro hacc
  have hfree := sumLive_delete hi MemHeap.free
  have hsize := sumLive_delete hi MemHeap.size
  have htotal : c.heap.heapFreeSize = sumLive (memHeapDelete c.heap i) MemHeap.free := hacc.freeSize
  rw [h.total] at htotal
  have hzero : (c.heap.memHeapList i).free = 0 := by omega
  apply hd
  refine ⟨hzero, ?_⟩
  intro j hj hl
  -- the loop of `tuya_mem_heap_state` stops at the hole, before slot `j`
  have hstate := (hacc.totalSize ⟨0, 0, 0, 0⟩ (by decide)).mpr rfl
  have hsum : sumLive c.heap MemHeap.size < 2 ^ 32 :=
    sumLive_size_lt (fun j hj => ⟨h.base_pos hj, h.top j hj⟩) h.apart
  have hmissed := sum_leading_le (List.pairwise_lt_finRange _) (List.mem_finRange i)
    (not_liveHeap_delete c.heap i) (List.mem_finRange j) hj
  have hsizej : ((memHeapDelete c.heap i).memHeapList j).size = (c.heap.memHeapList j).size := by
    rw [delete_others c.heap i j hj.ne']
  have hall : ((List.finRange memHeapListNum).map
      fun k => ((memHeapDelete c.heap i).memHeapList k).size).sum =
        sumLive (memHeapDelete c.heap i) MemHeap.size := by
    rw [sumLive_size, Fin.sum_univ_def]
  simp only [tuyaMemHeapState] at hstate
  rw [addSizes_eq _ (by decide), Nat.zero_add, u32_of_lt (by omega)] at hstate
  unfold LiveHeap at hl
  omega

end Accounted

/-! ## Runs -/

/-- No heap has been created yet. -/
def noHeaps (m : Mem) : Clients := ⟨⟨m, fun _ => ⟨0, 0, 0, 0, 0⟩, 0, 0⟩, fun _ => []⟩

theorem heapsInv_noHeaps (m : Mem) : HeapsInv (noHeaps m) := by
  have hdead : ∀ i, ¬LiveHeap (noHeaps m).heap i := fun i => Nat.lt_irrefl 0
  refine ⟨fun i hi => absurd hi (hdead i), fun _ _ => rfl, fun i _ _ hi => absurd hi (hdead i),
    fun i hi => absurd hi (hdead i), fun _ j _ hj => absurd hj (hdead j), ?_⟩
  symm
  apply Finset.sum_eq_zero
  intro i _
  exact if_neg (hdead i)

/-- After every run of orderly calls the accounting is right, and a heap can be deleted
without breaking it exactly when it is the last one and has no free bytes. -/
theorem accounted_run (m : Mem) {calls : List HeapCall}
    (hl : Machine.Legal heapsStep Orderly (noHeaps m) calls) :
    ∃ c replies, Machine.run heapsStep (noHeaps m) calls = some (c, replies) ∧ Accounted c ∧
      ∀ i, LiveHeap c.heap i →
        (Accounted ⟨tuyaMemHeapDelete c.heap (some i), Function.update c.live i []⟩ ↔
          Deletable c.heap i) := by
  obtain ⟨c, replies, hrun, hinv⟩ := Machine.run_total (I := fun c _ => HeapsInv c)
    (fun c _ k hc hk => hc.step hk) (heapsInv_noHeaps m) hl
  refine ⟨c, replies, hrun, hinv.accounted, ?_⟩
  intro i hi
  constructor
  · intro hacc
    by_contra hd
    exact hinv.delete_breaks hi hd hacc
  · intro hd
    exact (hinv.delete hi hd).accounted

/-- Two heaps, an allocation in each, one release without a handle, and the second heap, all
of it allocated, deleted. -/
def orderlyCalls : List HeapCall :=
  [.create 4096 64, .create 8192 28, .malloc (some 1) 20, .malloc none 4, .free none 4152,
    .write 8200 7, .delete 1]

theorem accounted_run_two : ∃ c replies,
    Machine.run heapsStep (noHeaps fun _ => 0) orderlyCalls = some (c, replies) ∧ Accounted c ∧
      ∀ i, LiveHeap c.heap i →
        (Accounted ⟨tuyaMemHeapDelete c.heap (some i), Function.update c.live i []⟩ ↔
          Deletable c.heap i) :=
  accounted_run _ (Machine.legal_of_check (by decide +kernel))

/-- Two heaps, of which the first is deleted while the second has a live pointer. -/
def holeCalls : List HeapCall :=
  [.create 4096 64, .create 8192 64, .malloc (some 1) 4, .delete 0]

/-- After that the global count still has the deleted heap's bytes, the live heap's size is
not reported, a `total_size` that was not cleared is, and the live pointer is not released. -/
theorem hole_unaccounted : ∃ c replies,
    Machine.Legal heapsStep PermittedCall (noHeaps fun _ => 0) holeCalls ∧
      Machine.run heapsStep (noHeaps fun _ => 0) holeCalls = some (c, replies) ∧
      c.heap.heapFreeSize = 116 ∧ sumLive c.heap MemHeap.free = 52 ∧
      tuyaMemHeapAvailable c.heap none = 116 ∧ sumLive c.heap MemHeap.size = 64 ∧
      (tuyaMemHeapState c.heap none ⟨0, 0, 0, 0⟩).totalSize = 0 ∧
      (tuyaMemHeapState c.heap none ⟨7, 0, 0, 0⟩).totalSize = 7 ∧
      (8248, 4) ∈ c.live 1 ∧ tuyaMemHeapFree c.heap none 8248 = some c.heap := by
  have hlegal : Machine.legalCheck heapsStep PermittedCall (noHeaps fun _ => 0) holeCalls = true := by
    decide +kernel
  have hend : (Machine.run heapsStep (noHeaps fun _ => 0) holeCalls).any (fun r =>
      decide (r.1.heap.heapFreeSize = 116 ∧ sumLive r.1.heap MemHeap.free = 52 ∧
        tuyaMemHeapAvailable r.1.heap none = 116 ∧ sumLive r.1.heap MemHeap.size = 64 ∧
        (tuyaMemHeapState r.1.heap none ⟨0, 0, 0, 0⟩).totalSize = 0 ∧
        (tuyaMemHeapState r.1.heap none ⟨7, 0, 0, 0⟩).totalSize = 7 ∧
        (8248, 4) ∈ r.1.live 1 ∧ (r.1.heap.memHeapList 0).size = 0)) = true := by
    decide +kernel
  obtain ⟨⟨c, replies⟩, hrun, hfacts⟩ := (Option.any_eq_true _ _).mp hend
  obtain ⟨h1, h2, h3, h4, h5, h6, h7, h8⟩ := of_decide_eq_true hfacts
  refine ⟨c, replies, Machine.legal_of_check hlegal, hrun, h1, h2, h3, h4, h5, h6, h7, ?_⟩
  have hslots : List.finRange memHeapListNum = [0, 1, 2, 3] := by decide
  simp only at h8
  simp [tuyaMemHeapFree, hslots, freeAny, h8]

end TuyaSdk.TuyaMemHeap
