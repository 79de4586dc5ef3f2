import TuyaSdk.ScanResult.Defs

/-!
# The table as a list of entries

`Table` relates the heap to what the table stands for: a list of entries, each an item with the
address of its block, without two entries of one BSSID. The blocks of the shell and of the items
are all that is allocated, besides the blocks of a handler that is not done (`Owned`). The
operations of the handlers act on the entries.
-/

namespace TuyaSdk.ScanResult

open TuyaSdk.Lib

/-- An item with its address. -/
abbrev Entry := Nat × StaScanRes

/-- The addresses of the shell, of the items, and of the blocks of a handler. -/
def addrs (ptr : Nat) (es : List Entry) (extra : List Nat) : List Nat :=
  ptr :: (es.map Prod.fst ++ extra)

/-- The heap holds the items of the entries, and the addresses are all that is allocated. -/
structure Owned (heap : Heap Block) (ptr : Nat) (es : List Entry) (extra : List Nat) : Prop where
  items : ∀ e ∈ es, itemAt heap e.1 = some e.2
  bssids : (es.map fun e => e.2.bssid).Nodup
  nodup : (addrs ptr es extra).Nodup
  live : ∀ p, heap.Live p ↔ p ∈ addrs ptr es extra

/-- The shell at `ptr` points to the items of the entries. -/
structure Table (heap : Heap Block) (ptr : Nat) (es : List Entry) (extra : List Nat) : Prop where
  shell : shellAt heap ptr = some (es.map Prod.fst)
  length_le : es.length ≤ maxBssList
  owned : Owned heap ptr es extra

variable {heap heap' : Heap Block} {ptr p q item : Nat} {es es' pre post : List Entry} {e : Entry}
  {extra : List Nat} {it : StaScanRes}

theorem shellAt_eq {res : List Nat} :
    shellAt heap ptr = some res ↔ heap.block ptr = some (.shell res) := by
  unfold shellAt
  split <;> simp_all

theorem itemAt_eq : itemAt heap p = some it ↔ heap.block p = some (.item it) := by
  unfold itemAt
  split <;> simp_all

theorem itemAt_congr (h : heap'.block q = heap.block q) : itemAt heap' q = itemAt heap q := by
  rw [itemAt, h, itemAt]

theorem shellAt_congr (h : heap'.block q = heap.block q) : shellAt heap' q = shellAt heap q := by
  rw [shellAt, h, shellAt]

theorem mem_addrs : p ∈ addrs ptr es extra ↔ p = ptr ∨ p ∈ es.map Prod.fst ∨ p ∈ extra := by
  simp [addrs]

/-! ## What is allocated -/

namespace Owned

theorem ptr_live (h : Owned heap ptr es extra) : heap.Live ptr :=
  (h.live ptr).mpr (mem_addrs.mpr (Or.inl rfl))

theorem item_live (h : Owned heap ptr es extra) (he : e ∈ es) : heap.Live e.1 :=
  (h.live e.1).mpr (mem_addrs.mpr (Or.inr (Or.inl (List.mem_map_of_mem he))))

theorem item_ne_ptr (h : Owned heap ptr es extra) (he : e ∈ es) : e.1 ≠ ptr := by
  intro heq
  have hnot := (List.nodup_cons.mp h.nodup).1
  exact hnot (List.mem_append_left _ (heq ▸ List.mem_map_of_mem he))

/-- The order of the entries does not matter. -/
theorem perm (h : Owned heap ptr es extra) (hp : es.Perm es') : Owned heap ptr es' extra := by
  have haddrs : (addrs ptr es extra).Perm (addrs ptr es' extra) :=
    ((hp.map Prod.fst).append_right extra).cons ptr
  exact ⟨fun e he => h.items e (hp.mem_iff.mpr he), (hp.map _).nodup_iff.mp h.bssids,
    haddrs.nodup_iff.mp h.nodup, fun p => (h.live p).trans haddrs.mem_iff⟩

/-- A block of the handler becomes an entry. -/
theorem adopt (h : Owned heap ptr es (item :: extra)) (hitem : itemAt heap item = some it)
    (hb : ∀ e ∈ es, it.bssid ≠ e.2.bssid) : Owned heap ptr ((item, it) :: es) extra := by
  have haddrs : (addrs ptr es (item :: extra)).Perm (addrs ptr ((item, it) :: es) extra) :=
    List.perm_middle.cons ptr
  refine ⟨?_, ?_, haddrs.nodup_iff.mp h.nodup, fun p => (h.live p).trans haddrs.mem_iff⟩
  · intro e he
    rcases List.mem_cons.mp he with rfl | he
    · exact hitem
    · exact h.items e he
  · refine List.nodup_cons.mpr ⟨fun hmem => ?_, h.bssids⟩
    obtain ⟨e, he, heq⟩ := List.mem_map.mp hmem
    exact hb e he heq.symm

/-- The handler allocates a block. -/
theorem malloc (h : Owned heap ptr es extra) (b : Block) :
    Owned (heap.malloc b) ptr es (heap.next :: extra) := by
  have haddrs : (heap.next :: addrs ptr es extra).Perm (addrs ptr es (heap.next :: extra)) := by
    refine (List.Perm.swap ptr heap.next _).trans (List.Perm.cons ptr ?_)
    exact List.perm_middle.symm
  refine ⟨fun e he => ?_, h.bssids, haddrs.nodup_iff.mp ?_, fun p => ?_⟩
  · exact (itemAt_congr (Heap.block_malloc_live (h.item_live he))).trans (h.items e he)
  · refine List.nodup_cons.mpr ⟨fun hmem => ?_, h.nodup⟩
    exact Nat.lt_irrefl _ ((h.live _).mpr hmem).lt
  · rw [Heap.live_malloc, h.live, ← haddrs.mem_iff, List.mem_cons]

/-- A block that is not an entry's any more is given back. -/
theorem free {extra' : List Nat} (h : Owned heap ptr es extra)
    (haddrs : (addrs ptr es extra).Perm (p :: addrs ptr es' extra')) (hsub : es' ⊆ es)
    (hb : (es'.map fun e => e.2.bssid).Nodup) :
    ∃ heap', heap.free p = some heap' ∧ heap'.next = heap.next ∧
      shellAt heap' ptr = shellAt heap ptr ∧ Owned heap' ptr es' extra' ∧
      ∀ q, q ≠ p → itemAt heap' q = itemAt heap q := by
  have hlive : heap.Live p := (h.live p).mpr (haddrs.mem_iff.mpr List.mem_cons_self)
  obtain ⟨heap', hfree⟩ := Option.isSome_iff_exists.mp (Heap.free_isSome.mpr hlive)
  obtain ⟨hnot, hnd⟩ := List.nodup_cons.mp (haddrs.nodup_iff.mp h.nodup)
  have hother : ∀ q, q ≠ p → heap'.block q = heap.block q := fun q hq => by
    rw [Heap.block_free hfree, if_neg hq]
  have hne : ∀ q ∈ addrs ptr es' extra', q ≠ p := fun q hq heq => hnot (heq ▸ hq)
  refine ⟨heap', hfree, Heap.next_free hfree, shellAt_congr (hother ptr (hne ptr ?_)),
    ⟨fun e he => ?_, hb, hnd, fun q => ?_⟩, fun q hq => itemAt_congr (hother q hq)⟩
  · exact mem_addrs.mpr (Or.inl rfl)
  · have hep : e.1 ≠ p := hne e.1 (mem_addrs.mpr (Or.inr (Or.inl (List.mem_map_of_mem he))))
    exact (itemAt_congr (hother e.1 hep)).trans (h.items e (hsub he))
  · rw [Heap.live_free hfree, h.live, haddrs.mem_iff, List.mem_cons]
    constructor
    · rintro ⟨hq, heq | hmem⟩
      · exact absurd heq hq
      · exact hmem
    · exact fun hmem => ⟨hne q hmem, Or.inr hmem⟩

/-- The handler gives back a block of its own. -/
theorem free_extra (h : Owned heap ptr es (p :: extra)) :
    ∃ heap', heap.free p = some heap' ∧ heap'.next = heap.next ∧
      shellAt heap' ptr = shellAt heap ptr ∧ Owned heap' ptr es extra := by
  have haddrs : (addrs ptr es (p :: extra)).Perm (p :: addrs ptr es extra) :=
    (List.perm_middle.cons ptr).trans (List.Perm.swap p ptr _)
  obtain ⟨heap', h₁, h₂, h₃, h₄, -⟩ := h.free haddrs (List.Subset.refl es) h.bssids
  exact ⟨heap', h₁, h₂, h₃, h₄⟩

/-- The block of an entry is given back. -/
theorem free_entry (h : Owned heap ptr (e :: es) extra) :
    ∃ heap', heap.free e.1 = some heap' ∧ heap'.next = heap.next ∧
      shellAt heap' ptr = shellAt heap ptr ∧ Owned heap' ptr es extra ∧
      ∀ q, q ≠ e.1 → itemAt heap' q = itemAt heap q := by
  have haddrs : (addrs ptr (e :: es) extra).Perm (e.1 :: addrs ptr es extra) :=
    List.Perm.swap e.1 ptr _
  exact h.free haddrs (List.subset_cons_self e es) (List.nodup_cons.mp h.bssids).2

/-- The contents of an item are replaced by others with the same BSSID. -/
theorem store_entry (h : Owned heap ptr (e :: es) extra) (hb : it.bssid = e.2.bssid) :
    ∃ heap', heap.store e.1 (.item it) = some heap' ∧ heap'.next = heap.next ∧
      shellAt heap' ptr = shellAt heap ptr ∧ Owned heap' ptr ((e.1, it) :: es) extra ∧
      ∀ q, q ≠ e.1 → itemAt heap' q = itemAt heap q := by
  have hlive : heap.Live e.1 := h.item_live List.mem_cons_self
  obtain ⟨heap', hst⟩ := Option.isSome_iff_exists.mp (Heap.store_isSome.mpr hlive)
  have hother : ∀ q, q ≠ e.1 → heap'.block q = heap.block q := fun q hq => by
    rw [Heap.block_store hst, if_neg hq]
  have hptr : ptr ≠ e.1 := (h.item_ne_ptr List.mem_cons_self).symm
  have hnot : e.1 ∉ es.map Prod.fst := by
    have hnd := (List.nodup_cons.mp h.nodup).2
    exact fun hmem => (List.nodup_cons.mp hnd).1 (List.mem_append_left _ hmem)
  refine ⟨heap', hst, Heap.next_store hst, shellAt_congr (hother ptr hptr),
    ⟨fun e' he' => ?_, ?_, h.nodup, fun q => ?_⟩, fun q hq => itemAt_congr (hother q hq)⟩
  · rcases List.mem_cons.mp he' with rfl | he'
    · exact itemAt_eq.mpr (by rw [Heap.block_store hst, if_pos rfl])
    · have hne : e'.1 ≠ e.1 := fun heq => hnot (heq ▸ List.mem_map_of_mem he')
      exact (itemAt_congr (hother e'.1 hne)).trans (h.items e' (List.mem_cons_of_mem _ he'))
  · rw [List.map_cons, hb]
    exact h.bssids
  · rw [Heap.live_store hst]
    exact h.live q

/-- The shell is written. -/
theorem store_shell (h : Owned heap ptr es extra) (hlen : es.length ≤ maxBssList) :
    ∃ heap', heap.store ptr (.shell (es.map Prod.fst)) = some heap' ∧ heap'.next = heap.next ∧
      Table heap' ptr es extra := by
  obtain ⟨heap', hst⟩ := Option.isSome_iff_exists.mp (Heap.store_isSome.mpr h.ptr_live)
  refine ⟨heap', hst, Heap.next_store hst, ?_, hlen, fun e he => ?_, h.bssids, h.nodup, fun q => ?_⟩
  · exact shellAt_eq.mpr (by rw [Heap.block_store hst, if_pos rfl])
  · have hblock : heap'.block e.1 = heap.block e.1 := by
      rw [Heap.block_store hst, if_neg (h.item_ne_ptr he)]
    exact (itemAt_congr hblock).trans (h.items e he)
  · rw [Heap.live_store hst]
    exact h.live q

end Owned

/-! ## The operations on the table -/

namespace Table

/-- A new table without entries. -/
theorem new (h : ∀ p, ¬heap.Live p) : Table (heap.malloc (.shell [])) heap.next [] [] where
  shell := shellAt_eq.mpr Heap.block_malloc_same
  length_le := Nat.zero_le _
  owned :=
    { items := by simp
      bssids := List.nodup_nil
      nodup := by simp [addrs]
      live := by
        intro p
        rw [Heap.live_malloc]
        simp [addrs, h p] }

theorem malloc (h : Table heap ptr es extra) (b : Block) :
    Table (heap.malloc b) ptr es (heap.next :: extra) where
  shell := (shellAt_congr (Heap.block_malloc_live h.owned.ptr_live)).trans h.shell
  length_le := h.length_le
  owned := h.owned.malloc b

theorem free_extra (h : Table heap ptr es (p :: extra)) :
    ∃ heap', heap.free p = some heap' ∧ heap'.next = heap.next ∧ Table heap' ptr es extra := by
  obtain ⟨heap', hfree, hnext, hshell, howned⟩ := h.owned.free_extra
  exact ⟨heap', hfree, hnext, hshell.trans h.shell, h.length_le, howned⟩

/-- The item of an entry gets other contents with the same BSSID. -/
theorem store_item (h : Table heap ptr (pre ++ e :: post) extra) (hb : it.bssid = e.2.bssid) :
    ∃ heap', heap.store e.1 (.item it) = some heap' ∧ heap'.next = heap.next ∧
      Table heap' ptr (pre ++ (e.1, it) :: post) extra ∧
      ∀ q, q ≠ e.1 → itemAt heap' q = itemAt heap q := by
  obtain ⟨heap', hst, hnext, hshell, howned, hother⟩ :=
    (h.owned.perm List.perm_middle).store_entry hb
  refine ⟨heap', hst, hnext, ⟨?_, ?_, howned.perm List.perm_middle.symm⟩, hother⟩
  · rw [hshell, h.shell]
    simp
  · simpa using h.length_le

/-- The new item is put behind the last. -/
theorem putItem_append (h : Table heap ptr es (item :: extra)) (hitem : itemAt heap item = some it)
    (hlen : es.length < maxBssList) (hb : ∀ e ∈ es, it.bssid ≠ e.2.bssid) :
    ∃ heap', putItem heap ptr item none = some heap' ∧ heap'.next = heap.next ∧
      Table heap' ptr (es ++ [(item, it)]) extra := by
  have howned : Owned heap ptr (es ++ [(item, it)]) extra :=
    (h.owned.adopt hitem hb).perm (List.perm_append_singleton _ _).symm
  obtain ⟨heap', hst, hnext, htable⟩ := howned.store_shell (by rw [List.length_append]; exact hlen)
  refine ⟨heap', ?_, hnext, htable⟩
  rw [putItem, h.shell]
  simp only [Option.bind_eq_bind, Option.bind_some, List.length_map, if_pos hlen]
  rw [← hst, List.map_append]
  rfl

/-- The new item is put into the slot of an entry with its BSSID, whose block is freed. -/
theorem putItem_replace (h : Table heap ptr (pre ++ e :: post) (item :: extra))
    (hitem : itemAt heap item = some it) (hb : it.bssid = e.2.bssid) :
    ∃ heap', putItem heap ptr item (some pre.length) = some heap' ∧
      heap'.next = heap.next ∧ Table heap' ptr (pre ++ (item, it) :: post) extra := by
  obtain ⟨heap₁, hfree, hnext₁, -, howned₁, hother⟩ :=
    (h.owned.perm List.perm_middle).free_entry
  have hne : item ≠ e.1 := by
    intro heq
    have hnd := (List.nodup_cons.mp h.owned.nodup).2
    have hdis := (List.nodup_append.mp hnd).2.2
    exact hdis e.1 (List.mem_map_of_mem (by simp)) item (by simp) heq.symm
  have hbssids : ∀ e' ∈ pre ++ post, it.bssid ≠ e'.2.bssid := by
    intro e' he' heq
    have hnd := (h.owned.perm List.perm_middle).bssids
    rw [List.map_cons, List.nodup_cons] at hnd
    exact hnd.1 (hb ▸ heq ▸ List.mem_map_of_mem he')
  have howned : Owned heap₁ ptr (pre ++ (item, it) :: post) extra :=
    (howned₁.adopt ((hother item hne).trans hitem) hbssids).perm List.perm_middle.symm
  have hlen : (pre ++ (item, it) :: post).length ≤ maxBssList := by simpa using h.length_le
  obtain ⟨heap', hst, hnext, htable⟩ := howned.store_shell hlen
  refine ⟨heap', ?_, hnext.trans hnext₁, htable⟩
  have hold : ((pre ++ e :: post).map Prod.fst)[pre.length]? = some e.1 := by simp
  rw [putItem, h.shell]
  simp only [Option.bind_eq_bind, Option.bind_some, hold, hfree]
  rw [← hst]
  simp

/-- All blocks of the table are given back. -/
theorem srFreeAll_eq (h : Table heap ptr es []) :
    ∃ heap', srFreeAll heap ptr = some heap' ∧ heap'.next = heap.next ∧ ∀ p, ¬heap'.Live p := by
  have hnd := List.nodup_cons.mp h.owned.nodup
  rw [List.append_nil] at hnd
  have hlive : ∀ p ∈ es.map Prod.fst, heap.Live p := fun p hp =>
    (h.owned.live p).mpr (mem_addrs.mpr (Or.inr (Or.inl hp)))
  obtain ⟨heap₁, hfree, hnext, hblock⟩ := Heap.freeAll_eq hlive hnd.2
  have hptr : heap₁.Live ptr := by
    rw [Heap.Live, hblock, if_neg hnd.1]
    exact h.owned.ptr_live
  obtain ⟨heap', hlast⟩ := Option.isSome_iff_exists.mp (Heap.free_isSome.mpr hptr)
  refine ⟨heap', ?_, (Heap.next_free hlast).trans hnext, fun p hp => ?_⟩
  · rw [srFreeAll, h.shell]
    simp only [Option.bind_eq_bind, Option.bind_some, hfree, hlast]
  · obtain ⟨hne, hp⟩ := (Heap.live_free hlast).mp hp
    rw [Heap.Live, hblock] at hp
    split at hp
    · cases hp
    · next hnot =>
      rcases mem_addrs.mp ((h.owned.live p).mp hp) with h' | h' | h'
      · exact hne h'
      · exact hnot h'
      · cases h'

/-- The entries are sorted by their levels. -/
theorem sortScanResult_eq (h : Table heap ptr es []) :
    ∃ heap' es', sortScanResult heap ptr = some heap' ∧ heap'.next = heap.next ∧
      Table heap' ptr es' [] ∧ es'.Perm es ∧
      es'.Pairwise fun a b => b.2.level ≤ a.2.level := by
  let key : Nat → Int := fun p => (itemAt heap p).elim 0 (·.level)
  have hkey : ∀ e ∈ es, key e.1 = e.2.level := fun e he => by
    simp only [key, h.owned.items e he]
    rfl
  have hperm : (exchangeSort (fun e : Entry => key e.1) es).Perm es := exchangeSort_perm es
  obtain ⟨heap', hst, hnext, htable⟩ := (h.owned.perm hperm.symm).store_shell
    (hperm.length_eq ▸ h.length_le)
  have hall : (es.map Prod.fst).all (fun p => (itemAt heap p).isSome) = true := by
    rw [List.all_eq_true]
    intro p hp
    obtain ⟨e, he, rfl⟩ := List.mem_map.mp hp
    rw [h.owned.items e he]
    rfl
  refine ⟨heap', _, ?_, hnext, htable, hperm, ?_⟩
  · rw [sortScanResult, h.shell]
    simp only [Option.bind_eq_bind, Option.bind_some, hall, if_true]
    rw [exchangeSort_map]
    exact hst
  · have hsorted : (exchangeSort (fun e : Entry => key e.1) es).Pairwise
        fun a b => key b.1 ≤ key a.1 := exchangeSort_sorted es
    refine hsorted.imp_of_mem ?_
    intro a b ha hb hab
    rw [← hkey a (hperm.mem_iff.mp ha), ← hkey b (hperm.mem_iff.mp hb)]
    exact hab

end Table

end TuyaSdk.ScanResult
