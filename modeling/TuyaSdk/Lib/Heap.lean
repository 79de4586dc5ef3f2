import Mathlib

/-!
# A heap of allocated blocks

Blocks are known by the number of their allocation, so that an address is never given out
twice. Every access to a block that is not allocated any more, and every second free, is `none`:
a program that returns frees every block at most once and uses none after its free.
-/

namespace TuyaSdk.Lib

universe u

/-- The allocated blocks; the addresses from `next` on have not been given out. -/
structure Heap (β : Type u) where
  next : Nat
  block : Nat → Option β
  fresh : ∀ p, next ≤ p → block p = none

namespace Heap

variable {β : Type u}

def empty : Heap β := ⟨0, fun _ => none, fun _ _ => rfl⟩

/-- The block at `p` is allocated. -/
def Live (heap : Heap β) (p : Nat) : Prop := (heap.block p).isSome

instance (heap : Heap β) (p : Nat) : Decidable (heap.Live p) :=
  inferInstanceAs (Decidable (_ = true))

/-- A new block with the contents `b`; its address is `heap.next`. -/
def malloc (heap : Heap β) (b : β) : Heap β where
  next := heap.next + 1
  block := fun p => if p = heap.next then some b else heap.block p
  fresh := by
    intro p hp
    rw [if_neg (by omega)]
    exact heap.fresh p (by omega)

/-- The block at `p` is given back. -/
def free (heap : Heap β) (p : Nat) : Option (Heap β) :=
  if heap.Live p then
    some
      { next := heap.next
        block := fun q => if q = p then none else heap.block q
        fresh := by
          intro q hq
          split
          · rfl
          · exact heap.fresh q hq }
  else none

/-- The block at `p` gets the contents `b`. -/
def store (heap : Heap β) (p : Nat) (b : β) : Option (Heap β) :=
  if h : heap.Live p then
    some
      { next := heap.next
        block := fun q => if q = p then some b else heap.block q
        fresh := by
          intro q hq
          have hne : q ≠ p := by
            rintro rfl
            rw [Live, heap.fresh q hq] at h
            cases h
          rw [if_neg hne]
          exact heap.fresh q hq }
  else none

variable {heap heap' : Heap β} {p q : Nat} {b : β}

theorem Live.lt (h : heap.Live p) : p < heap.next := by
  by_contra hp
  rw [Live, heap.fresh p (by omega)] at h
  cases h

theorem live_iff : heap.Live p ↔ ∃ b, heap.block p = some b := Option.isSome_iff_exists

theorem not_live_empty (p : Nat) : ¬(empty : Heap β).Live p := by
  simp [Live, empty]

@[simp] theorem block_malloc_same : (heap.malloc b).block heap.next = some b := if_pos rfl

theorem block_malloc_ne (h : p ≠ heap.next) : (heap.malloc b).block p = heap.block p := if_neg h

theorem block_malloc_live (h : heap.Live p) : (heap.malloc b).block p = heap.block p :=
  block_malloc_ne (Nat.ne_of_lt h.lt)

theorem live_malloc : (heap.malloc b).Live p ↔ p = heap.next ∨ heap.Live p := by
  by_cases h : p = heap.next
  · subst h
    exact iff_of_true (by simp [Live]) (Or.inl rfl)
  · rw [Live, block_malloc_ne h]
    exact ⟨Or.inr, fun h' => h'.resolve_left h⟩

theorem free_isSome : (heap.free p).isSome ↔ heap.Live p := by
  unfold free
  split <;> simp_all

theorem block_free (h : heap.free p = some heap') :
    heap'.block q = if q = p then none else heap.block q := by
  unfold free at h
  split at h
  · cases h
    rfl
  · cases h

theorem next_free (h : heap.free p = some heap') : heap'.next = heap.next := by
  unfold free at h
  split at h
  · cases h
    rfl
  · cases h

theorem live_free (h : heap.free p = some heap') : heap'.Live q ↔ q ≠ p ∧ heap.Live q := by
  rw [Live, block_free h]
  by_cases hq : q = p
  · simp [hq]
  · simp [hq, Live]

theorem store_isSome : (heap.store p b).isSome ↔ heap.Live p := by
  unfold store
  split <;> simp_all

theorem block_store (h : heap.store p b = some heap') :
    heap'.block q = if q = p then some b else heap.block q := by
  unfold store at h
  split at h
  · cases h
    rfl
  · cases h

theorem next_store (h : heap.store p b = some heap') : heap'.next = heap.next := by
  unfold store at h
  split at h
  · cases h
    rfl
  · cases h

theorem live_store (h : heap.store p b = some heap') : heap'.Live q ↔ heap.Live q := by
  have hp : heap.Live p := store_isSome.mp (by rw [h]; rfl)
  rw [Live, block_store h]
  by_cases hq : q = p
  · subst hq
    exact iff_of_true (by simp) hp
  · rw [if_neg hq]
    rfl

/-- The blocks of a list are given back one after the other. -/
def freeAll (heap : Heap β) : List Nat → Option (Heap β)
  | [] => some heap
  | p :: ps => do
    let heap ← heap.free p
    heap.freeAll ps

theorem freeAll_eq {ps : List Nat} (hps : ∀ p ∈ ps, heap.Live p) (hnd : ps.Nodup) :
    ∃ heap', heap.freeAll ps = some heap' ∧ heap'.next = heap.next ∧
      ∀ q, heap'.block q = if q ∈ ps then none else heap.block q := by
  induction ps generalizing heap with
  | nil => exact ⟨heap, rfl, rfl, fun q => by simp⟩
  | cons p ps ih =>
    obtain ⟨hp, hnd⟩ := List.nodup_cons.mp hnd
    obtain ⟨heap₁, h₁⟩ := Option.isSome_iff_exists.mp (free_isSome.mpr (hps p (by simp)))
    have hps₁ : ∀ q ∈ ps, heap₁.Live q := by
      intro q hq
      refine (live_free h₁).mpr ⟨?_, hps q (by simp [hq])⟩
      rintro rfl
      exact hp hq
    obtain ⟨heap', h', hnext, hblock⟩ := ih hps₁ hnd
    refine ⟨heap', by rw [freeAll, h₁]; exact h', hnext.trans (next_free h₁), fun q => ?_⟩
    rw [hblock, block_free h₁]
    by_cases hq : q = p <;> by_cases hqs : q ∈ ps <;> simp [hq, hqs]

/-! ## Owners -/

/-- The allocated blocks are those of the list, which has each of them once. -/
structure Owned (heap : Heap β) (owners : List Nat) : Prop where
  live : ∀ p, heap.Live p ↔ p ∈ owners
  nodup : owners.Nodup

variable {owners owners' : List Nat}

theorem owned_empty : (empty : Heap β).Owned [] :=
  ⟨fun p => iff_of_false (not_live_empty p) List.not_mem_nil, List.nodup_nil⟩

theorem Owned.perm (h : heap.Owned owners) (hp : owners.Perm owners') : heap.Owned owners' :=
  ⟨fun p => (h.live p).trans hp.mem_iff, hp.nodup_iff.mp h.nodup⟩

/-- A new block is owned by the one who asked for it. -/
theorem Owned.malloc (h : heap.Owned owners) (b : β) :
    (heap.malloc b).Owned (heap.next :: owners) where
  live := fun p => live_malloc.trans ((or_congr_right (h.live p)).trans List.mem_cons.symm)
  nodup := List.nodup_cons.mpr
    ⟨fun hmem => absurd ((h.live _).mpr hmem).lt (Nat.lt_irrefl _), h.nodup⟩

/-- A block that nobody owns is lost. -/
theorem Owned.malloc_lost (h : heap.Owned owners) (b : β) : ¬(heap.malloc b).Owned owners :=
  fun h' => absurd ((h.live _).mpr ((h'.live _).mp (live_malloc.mpr (Or.inl rfl)))).lt
    (Nat.lt_irrefl _)

/-- The owner of a block can free it. -/
theorem Owned.free (h : heap.Owned (p :: owners)) : ∃ heap', heap.free p = some heap' ∧
    heap'.Owned owners ∧ ∀ q ≠ p, heap'.block q = heap.block q := by
  obtain ⟨heap', hfree⟩ :=
    Option.isSome_iff_exists.mp (free_isSome.mpr ((h.live p).mpr List.mem_cons_self))
  obtain ⟨hp, hnd⟩ := List.nodup_cons.mp h.nodup
  refine ⟨heap', hfree, ⟨fun q => ?_, hnd⟩, fun q hq => (block_free hfree).trans (if_neg hq)⟩
  rw [live_free hfree, h.live, List.mem_cons]
  constructor
  · rintro ⟨hq, hmem⟩
    exact hmem.resolve_left hq
  · intro hmem
    refine ⟨?_, Or.inr hmem⟩
    rintro rfl
    exact hp hmem

/-- The owner of a block can write it. -/
theorem Owned.store (h : heap.Owned owners) (hp : p ∈ owners) (b : β) :
    ∃ heap', heap.store p b = some heap' ∧ heap'.Owned owners ∧ heap'.block p = some b ∧
      ∀ q ≠ p, heap'.block q = heap.block q := by
  obtain ⟨heap', hstore⟩ := Option.isSome_iff_exists.mp (store_isSome.mpr ((h.live p).mpr hp))
  refine ⟨heap', hstore, ⟨fun q => (live_store hstore).trans (h.live q), h.nodup⟩, ?_, ?_⟩
  · exact (block_store hstore).trans (if_pos rfl)
  · exact fun q hq => (block_store hstore).trans (if_neg hq)

end Heap

end TuyaSdk.Lib
