import TuyaSdk.TuyaMemHeap.Debug

/-!
# The size arithmetic of the allocating entry points

`MEM_Allocate` refuses a size that it cannot round up in 32 bits. `tuya_mem_heap_realloc` and
`MEM_AllocateDebug` round it themselves, without that check, so that the largest sizes become small
requests.
-/

namespace TuyaSdk.TuyaMemHeap
open TuyaSdk.Lib

/-- The handle is 0 or that of the heap in slot `i`. -/
def Reaches (handle : HeapHandle) (i : Fin memHeapListNum) : Prop := handle = none ∨ handle = some i

section Calls

variable {s : HeapState} {i : Fin memHeapListNum} {b : Block} {handle : HeapHandle}

/-- `tuya_mem_heap_malloc` returns NULL and changes nothing, or allocates in one of the heaps. -/
theorem tuyaMemHeapMalloc_cases (h : HeapsOk s) (hh : ∀ i ∈ handle, LiveHeap s i) {n : Nat}
    (hn : n < 2 ^ 32) :
    ∃ s' p, tuyaMemHeapMalloc s handle n = some (s', p) ∧
      (p = 0 ∧ s' = s ∨ ∃ j bs c bs', HeapInv s j bs ∧
        Allocates s j bs (roundedSize (clamp4 n)) s' c bs' ∧ OnSlot s j s' (sub32 s.heapFreeSize c.size) ∧
        p = c.addr + 4 ∧ clamp4 n + 5 ≤ c.size ∧ requestSize n < 2 ^ 32) := by
  have hone : ∀ j s' p, LiveHeap s j → memAllocate s j n = some (s', p) →
      p = 0 ∧ s' = s ∨ ∃ j bs c bs', HeapInv s j bs ∧
        Allocates s j bs (roundedSize (clamp4 n)) s' c bs' ∧ OnSlot s j s' (sub32 s.heapFreeSize c.size) ∧
        p = c.addr + 4 ∧ clamp4 n + 5 ≤ c.size ∧ requestSize n < 2 ^ 32 := by
    intro j s' p hj hrun
    obtain ⟨bs, hinv⟩ := h j hj
    obtain ⟨s₁, p₁, hrun₁, hcase⟩ := memAllocate_outcome hinv hn
    rw [hrun] at hrun₁
    cases hrun₁
    rcases hcase with ⟨hp, hs, -⟩ | ⟨c, bs', ha, hp, hroom, hslot, -, hlt, -⟩
    · exact Or.inl ⟨hp, hs⟩
    · exact Or.inr ⟨j, bs, c, bs', hinv, ha, hslot, hp, hroom, hlt⟩
  cases handle with
  | some j =>
    have hj := hh j rfl
    obtain ⟨bs, hinv⟩ := h j hj
    obtain ⟨s', p, hrun, -⟩ := memAllocate_outcome hinv hn
    exact ⟨s', p, hrun, hone j s' p hj hrun⟩
  | none =>
    obtain ⟨s', p, hrun, hcase⟩ := mallocAny_spec h hn (List.finRange memHeapListNum)
    refine ⟨s', p, hrun, ?_⟩
    rcases hcase with ⟨hp, hs, -⟩ | ⟨-, j, hj, hone'⟩
    · exact Or.inl ⟨hp, hs⟩
    · exact hone j s' p hj hone'

/-- The handle-0 loop of `tuya_mem_heap_free` stops at an empty slot. -/
theorem freeAny_hole {p : Nat} {slots : List (Fin memHeapListNum)}
    (hsorted : slots.Pairwise (· < ·)) {j : Fin memHeapListNum} (hj : j ∈ slots)
    (hdead : ¬LiveHeap s j) (hout : ∀ k < j, ¬InRegion (s.memHeapList k) p)
    (htop : ∀ k, LiveHeap s k → (s.memHeapList k).base + (s.memHeapList k).size < 2 ^ 32) :
    freeAny s p slots = some s := by
  induction slots with
  | nil => rfl
  | cons a slots ih =>
    obtain ⟨hlt, hsorted⟩ := List.pairwise_cons.mp hsorted
    by_cases ha : (s.memHeapList a).size > 0
    · have haj : a ≠ j := by
        rintro rfl
        exact hdead ha
      have hj' : j ∈ slots := (List.mem_cons.mp hj).resolve_left haj.symm
      have hout' : ¬(p > (s.memHeapList a).base ∧
          p < (s.memHeapList a).base + (s.memHeapList a).size) :=
        fun ⟨h1, h2⟩ => hout a (hlt j hj') ⟨h1.le, h2⟩
      rw [freeAny, if_pos ha, u32_of_lt (htop a ha), if_neg hout']
      exact ih hsorted hj'
    · rw [freeAny, if_neg ha]

/-- `tuya_mem_heap_free` of a block in use releases it, or does nothing: without a handle, when a
slot before that of the heap is empty. -/
theorem tuyaMemHeapFree_cases (h : TableOk s) (hb : LiveBlock s i b) (hr : Reaches handle i) :
    tuyaMemHeapFree s handle (b.addr + 4) = memDeallocate s i (b.addr + 4) ∧
        (handle = some i ∨ ∀ j ≤ i, LiveHeap s j) ∨
      tuyaMemHeapFree s handle (b.addr + 4) = some s ∧ handle = none ∧ ∃ j < i, ¬LiveHeap s j := by
  obtain ⟨bs, hinv, hmem, -⟩ := hb
  rcases hr with rfl | rfl
  · have hin := hinv.ptr_inRegion hmem
    have hout : ∀ j, j ≠ i → ¬InRegion (s.memHeapList j) (b.addr + 4) :=
      fun j hj hx => hj (h.owner_unique hx ⟨hin.1.le, hin.2⟩)
    by_cases hbefore : ∀ j ≤ i, LiveHeap s j
    · exact Or.inl ⟨freeAny_eq (List.pairwise_lt_finRange _) (List.mem_finRange i) hbefore hin h.top
        hout, Or.inr hbefore⟩
    · push Not at hbefore
      obtain ⟨j, hji, hdead⟩ := hbefore
      have hlt : j < i := lt_of_le_of_ne hji fun heq => hdead (heq ▸ hinv.liveHeap)
      exact Or.inr ⟨freeAny_hole (List.pairwise_lt_finRange _) (List.mem_finRange j) hdead
        (fun k hk => hout k (hk.trans hlt).ne) h.top, rfl, j, hlt, hdead⟩
  · exact Or.inl ⟨rfl, Or.inl rfl⟩

/-- A block in use that is not the one released stays in use. -/
theorem Frees.keeps {s' : HeapState} {bs bs' : List Block} (h : TableOk s) (hinv : HeapInv s i bs)
    (hf : Frees s i bs b s' bs') (hslot : ∀ j, j ≠ i → s'.memHeapList j = s.memHeapList j)
    {j : Fin memHeapListNum} {c : Block} (hc : LiveBlock s j c) (hne : j = i → c ≠ b) :
    LiveBlock s' j c := by
  by_cases hji : j = i
  · subst hji
    obtain ⟨cs, hcs, hmem, hu⟩ := hc
    rw [hcs.unique hinv] at hmem
    obtain ⟨hmem', hu'⟩ := (hf.releases.mem_used hinv.rep.tiles hinv.rep.sizes c).mpr
      ⟨hmem, hu, hne rfl⟩
    exact ⟨bs', hf.inv, hmem', hu'⟩
  · exact h.keeps_block hji hc hslot fun x hx => hf.outside hx

/-- The state between the allocation and the copy of a call that moves the block `b`. -/
theorem Allocates.moves {s₁ : HeapState} {j : Fin memHeapListNum} {n : Nat} {c : Block}
    {bs cs' : List Block} (h : TableOk s) (hinv : HeapInv s j bs)
    (ha : Allocates s j bs n s₁ c cs') (hslot : ∀ k, k ≠ j → s₁.memHeapList k = s.memHeapList k)
    (hb : LiveBlock s i b) {m : Mem} (hout : ∀ x, x ∉ Payload c → m x = s₁.mem x) :
    TableOk { s₁ with mem := m } ∧ LiveBlock { s₁ with mem := m } i b ∧
      LiveBlock { s₁ with mem := m } j c ∧ (i = j → b ≠ c) := by
  obtain ⟨hc, hcu⟩ := (ha.takes.mem_used c).mpr (Or.inl rfl)
  have hinv' : HeapInv { s₁ with mem := m } j cs' := ha.inv.writePayload hc hcu hout
  have hregion : ∀ x, ¬InRegion (s.memHeapList j) x → m x = s.mem x := by
    intro x hx
    refine (hout x fun hin => hx ?_).trans (ha.outside hinv hx)
    have hx' := ha.inv.block_inRegion hc (x := x) (by have := hin.1; omega) (by have := hin.2; omega)
    unfold InRegion at hx' ⊢
    rw [ha.same.1, ha.same.2] at hx'
    exact hx'
  refine ⟨h.change hinv' hslot ha.same hregion, ?_, ⟨cs', hinv', hc, hcu⟩, ?_⟩
  · by_cases hij : i = j
    · subst hij
      obtain ⟨cs, hcs, hmem, hu⟩ := hb
      rw [hcs.unique hinv] at hmem
      obtain ⟨hmem', -⟩ := (ha.takes.mem_used b).mpr (Or.inr ⟨hmem, hu⟩)
      exact ⟨cs', hinv', hmem', hu⟩
    · exact h.keeps_block hij hb hslot hregion
  · rintro rfl rfl
    obtain ⟨cs, hcs, hmem, hu⟩ := hb
    rw [hcs.unique hinv] at hmem
    exact ha.takes.fresh hinv.rep.tiles hinv.rep.sizes hmem hu

/-- `tuya_mem_heap_realloc` of a block in use, with its heap's handle or with 0: a pointer that is
returned is to a block in use that holds the bytes. -/
theorem tuyaMemHeapRealloc_holds (h : TableOk s) (hb : LiveBlock s i b) (hr : Reaches handle i)
    {size : Nat} (hsize : size < 2 ^ 32 - 8) :
    ∃ s' p, tuyaMemHeapRealloc s handle (b.addr + 4) size = some (s', p) ∧
      (p = 0 ∧ s' = s ∨ ∃ j c, LiveBlock s' j c ∧ p = c.addr + 4 ∧ size + 5 ≤ c.size) := by
  obtain ⟨bs, hinv, hmem, hu⟩ := id hb
  obtain ⟨hb0, h12, htop⟩ := hinv.bounds hmem
  obtain ⟨hc4, hcle, hwrap⟩ := clamp4_spec size
  have hlt : clamp4 size < 2 ^ 32 - 8 := by omega
  obtain ⟨h4, hfit, -⟩ := roundedSize_spec hc4 hlt
  have hok := hinv.rep.blocks b hmem
  have hb4 := (hinv.rep.sizes b hmem).1
  have hblock : sub32 (b.addr + 4) 4 = b.addr := by
    rw [sub32_of_le (by omega) (by omega), Nat.add_sub_cancel]
  have hdog : memDogAddr s.mem b.addr = b.addr + b.size - 1 :=
    memDogAddr_eq hok.size (by omega) htop
  have huse : s.mem (b.addr + b.size - 1) = memBlockStatUse := by
    rw [hok.dog, hu]
    rfl
  have hclamp : (if size < 4 then 4 else size) = clamp4 size := rfl
  unfold tuyaMemHeapRealloc
  rw [if_neg (by omega)]
  simp only [hblock, hdog, huse, hok.size, hclamp, ne_eq, not_true, if_false]
  by_cases hstay : roundedSize (clamp4 size) ≤ b.size
  · exact ⟨s, b.addr + 4, if_pos hstay, Or.inr ⟨i, b, hb, rfl, by omega⟩⟩
  · rw [if_neg hstay]
    have hlive : ∀ j ∈ handle, LiveHeap s j := by
      intro j hj
      rcases hr with rfl | rfl
      · cases hj
      · cases hj
        exact hinv.liveHeap
    obtain ⟨s₁, p, hrun, hcase⟩ := tuyaMemHeapMalloc_cases h.heaps hlive
      (n := clamp4 size) (by omega)
    rw [clamp4_idem] at hcase
    rw [hrun]
    rcases hcase with ⟨rfl, rfl⟩ | ⟨j, js, c, cs, hjinv, ha, hslot, rfl, hroom, -⟩
    · exact ⟨s₁, 0, rfl, Or.inl ⟨rfl, rfl⟩⟩
    · have hfits := ha.takes.fits
      have hcb := (ha.takes.mem_used c).mpr (Or.inl rfl)
      obtain ⟨hc0, -, hctop⟩ := ha.inv.bounds hcb.1
      have hmb := h.heaps
      have hsize₁ : blockSize s₁.mem b.addr = b.size := by
        obtain ⟨-, ⟨ds, hds, hdb, -⟩, -⟩ :=
          ha.moves h hjinv hslot.others hb (m := s₁.mem) fun x _ => rfl
        exact (hds.rep.blocks b hdb).size
      have hn : sub32 b.size 4 = b.size - 4 := sub32_of_le (by omega) (by omega)
      have hout : ∀ x, x ∉ Payload c →
          memcpy s₁.mem (c.addr + 4) (b.addr + 4) (b.size - 4) x = s₁.mem x := by
        intro x hx
        apply memcpy_apply
        by_contra hin
        exact hx ⟨by omega, by omega⟩
      obtain ⟨htable, hb₂, hc₂, hne⟩ := ha.moves h hjinv hslot.others hb hout
      simp only [hsize₁, hn]
      rw [if_neg (by omega)]
      rcases tuyaMemHeapFree_cases htable hb₂ hr with ⟨heq, -⟩ | ⟨heq, -⟩
      · obtain ⟨ds, hds, hdb, hdu⟩ := hb₂
        obtain ⟨s', ds', hrun', hf, hslot'⟩ := memDeallocate_outcome hds hdb hdu
        rw [heq, hrun']
        exact ⟨s', c.addr + 4, rfl, Or.inr ⟨j, c,
          hf.keeps htable hds hslot'.others hc₂ fun hji => (hne hji.symm).symm, rfl, by omega⟩⟩
      · rw [heq]
        exact ⟨_, c.addr + 4, rfl, Or.inr ⟨j, c, hc₂, rfl, by omega⟩⟩

/-- One of the last eight sizes, rounded up, is less than the size of any block, so the pointer
is returned as it is. -/
theorem tuyaMemHeapRealloc_wraps (handle : HeapHandle) (hb : LiveBlock s i b) {size : Nat}
    (hsize : 2 ^ 32 - 8 ≤ size) (hlt : size < 2 ^ 32) :
    tuyaMemHeapRealloc s handle (b.addr + 4) size = some (s, b.addr + 4) := by
  obtain ⟨bs, hinv, hmem, hu⟩ := hb
  obtain ⟨hb0, h12, htop⟩ := hinv.bounds hmem
  have hok := hinv.rep.blocks b hmem
  have hblock : sub32 (b.addr + 4) 4 = b.addr := by
    rw [sub32_of_le (by omega) (by omega), Nat.add_sub_cancel]
  have hdog : memDogAddr s.mem b.addr = b.addr + b.size - 1 :=
    memDogAddr_eq hok.size (by omega) htop
  have huse : s.mem (b.addr + b.size - 1) = memBlockStatUse := by
    rw [hok.dog, hu]
    rfl
  have hround := roundedSize_wraps hsize hlt
  unfold tuyaMemHeapRealloc
  rw [if_neg (by omega)]
  simp only [hblock, hdog, huse, hok.size, ne_eq, not_true, if_false]
  rw [if_neg (show ¬size < 4 by omega), if_pos (by omega)]

end Calls

/-! ## The entry points -/

/-- A call of an allocating entry point, less the handle and the size. -/
inductive Entry
  | realloc (ptr : Nat)
  | debugMalloc (filename line : BitVec 32)
  | debugCalloc (filename line : BitVec 32)

namespace Entry

def call (s : HeapState) (handle : HeapHandle) (size : Nat) : Entry → Option (HeapState × Nat)
  | realloc ptr => tuyaMemHeapRealloc s handle ptr size
  | debugMalloc filename line => tuyaMemHeapDebugMalloc s handle size filename.toNat line.toNat
  | debugCalloc filename line => tuyaMemHeapDebugCalloc s handle size filename.toNat line.toNat

/-- The pointer given to `realloc` is NULL or that of a block in use in a heap of the handle. -/
def Permitted (s : HeapState) (handle : HeapHandle) : Entry → Prop
  | realloc ptr => ptr = 0 ∨ ∃ i b, LiveBlock s i b ∧ ptr = b.addr + 4 ∧ Reaches handle i
  | _ => True

/-- The block size for the request does not fit in 32 bits. -/
def Wraps (size : Nat) : Entry → Prop
  | realloc _ => 2 ^ 32 ≤ requestSize size
  | _ => 2 ^ 32 ≤ requestSize (debugRequest size)

/-- The pointer is to a block in use with room for the bytes, and for the complete record behind
them when the call leaves one. -/
def Holds (s : HeapState) (p size : Nat) : Entry → Prop
  | realloc _ => ∃ i b, LiveBlock s i b ∧ p = b.addr + 4 ∧ size + 5 ≤ b.size
  | debugMalloc filename line | debugCalloc filename line =>
    ∃ i b, HoldsRecord s i b size filename.toNat line.toNat ∧ p = b.addr + 4

/-- The call returns; a pointer is to a block that holds what was asked for; NULL leaves
everything as it was, and is returned when the rounding does not fit in 32 bits. -/
def SizesOk (s : HeapState) (handle : HeapHandle) (size : Nat) (e : Entry) : Prop :=
  ∃ s' p, e.call s handle size = some (s', p) ∧ (p ≠ 0 → e.Holds s' p size) ∧ (p = 0 → s' = s) ∧
    (e.Wraps size → p = 0)

/-- The size is below the last eight, where a block is reallocated; a debug call can add its record
to the size in 32 bits, or no heap could serve what becomes of the size when it cannot. -/
def Computes (s : HeapState) (handle : HeapHandle) (size : Nat) : Entry → Prop
  | realloc ptr => ptr = 0 ∨ size < 2 ^ 32 - 8
  | _ => debugRequest size < 2 ^ 32 ∨ Refused s handle size

end Entry

section SizesOk

variable {s : HeapState} {handle : HeapHandle} {size : Nat}

theorem debugRequest_lt_iff : debugRequest size < 2 ^ 32 ↔ size ≤ 2 ^ 32 - 20 := by
  unfold debugRequest memAlignNum memDbgLeakSize
  omega

/-- A request that fits in 32 bits with its record but not with its rounding is refused. -/
theorem refused_of_wraps (hsize : debugRequest size < 2 ^ 32)
    (hwraps : 2 ^ 32 ≤ requestSize (debugRequest size)) : Refused s handle size := by
  intro i bs _ _
  rw [debugSize_eq (debugRequest_lt_iff.mp hsize)]
  exact Or.inr (Or.inl hwraps)

/-- Stores in the bytes that were asked for leave the block and its record. -/
theorem HoldsRecord.store {i : Fin memHeapListNum} {b : Block} {filename line : Nat}
    (h : HoldsRecord s i b size filename line) {m : Mem}
    (hout : ∀ x, x < b.addr + 4 ∨ b.addr + 4 + size ≤ x → m x = s.mem x) :
    HoldsRecord { s with mem := m } i b size filename line := by
  have hroom := h.room
  obtain ⟨bs, hinv, hb, hu⟩ := h.live
  refine ⟨⟨bs, hinv.writePayload hb hu fun x hx => hout x ?_, hb, hu⟩, hroom, ?_⟩
  · by_contra hin
    exact hx ⟨by omega, by omega⟩
  · rw [← h.leak]
    exact readLeak_congr fun x hx _ => hout x (by omega)

/-- NULL for every request that wraps is NULL for those that are computed without the record's
wrapping being noticed. -/
theorem computes_iff {p : Nat} (hnull : p = 0 ↔ Refused s handle size) :
    (2 ^ 32 ≤ requestSize (debugRequest size) → p = 0) ↔
      debugRequest size < 2 ^ 32 ∨ Refused s handle size := by
  constructor
  · intro hwraps
    by_cases hsize : debugRequest size < 2 ^ 32
    · exact Or.inl hsize
    · have hreq : debugRequest size ≤ requestSize (debugRequest size) := by
        unfold requestSize memAlignNum memBlockHeadSize
        omega
      exact Or.inr (hnull.mp (hwraps (by omega)))
  · rintro (hsize | hr) hwraps
    · exact hnull.mpr (refused_of_wraps hsize hwraps)
    · exact hnull.mpr hr

theorem debugMalloc_sizesOk (h : HeapsOk s) (hh : ∀ i ∈ handle, LiveHeap s i)
    (filename line : BitVec 32) :
    (Entry.debugMalloc filename line).SizesOk s handle size ↔
      (Entry.debugMalloc filename line).Computes s handle size := by
  obtain ⟨s', p, hrun, hnull, hsame⟩ :=
    tuyaMemHeapDebugMalloc_null h hh size filename.toNat line.toNat
  constructor
  · rintro ⟨s₁, p₁, hrun₁, -, -, hwraps⟩
    have heq := Option.some.inj (hrun.symm.trans hrun₁)
    cases heq
    exact (computes_iff hnull).mp hwraps
  · intro hok
    refine ⟨s', p, hrun, fun hp => ?_, hsame, (computes_iff hnull).mpr hok⟩
    have hsize : debugRequest size < 2 ^ 32 := hok.resolve_right fun hr => hp (hnull.mpr hr)
    obtain ⟨s₁, p₁, hrun₁, hcase⟩ := tuyaMemHeapDebugMalloc_spec h hh
      (debugRequest_lt_iff.mp hsize) filename.isLt line.isLt
    rw [hrun] at hrun₁
    cases hrun₁
    rcases hcase with ⟨h0, -⟩ | ⟨i, b, bs, bs', -, -, hpb, hrec⟩
    · exact absurd h0 hp
    · exact ⟨i, b, hrec, hpb⟩

theorem debugCalloc_sizesOk (h : HeapsOk s) (hh : ∀ i ∈ handle, LiveHeap s i)
    (filename line : BitVec 32) :
    (Entry.debugCalloc filename line).SizesOk s handle size ↔
      (Entry.debugCalloc filename line).Computes s handle size := by
  obtain ⟨s', p, hrun, hnull, hsame⟩ :=
    tuyaMemHeapDebugMalloc_null h hh size filename.toNat line.toNat
  have hcall : (Entry.debugCalloc filename line).call s handle size =
      some (if p ≠ 0 then ({ s' with mem := memset s'.mem p 0 size }, p) else (s', p)) := by
    show (tuyaMemHeapDebugMalloc s handle size filename.toNat line.toNat).map _ = _
    rw [hrun]
    rfl
  constructor
  · rintro ⟨s₁, p₁, hrun₁, -, -, hwraps⟩
    have heq := Option.some.inj (hcall.symm.trans hrun₁)
    have hp : p₁ = p := by
      by_cases hp : p ≠ 0
      · rw [if_pos hp] at heq
        exact (congrArg Prod.snd heq).symm
      · rw [if_neg hp] at heq
        exact (congrArg Prod.snd heq).symm
    rw [hp] at hwraps
    exact (computes_iff hnull).mp hwraps
  · intro hok
    by_cases hp : p = 0
    · rw [if_neg (not_not.mpr hp)] at hcall
      exact ⟨s', p, hcall, fun h0 => absurd hp h0, hsame, fun _ => hp⟩
    · rw [if_pos hp] at hcall
      refine ⟨_, p, hcall, fun _ => ?_, fun h0 => absurd h0 hp, (computes_iff hnull).mpr hok⟩
      obtain ⟨s₁, p₁, hrun₁, hholds, -⟩ := (debugMalloc_sizesOk h hh filename line).mpr hok
      have heq := Option.some.inj (hrun.symm.trans hrun₁)
      cases heq
      obtain ⟨i, b, hrec, hpb⟩ := hholds hp
      rw [hpb]
      exact ⟨i, b, hrec.store fun x hx => if_neg (by omega), rfl⟩

theorem realloc_sizesOk (h : TableOk s) (hh : ∀ i ∈ handle, LiveHeap s i) {ptr : Nat}
    (hp : (Entry.realloc ptr).Permitted s handle) (hlt : size < 2 ^ 32) :
    (Entry.realloc ptr).SizesOk s handle size ↔ (Entry.realloc ptr).Computes s handle size := by
  have hwraps := requestSize_overflow size
  have hclamp := clamp4_spec size
  rcases hp with rfl | ⟨i, b, hb, rfl, hr⟩
  · refine iff_of_true ?_ (Or.inl rfl)
    obtain ⟨s', p, hrun, hcase⟩ := tuyaMemHeapMalloc_cases h.heaps hh hlt
    refine ⟨s', p, hrun, ?_⟩
    rcases hcase with ⟨h0, hs⟩ | ⟨j, bs, c, bs', -, ha, -, hp, hroom, hreq⟩
    · exact ⟨fun hne => absurd h0 hne, fun _ => hs, fun _ => h0⟩
    · obtain ⟨hc, hu⟩ := (ha.takes.mem_used c).mpr (Or.inl rfl)
      refine ⟨fun _ => ⟨j, c, ⟨bs', ha.inv, hc, hu⟩, hp, by omega⟩, fun h0 => by omega, fun hw => ?_⟩
      have hw' : 2 ^ 32 ≤ requestSize size := hw
      omega
  · by_cases hsize : size < 2 ^ 32 - 8
    · refine iff_of_true ?_ (Or.inr hsize)
      obtain ⟨s', p, hrun, hcase⟩ := tuyaMemHeapRealloc_holds h hb hr hsize
      refine ⟨s', p, hrun, ?_⟩
      have hno : ¬2 ^ 32 ≤ requestSize size := by
        rw [hwraps]
        omega
      rcases hcase with ⟨h0, hs⟩ | ⟨j, c, hc, hp, hroom⟩
      · exact ⟨fun hne => absurd h0 hne, fun _ => hs, fun hw => absurd hw hno⟩
      · exact ⟨fun _ => ⟨j, c, hc, hp, hroom⟩, fun h0 => by omega, fun hw => absurd hw hno⟩
    · refine iff_of_false ?_ ?_
      · rintro ⟨s', p, hrun, -, -, hw⟩
        have hrun' := tuyaMemHeapRealloc_wraps handle hb (by omega) hlt
        have heq := Option.some.inj (hrun'.symm.trans hrun)
        cases heq
        have hover : 2 ^ 32 ≤ requestSize size := by
          rw [hwraps]
          omega
        exact absurd (hw hover) (by omega)
      · rintro (h0 | hlt')
        · omega
        · exact hsize hlt'

/-- The allocating entry points do what they should exactly when their size arithmetic does not
wrap to a request that can be served. -/
theorem sizesOk_iff (h : TableOk s) (hh : ∀ i ∈ handle, LiveHeap s i) (e : Entry)
    (he : e.Permitted s handle) (size : BitVec 32) :
    e.SizesOk s handle size.toNat ↔ e.Computes s handle size.toNat := by
  cases e with
  | realloc ptr => exact realloc_sizesOk h hh he size.isLt
  | debugMalloc filename line => exact debugMalloc_sizesOk h.heaps hh filename line
  | debugCalloc filename line => exact debugCalloc_sizesOk h.heaps hh filename line

end SizesOk

/-! ## A heap of 128 bytes -/

/-- A heap of 128 bytes at 4096, and nothing allocated. -/
def freshHeap : HeapState := (tuyaMemHeapCreate bootState 4096 128).1

theorem freshHeap_ok : TableOk freshHeap :=
  ((heapsInv_noHeaps fun _ => 0).create 4096 128 (by decide)).tableOk

theorem freshHeap_live : ∀ i ∈ (some 0 : HeapHandle), LiveHeap freshHeap i := by
  intro i hi
  cases hi
  decide

theorem sizesOk_iff_fresh : (Entry.debugMalloc 1 2).SizesOk freshHeap (some 0) 4 ↔
    (Entry.debugMalloc 1 2).Computes freshHeap (some 0) 4 :=
  sizesOk_iff freshHeap_ok freshHeap_live (.debugMalloc 1 2) trivial 4

/-- The greatest size becomes a request for 16 bytes, which is served. -/
theorem not_forall_sizesOk :
    ¬∀ (s : HeapState) (handle : HeapHandle) (e : Entry) (size : BitVec 32), TableOk s →
      (∀ i ∈ handle, LiveHeap s i) → e.Permitted s handle → e.SizesOk s handle size.toNat := by
  intro h
  obtain ⟨s', p, hrun, -, -, hwraps⟩ :=
    h freshHeap (some 0) (.debugMalloc 1 2) 0xffffffff freshHeap_ok freshHeap_live trivial
  have hserved : ((Entry.debugMalloc 1 2).call freshHeap (some 0)
      (0xffffffff : BitVec 32).toNat).any (fun r => r.2 ≠ 0) = true := by decide +kernel
  rw [hrun] at hserved
  have hp : p ≠ 0 := of_decide_eq_true hserved
  have hover : (Entry.debugMalloc 1 2).Wraps (0xffffffff : BitVec 32).toNat := by
    show 2 ^ 32 ≤ requestSize (debugRequest (0xffffffff : BitVec 32).toNat)
    decide
  exact hp (hwraps hover)

end TuyaSdk.TuyaMemHeap
