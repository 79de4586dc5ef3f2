import TuyaSdk.TuyaMemHeap.Entry
import TuyaSdk.Lib.Machine

/-!
# A heap and its callers

One heap handle used by any number of callers. The state is the heap with the pointers
that are live and the bytes that were asked for behind each; a step is a call of `malloc`,
`realloc` or `free`, or a caller storing a byte. `Tracks` relates the live pointers to the
layout and is kept by every call.
-/

namespace TuyaSdk.TuyaMemHeap
open TuyaSdk.Lib

/-- What callers do with a heap handle. -/
inductive Call
  | malloc (size : BitVec 32)
  | realloc (ptr : Nat) (size : BitVec 32)
  | free (ptr : Nat)
  | write (addr : Nat) (byte : Byte)
  deriving DecidableEq, Repr

/-- The heap and the live pointers, each with the number of bytes asked for. -/
structure Client where
  heap : HeapState
  live : List (Nat × Nat)

/-- The pointer a call returns, and the values `heap->free` takes during the call. -/
structure Reply where
  ptr : Nat
  frees : List Nat
  deriving DecidableEq, Repr

/-- The live pointers after `ptr` has been released. -/
def dropPtr (ptr : Nat) (live : List (Nat × Nat)) : List (Nat × Nat) :=
  live.filter fun e => e.1 ≠ ptr

/-- The pointer is live. -/
def IsLive (live : List (Nat × Nat)) (ptr : Nat) : Prop := ∃ n, (ptr, n) ∈ live

/-- `free` and `realloc` are given live pointers or NULL, and callers write only inside the
bytes they asked for. -/
def Permitted (c : Client) : Call → Prop
  | .malloc _ => True
  | .realloc ptr _ => ptr = 0 ∨ ∃ e ∈ c.live, e.1 = ptr
  | .free ptr => ptr = 0 ∨ ∃ e ∈ c.live, e.1 = ptr
  | .write addr _ => ∃ e ∈ c.live, e.1 ≤ addr ∧ addr < e.1 + e.2

instance (c : Client) (k : Call) : Decidable (Permitted c k) := by
  cases k <;> unfold Permitted <;> infer_instance

/-- No live pointer is reallocated to one of the last eight sizes, where the block size of
the request wraps. -/
def WithinLimit : Call → Prop
  | .realloc ptr size => ptr = 0 ∨ size.toNat < 2 ^ 32 - 8
  | _ => True

/-- The values of `heap->free` during a `realloc`: one that moves allocates before it
frees. -/
def reallocFrees (s : HeapState) (i : Fin memHeapListNum) (ptr size : Nat) (s' : HeapState)
    (p : Nat) : List Nat :=
  if ptr = 0 ∨ p = 0 ∨ p = ptr then [(s'.memHeapList i).free]
  else
    match memAllocate s i (clamp4 size) with
    | some (s₁, _) => [(s₁.memHeapList i).free, (s'.memHeapList i).free]
    | none => [(s'.memHeapList i).free]

/-- One call on the handle of slot `i`. -/
def step (i : Fin memHeapListNum) : Machine Client Call Reply
  | c, .malloc size =>
    (tuyaMemHeapMalloc c.heap (some i) size.toNat).map fun (s, p) =>
      (⟨s, if p = 0 then c.live else (p, size.toNat) :: c.live⟩, ⟨p, [(s.memHeapList i).free]⟩)
  | c, .realloc ptr size =>
    (tuyaMemHeapRealloc c.heap (some i) ptr size.toNat).map fun (s, p) =>
      (⟨s, if p = 0 then c.live else (p, size.toNat) :: dropPtr ptr c.live⟩,
        ⟨p, reallocFrees c.heap i ptr size.toNat s p⟩)
  | c, .free ptr =>
    (tuyaMemHeapFree c.heap (some i) ptr).map fun s =>
      (⟨s, dropPtr ptr c.live⟩, ⟨0, [(s.memHeapList i).free]⟩)
  | c, .write addr byte =>
    some (⟨{ c.heap with mem := write8 c.heap.mem addr byte }, c.live⟩, ⟨0, []⟩)

/-! ## Live pointers and used blocks -/

/-- The live pointers are those of the used blocks of the layout, which have room for the
bytes asked for between header and dog byte. -/
structure Tracks (s : HeapState) (i : Fin memHeapListNum) (live : List (Nat × Nat))
    (bs : List Block) : Prop where
  inv : HeapInv s i bs
  block : ∀ p n, (p, n) ∈ live → ∃ b ∈ bs, b.used = true ∧ p = b.addr + 4 ∧ n + 5 ≤ b.size
  held : ∀ b ∈ bs, b.used = true → IsLive live (b.addr + 4)
  nodup : (live.map Prod.fst).Nodup

section Tracks

variable {s s' : HeapState} {i : Fin memHeapListNum} {live : List (Nat × Nat)}
  {bs bs' : List Block} {b : Block}

theorem mem_dropPtr {p ptr n : Nat} : (p, n) ∈ dropPtr ptr live ↔ (p, n) ∈ live ∧ p ≠ ptr := by
  simp [dropPtr]

theorem not_mem_dropPtr (ptr : Nat) : ptr ∉ (dropPtr ptr live).map Prod.fst := by
  simp [dropPtr]

theorem nodup_dropPtr (ptr : Nat) (h : (live.map Prod.fst).Nodup) :
    ((dropPtr ptr live).map Prod.fst).Nodup :=
  h.sublist (List.filter_sublist.map _)

/-- NULL is not live. -/
theorem Tracks.ne_zero (h : Tracks s i live bs) {p n : Nat} (hp : (p, n) ∈ live) : p ≠ 0 := by
  obtain ⟨b, -, -, rfl, -⟩ := h.block p n hp
  omega

/-- Distinct blocks of a layout have distinct addresses. -/
theorem HeapInv.addr_inj (h : HeapInv s i bs) {c : Block} (hb : b ∈ bs) (hc : c ∈ bs)
    (heq : b.addr = c.addr) : b = c := by
  by_contra hne
  have h1 := h.rep.tiles.apart_of_ne hc hb hne
  have h2 := (h.rep.sizes b hb).2
  have h3 := (h.rep.sizes c hc).2
  omega

theorem Tracks.alloc (h : Tracks s i live bs) {n size : Nat} (ha : Allocates s i bs n s' b bs')
    (hroom : size + 5 ≤ b.size) : Tracks s' i ((b.addr + 4, size) :: live) bs' := by
  refine ⟨ha.inv, ?_, ?_, ?_⟩
  · intro p k hp
    rcases List.mem_cons.mp hp with hp | hp
    · cases hp
      have hb := (ha.takes.mem_used b).mpr (Or.inl rfl)
      exact ⟨b, hb.1, hb.2, rfl, hroom⟩
    · obtain ⟨c, hc, hu, hpc, hk⟩ := h.block p k hp
      exact ⟨c, ((ha.takes.mem_used c).mpr (Or.inr ⟨hc, hu⟩)).1, hu, hpc, hk⟩
  · intro c hc hu
    rcases (ha.takes.mem_used c).mp ⟨hc, hu⟩ with rfl | ⟨hc', -⟩
    · exact ⟨size, by simp⟩
    · obtain ⟨k, hk⟩ := h.held c hc' hu
      exact ⟨k, List.mem_cons_of_mem _ hk⟩
  · rw [List.map_cons, List.nodup_cons]
    refine ⟨?_, h.nodup⟩
    -- the block taken was inside a free one, so no live pointer is its
    intro hmem
    obtain ⟨⟨p, k⟩, hp, hpb⟩ := List.mem_map.mp hmem
    obtain ⟨c, hc, hu, hpc, -⟩ := h.block p k hp
    have hcb := ha.takes.apart_used h.inv.rep.tiles hc hu
    have h2 := (h.inv.rep.sizes c hc).2
    have hb := (ha.takes.mem_used b).mpr (Or.inl rfl)
    have h3 := (ha.inv.rep.sizes b hb.1).2
    simp only at hpb
    omega

theorem Tracks.release (h : Tracks s i live bs) (hb : b ∈ bs) (hf : Frees s i bs b s' bs') :
    Tracks s' i (dropPtr (b.addr + 4) live) bs' := by
  have hmem := hf.releases.mem_used h.inv.rep.tiles h.inv.rep.sizes
  refine ⟨hf.inv, ?_, ?_, nodup_dropPtr _ h.nodup⟩
  · intro p n hp
    obtain ⟨hp, hne⟩ := mem_dropPtr.mp hp
    obtain ⟨c, hc, hu, rfl, hn⟩ := h.block p n hp
    refine ⟨c, ((hmem c).mpr ⟨hc, hu, ?_⟩).1, hu, rfl, hn⟩
    rintro rfl
    exact hne rfl
  · intro c hc hu
    obtain ⟨hc', -, hne⟩ := (hmem c).mp ⟨hc, hu⟩
    obtain ⟨n, hn⟩ := h.held c hc' hu
    refine ⟨n, mem_dropPtr.mpr ⟨hn, fun heq => hne ?_⟩⟩
    exact h.inv.addr_inj hc' hb (by omega)

/-- A reallocation in place only changes the number of bytes asked for. -/
theorem Tracks.resize (h : Tracks s i live bs) (hb : b ∈ bs) (hu : b.used = true) {size : Nat}
    (hroom : size + 5 ≤ b.size) :
    Tracks s i ((b.addr + 4, size) :: dropPtr (b.addr + 4) live) bs := by
  refine ⟨h.inv, ?_, ?_, ?_⟩
  · intro p n hp
    rcases List.mem_cons.mp hp with hp | hp
    · cases hp
      exact ⟨b, hb, hu, rfl, hroom⟩
    · exact h.block p n (mem_dropPtr.mp hp).1
  · intro c hc hcu
    by_cases heq : c.addr + 4 = b.addr + 4
    · exact ⟨size, by rw [heq]; simp⟩
    · obtain ⟨n, hn⟩ := h.held c hc hcu
      exact ⟨n, List.mem_cons_of_mem _ (mem_dropPtr.mpr ⟨hn, heq⟩)⟩
  · rw [List.map_cons, List.nodup_cons]
    exact ⟨not_mem_dropPtr _, nodup_dropPtr _ h.nodup⟩

/-- A write to the payload of a used block. -/
theorem Tracks.writePayload (h : Tracks s i live bs) (hb : b ∈ bs) (hu : b.used = true) {m : Mem}
    (hout : ∀ x, x ∉ Payload b → m x = s.mem x) : Tracks { s with mem := m } i live bs :=
  ⟨h.inv.writePayload hb hu hout, h.block, h.held, h.nodup⟩

/-- The payloads of distinct blocks are disjoint. -/
theorem HeapInv.payload_apart (h : HeapInv s i bs) {c : Block} (hb : b ∈ bs) (hc : c ∈ bs)
    (hne : c ≠ b) {x : Nat} (hx : x ∈ Payload b) : x ∉ Payload c := by
  intro hxc
  have h1 := h.rep.tiles.apart_of_ne hb hc hne
  have h2 := hx.1
  have h3 := hx.2
  have h4 := hxc.1
  have h5 := hxc.2
  omega

theorem dropPtr_of_not_live {ptr : Nat} (h : ∀ n, (ptr, n) ∉ live) : dropPtr ptr live = live := by
  rw [dropPtr, List.filter_eq_self]
  rintro ⟨p, n⟩ hp
  simp only [ne_eq, decide_not, Bool.not_eq_true', decide_eq_false_iff_not]
  rintro rfl
  exact h n hp

end Tracks

/-! ## The watermark -/

/-- The watermark is the least of the values that `free` has had, the last of which is the
present one. -/
structure WatermarkOk (heap : MemHeap) (log : List Nat) : Prop where
  current : heap.free ∈ log
  least : IsLeast { v | v ∈ log } heap.freeWatermark

section Watermark

variable {heap heap' : MemHeap} {log : List Nat}

theorem WatermarkOk.lower (h : WatermarkOk heap log)
    (hw : heap'.freeWatermark = min heap.freeWatermark heap'.free) :
    WatermarkOk heap' (log ++ [heap'.free]) := by
  refine ⟨by simp, ?_, ?_⟩
  · simp only [Set.mem_ofPred_eq, List.mem_append, List.mem_singleton]
    rcases Nat.le_total heap.freeWatermark heap'.free with hle | hle
    · rw [hw, min_eq_left hle]
      exact Or.inl h.least.1
    · rw [hw, min_eq_right hle]
      exact Or.inr rfl
  · intro v hv
    simp only [Set.mem_ofPred_eq, List.mem_append, List.mem_singleton] at hv
    rw [hw]
    rcases hv with hv | rfl
    · exact (min_le_left _ _).trans (h.least.2 hv)
    · exact min_le_right _ _

theorem WatermarkOk.raise (h : WatermarkOk heap log)
    (hw : heap'.freeWatermark = heap.freeWatermark) (hf : heap.free ≤ heap'.free) :
    WatermarkOk heap' (log ++ [heap'.free]) := by
  have hle : heap.freeWatermark ≤ heap.free := h.least.2 h.current
  apply h.lower
  rw [hw, min_eq_left (by omega)]

end Watermark

/-! ## One call -/

/-- The call does not release the pointer `p`. -/
def Keeps (p : Nat) : Call → Prop
  | .realloc ptr _ => ptr ≠ p
  | .free ptr => ptr ≠ p
  | _ => True

/-- The call neither releases the pointer `p` nor stores into its `n` bytes. -/
def Spares (p n : Nat) (k : Call) : Prop :=
  Keeps p k ∧ ∀ addr byte, k = .write addr byte → ¬(p ≤ addr ∧ addr < p + n)

/-- What a call does to a heap that is in order: the pointers stay in step with the layout,
the watermark with the values of `free`; a live pointer that is not released keeps its
block, and one that the call spares also the bytes in it. -/
structure CallOk (i : Fin memHeapListNum) (c : Client) (bs : List Block) (k : Call) (c' : Client)
    (r : Reply) (bs' : List Block) : Prop where
  tracks : Tracks c'.heap i c'.live bs'
  same : SameRegion (c.heap.memHeapList i) (c'.heap.memHeapList i)
  watermark : ∀ log, WatermarkOk (c.heap.memHeapList i) log →
    WatermarkOk (c'.heap.memHeapList i) (log ++ r.frees)
  kept : ∀ n b, (b.addr + 4, n) ∈ c.live → b ∈ bs → b.used = true → Keeps (b.addr + 4) k →
    (b.addr + 4, n) ∈ c'.live ∧ b ∈ bs'
  frame : ∀ n b, (b.addr + 4, n) ∈ c.live → b ∈ bs → b.used = true → Spares (b.addr + 4) n k →
    Set.EqOn c'.heap.mem c.heap.mem (Payload b)

section Step

variable {c : Client} {i : Fin memHeapListNum} {bs : List Block}

/-- A call that returns NULL and leaves the heap alone. -/
theorem CallOk.refused (h : Tracks c.heap i c.live bs) (k : Call) :
    CallOk i c bs k ⟨c.heap, c.live⟩ ⟨0, [(c.heap.memHeapList i).free]⟩ bs :=
  ⟨h, ⟨rfl, rfl⟩, fun _ hw => hw.raise rfl (Nat.le_refl _), fun _ _ hl hb _ _ => ⟨hl, hb⟩,
    fun _ _ _ _ _ _ _ _ => rfl⟩

/-- A call that allocates the block `b`. -/
theorem CallOk.allocated (h : Tracks c.heap i c.live bs) (k : Call) {n size : Nat} {s' : HeapState}
    {b : Block} {bs' : List Block} (ha : Allocates c.heap i bs n s' b bs')
    (hroom : size + 5 ≤ b.size) :
    CallOk i c bs k ⟨s', (b.addr + 4, size) :: c.live⟩
      ⟨b.addr + 4, [(s'.memHeapList i).free]⟩ bs' := by
  refine ⟨h.alloc ha hroom, ha.same, fun _ hw => hw.lower ha.watermark, ?_, ?_⟩
  · intro n d hl hd hu _
    exact ⟨List.mem_cons_of_mem _ hl, ((ha.takes.mem_used d).mpr (Or.inr ⟨hd, hu⟩)).1⟩
  · intro n d _ hd hu _ x hx
    have h1 := hx.1
    have h2 := hx.2
    exact ha.mem.used h.inv.rep.tiles hd hu (by omega) (by omega)

theorem malloc_spec (h : Tracks c.heap i c.live bs) (size : BitVec 32) :
    ∃ c' r bs', step i c (.malloc size) = some (c', r) ∧
      CallOk i c bs (.malloc size) c' r bs' := by
  obtain ⟨s', ptr, halloc, hcase⟩ := memAllocate_spec h.inv size.isLt
  simp only [step, tuyaMemHeapMalloc, halloc, Option.map_some]
  rcases hcase with ⟨rfl, rfl⟩ | ⟨b, bs', ha, rfl, hroom⟩
  · exact ⟨_, _, bs, rfl, .refused h _⟩
  · have hle := (clamp4_spec size.toNat).2.1
    refine ⟨_, _, bs', rfl, ?_⟩
    rw [if_neg (by omega)]
    exact .allocated h _ ha (by omega)

/-- Releasing a block spares the others. -/
theorem Frees.frame {s s' : HeapState} {b : Block} {bs' : List Block} (hinv : HeapInv s i bs)
    (hf : Frees s i bs b s' bs') {d : Block} (hd : d ∈ bs) (hu : d.used = true) (hne : d ≠ b) :
    d ∈ bs' ∧ ∀ x, d.addr ≤ x → x < d.addr + d.size → s'.mem x = s.mem x := by
  have hd' := ((hf.releases.mem_used hinv.rep.tiles hinv.rep.sizes d).mpr ⟨hd, hu, hne⟩).1
  exact ⟨hd', fun x h1 h2 => hf.mem.used hf.inv.rep.tiles hd' hu h1 h2⟩

theorem free_spec (h : Tracks c.heap i c.live bs) {ptr : Nat}
    (hp : ptr = 0 ∨ ∃ e ∈ c.live, e.1 = ptr) :
    ∃ c' r bs', step i c (.free ptr) = some (c', r) ∧ CallOk i c bs (.free ptr) c' r bs' := by
  rcases hp with rfl | ⟨⟨p, n⟩, he, rfl⟩
  · have hnull : ∀ n, (0, n) ∉ c.live := fun n hn => h.ne_zero hn rfl
    refine ⟨_, _, bs, rfl, ?_⟩
    rw [dropPtr_of_not_live hnull]
    exact .refused h _
  · obtain ⟨b, hb, hu, rfl, hn⟩ := h.block p n he
    obtain ⟨s', bs', hfree, hf⟩ := memDeallocate_spec h.inv hb hu
    refine ⟨⟨s', dropPtr (b.addr + 4) c.live⟩, ⟨0, [(s'.memHeapList i).free]⟩, bs', ?_,
      h.release hb hf, hf.same, fun _ hw => hw.raise hf.watermark ?_, ?_, ?_⟩
    · simp only [step, tuyaMemHeapFree, hfree, Option.map_some]
    · rw [h.inv.free, hf.inv.free, hf.releases.freeBytes]
      exact Nat.le_add_right ..
    · intro k d hl hd hdu hk
      have hne : d ≠ b := by
        rintro rfl
        exact hk rfl
      exact ⟨mem_dropPtr.mpr ⟨hl, fun heq => hk heq.symm⟩, (hf.frame h.inv hd hdu hne).1⟩
    · intro k d hl hd hdu hsp x hx
      have hne : d ≠ b := by
        rintro rfl
        exact hsp.1 rfl
      obtain ⟨-, hkeep⟩ := hf.frame h.inv hd hdu hne
      have h1 := hx.1
      have h2 := hx.2
      exact hkeep x (by omega) (by omega)

theorem write_spec (h : Tracks c.heap i c.live bs) {addr : Nat} {byte : Byte}
    (hp : ∃ e ∈ c.live, e.1 ≤ addr ∧ addr < e.1 + e.2) :
    ∃ c' r bs', step i c (.write addr byte) = some (c', r) ∧
      CallOk i c bs (.write addr byte) c' r bs' := by
  obtain ⟨⟨p, n⟩, he, hlo, hhi⟩ := hp
  obtain ⟨b, hb, hu, rfl, hn⟩ := h.block p n he
  have hmem : addr ∈ Payload b := ⟨hlo, by simp only at hhi; omega⟩
  refine ⟨_, _, bs, rfl, h.writePayload hb hu ?_, ⟨rfl, rfl⟩, ?_,
    fun _ _ hl hd _ _ => ⟨hl, hd⟩, ?_⟩
  · intro x hx
    refine write8_apply ?_
    rintro rfl
    exact hx hmem
  · intro log hw
    rw [List.append_nil]
    exact hw
  · intro k d hl hd hdu hsp x hx
    refine write8_apply ?_
    rintro rfl
    by_cases hdb : d = b
    · subst hdb
      have hkn : (d.addr + 4, k) = (d.addr + 4, n) :=
        List.inj_on_of_nodup_map h.nodup hl he rfl
      cases hkn
      exact hsp.2 _ _ rfl ⟨hlo, hhi⟩
    · exact h.inv.payload_apart hb hd hdb hmem hx

/-- The values of `free` during a `realloc` that moves. -/
theorem reallocFrees_moves {s s₁ s' : HeapState} {ptr size p n : Nat}
    (hcall : memAllocate s i (clamp4 size) = some (s₁, n)) (h0 : ptr ≠ 0) (hp0 : p ≠ 0)
    (hne : p ≠ ptr) :
    reallocFrees s i ptr size s' p =
      [(s₁.memHeapList i).free, (s'.memHeapList i).free] := by
  unfold reallocFrees
  rw [if_neg (by simp [h0, hp0, hne]), hcall]

/-- The bytes of a moved block, up to its old dog byte, are at the front of the new one. -/
theorem Moves.copied {s s₁ s' : HeapState} {b d : Block} {n : Nat} {bs' : List Block}
    (h : HeapInv s i bs) (hb : b ∈ bs) (hu : b.used = true) (hm : Moves s i bs b n s₁ d s' bs')
    {k : Nat} (hk : k + 5 ≤ b.size) : s'.mem (d.addr + 4 + k) = s.mem (b.addr + 4 + k) := by
  obtain ⟨bs₁, ha, hcopy, hf⟩ := hm.alloc
  have hroom := hm.room
  have hd := (ha.takes.mem_used d).mpr (Or.inl rfl)
  have hbd : d ≠ b := by
    rintro rfl
    omega
  obtain ⟨-, hkeep⟩ := hf.frame hcopy hd.1 hd.2 hbd
  rw [hkeep _ (by omega) (by omega)]
  show memcpy s₁.mem (d.addr + 4) (b.addr + 4) (b.size - 4) (d.addr + 4 + k) = _
  rw [memcpy_copied (by omega)]
  exact ha.mem.used h.rep.tiles hb hu (by omega) (by omega)

theorem realloc_spec (h : Tracks c.heap i c.live bs) {ptr : Nat} {size : BitVec 32}
    (hp : ptr = 0 ∨ ∃ e ∈ c.live, e.1 = ptr) (hlim : ptr = 0 ∨ size.toNat < 2 ^ 32 - 8) :
    ∃ c' r bs', step i c (.realloc ptr size) = some (c', r) ∧
      CallOk i c bs (.realloc ptr size) c' r bs' ∧
      ∀ n, (ptr, n) ∈ c.live → r.ptr ≠ 0 →
        ∀ k < n, c'.heap.mem (r.ptr + k) = c.heap.mem (ptr + k) := by
  have hnull : ∀ n, (0, n) ∉ c.live := fun n hn => h.ne_zero hn rfl
  by_cases h0 : ptr = 0
  · -- `realloc(NULL, size)` is `malloc(size)`
    subst h0
    have hmalloc : step i c (.realloc 0 size) = step i c (.malloc size) := by
      simp only [step, tuyaMemHeapRealloc, if_true, dropPtr_of_not_live hnull, reallocFrees,
        true_or]
    obtain ⟨c', r, bs', hstep, hok⟩ := malloc_spec h size
    refine ⟨c', r, bs', hmalloc.trans hstep,
      ⟨hok.tracks, hok.same, hok.watermark, ?_, ?_⟩, ?_⟩
    · intro n b hl hb hu _
      exact hok.kept n b hl hb hu trivial
    · intro n b hl hb hu _
      exact hok.frame n b hl hb hu ⟨trivial, fun _ _ hk => by simp at hk⟩
    · intro n hn
      exact absurd hn (hnull n)
  · obtain ⟨⟨p, n⟩, he, rfl⟩ := hp.resolve_left h0
    have hsize := hlim.resolve_left h0
    obtain ⟨b, hb, hu, rfl, hn⟩ := h.block p n he
    have hle := (clamp4_spec size.toNat).2.1
    have honly : ∀ k, (b.addr + 4, k) ∈ c.live → k = n := by
      intro k hk
      have := List.inj_on_of_nodup_map h.nodup hk he rfl
      cases this
      rfl
    obtain ⟨s', q, hrun, hcase⟩ := tuyaMemHeapRealloc_spec h.inv hb hu hsize
    simp only [step, hrun, Option.map_some]
    rcases hcase with ⟨rfl, rfl, hroom⟩ | ⟨rfl, rfl⟩ | ⟨s₁, d, bs', hm, rfl, hroom⟩
    · rw [if_neg (by omega)]
      refine ⟨_, _, bs, rfl, ⟨h.resize hb hu (by omega), ⟨rfl, rfl⟩, ?_, ?_,
        fun _ _ _ _ _ _ _ _ => rfl⟩, fun _ _ _ _ _ => rfl⟩
      · intro log hw
        have hfrees : reallocFrees c.heap i (b.addr + 4) size.toNat c.heap (b.addr + 4) =
            [(c.heap.memHeapList i).free] := by
          simp [reallocFrees]
        rw [hfrees]
        exact hw.raise rfl (Nat.le_refl _)
      · intro k e hl hd _ hk
        have hne : e.addr + 4 ≠ b.addr + 4 := fun heq => hk heq.symm
        exact ⟨List.mem_cons_of_mem _ (mem_dropPtr.mpr ⟨hl, hne⟩), hd⟩
    · refine ⟨_, _, bs, rfl, ?_, fun _ _ hq => absurd rfl hq⟩
      have hfrees : reallocFrees c.heap i (b.addr + 4) size.toNat c.heap 0 =
          [(c.heap.memHeapList i).free] := by
        simp [reallocFrees]
      rw [hfrees]
      exact .refused h _
    · rw [if_neg (by omega)]
      obtain ⟨bs₁, ha, hcopy, hf⟩ := hm.alloc
      have hroom' := hm.room
      have hbb := (ha.takes.mem_used b).mpr (Or.inr ⟨hb, hu⟩)
      have hdb := (ha.takes.mem_used d).mpr (Or.inl rfl)
      have hdne : d.addr ≠ b.addr := by
        intro heq
        have := ha.inv.addr_inj hdb.1 hbb.1 heq
        subst this
        omega
      have hsame := ha.same.trans hf.same
      have hfit : size.toNat + 5 ≤ d.size := by omega
      have halloc := h.alloc ha hfit
      have hcopied : Tracks (copied s₁ (d.addr + 4) (b.addr + 4) (b.size - 4)) i
          ((d.addr + 4, size.toNat) :: c.live) bs₁ :=
        ⟨hcopy, halloc.block, halloc.held, halloc.nodup⟩
      have hdrop : dropPtr (b.addr + 4) ((d.addr + 4, size.toNat) :: c.live) =
          (d.addr + 4, size.toNat) :: dropPtr (b.addr + 4) c.live := by
        simp [dropPtr, hdne]
      have hothers : ∀ e, e ∈ bs → e.used = true → Keeps (e.addr + 4) (.realloc (b.addr + 4) size) →
          e ∈ bs₁ ∧ e ≠ d ∧ e ≠ b := by
        intro e he hu' hk
        refine ⟨((ha.takes.mem_used e).mpr (Or.inr ⟨he, hu'⟩)).1, ?_, ?_⟩
        · rintro rfl
          exact ha.takes.fresh h.inv.rep.tiles h.inv.rep.sizes he hu'
        · rintro rfl
          exact hk rfl
      refine ⟨_, _, bs', rfl, ⟨?_, hsame, ?_, ?_, ?_⟩, ?_⟩
      · rw [← hdrop]
        exact hcopied.release hbb.1 hf
      · intro log hw
        rw [reallocFrees_moves hm.call (by omega) (by omega) (by omega)]
        have hmore : (s₁.memHeapList i).free ≤ (s'.memHeapList i).free := by
          rw [ha.inv.free, hf.inv.free, hf.releases.freeBytes]
          exact Nat.le_add_right ..
        have hraise := (hw.lower ha.watermark).raise hf.watermark hmore
        simpa using hraise
      · intro k e hl he hu' hk
        obtain ⟨he₁, -, hne⟩ := hothers e he hu' hk
        exact ⟨List.mem_cons_of_mem _ (mem_dropPtr.mpr ⟨hl, fun heq => hk heq.symm⟩),
          (hf.frame hcopy he₁ hu' hne).1⟩
      · intro k e hl he hu' hsp x hx
        obtain ⟨he₁, hed, hne⟩ := hothers e he hu' hsp.1
        obtain ⟨-, hkeep⟩ := hf.frame hcopy he₁ hu' hne
        have h1 := hx.1
        have h2 := hx.2
        have hout : memcpy s₁.mem (d.addr + 4) (b.addr + 4) (b.size - 4) x = s₁.mem x := by
          have := ha.inv.rep.tiles.apart_of_ne hdb.1 he₁ hed
          exact memcpy_apply (by omega)
        calc s'.mem x = memcpy s₁.mem (d.addr + 4) (b.addr + 4) (b.size - 4) x :=
              hkeep x (by omega) (by omega)
          _ = s₁.mem x := hout
          _ = c.heap.mem x := ha.mem.used h.inv.rep.tiles he hu' (by omega) (by omega)
      · intro k hk _ j hj
        obtain rfl := honly k hk
        exact hm.copied h.inv hb hu (by omega)

end Step

end TuyaSdk.TuyaMemHeap
