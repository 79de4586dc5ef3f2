import TuyaSdk.TuyaMemHeap.Runs

/-!
# Isolation of payloads

A pointer that `tuya_mem_heap_malloc` returns has a payload of its own: it holds the bytes
asked for, lies in the region, apart from every other payload and from the bytes the
allocator keeps in the region, and no call that spares the pointer changes it. A `realloc`
that moves takes the bytes along.
-/

namespace TuyaSdk.TuyaMemHeap
open TuyaSdk.Lib

/-- The bytes of a block that belong to the allocator: its header, with the link of a free
block, and its dog byte. -/
def Overhead (b : Block) : Set Nat :=
  Set.Ico b.addr (b.addr + if b.used then 4 else 8) ∪ {b.addr + b.size - 1}

/-- The block `b` behind the live pointer `p` to `n` bytes, in a region with the blocks
`bs`. -/
structure PayloadIsolated (base size : Nat) (i : Fin memHeapListNum) (c : Client)
    (bs : List Block) (b : Block) (p n : Nat) : Prop where
  rep : HeapRep c.heap.mem (c.heap.memHeapList i).freeList (alignUp base)
    (alignDown (base + size)) bs
  mem : b ∈ bs
  start : p = b.addr + 4
  room : Set.Ico p (p + n) ⊆ Payload b
  inside : Payload b ⊆ Set.Ico base (base + size)
  overhead : ∀ d ∈ bs, Disjoint (Payload b) (Overhead d)
  others : ∀ q k, (q, k) ∈ c.live → q ≠ p →
    ∃ d ∈ bs, q = d.addr + 4 ∧ Set.Ico q (q + k) ⊆ Payload d ∧ Disjoint (Payload b) (Payload d)

section

variable {s₀ s : HeapState} {i : Fin memHeapListNum} {base size : Nat} {c : Client}
  {bs : List Block} {b : Block}

theorem payload_overhead_apart (h : HeapInv s i bs) (hb : b ∈ bs) {d : Block} (hd : d ∈ bs)
    (hu : b.used = true) : Disjoint (Payload b) (Overhead d) := by
  rw [Set.disjoint_left]
  intro x hx hxd
  have h1 := hx.1
  have h2 := hx.2
  have hd12 := (h.rep.sizes d hd).2
  have hxd' : (d.addr ≤ x ∧ x < d.addr + if d.used then 4 else 8) ∨ x = d.addr + d.size - 1 := hxd
  by_cases heq : d = b
  · subst heq
    rw [hu] at hxd'
    simp only [if_true] at hxd'
    omega
  · have h3 := h.rep.tiles.apart_of_ne hb hd heq
    split at hxd' <;> omega

theorem RunInv.payloadIsolated {log : List Nat} (h : RunInv base size i c log bs) (hb : b ∈ bs)
    (hu : b.used = true) {n : Nat} (hp : (b.addr + 4, n) ∈ c.live) :
    PayloadIsolated base size i c bs b (b.addr + 4) n := by
  have hinv := h.tracks.inv
  have hroom : ∀ q k, (q, k) ∈ c.live →
      ∃ d ∈ bs, q = d.addr + 4 ∧ Set.Ico q (q + k) ⊆ Payload d := by
    intro q k hq
    obtain ⟨d, hd, -, rfl, hk⟩ := h.tracks.block q k hq
    refine ⟨d, hd, rfl, fun x hx => ⟨hx.1, ?_⟩⟩
    have := hx.2
    omega
  have hlo : regionLo (c.heap.memHeapList i) = alignUp base := by rw [regionLo, h.base]
  have hhi : regionHi (c.heap.memHeapList i) = alignDown (base + size) := by
    rw [regionHi, h.base, h.size]
  obtain ⟨d, hd, heq, hsub⟩ := hroom _ n hp
  obtain rfl : b = d := hinv.addr_inj hb hd (by omega)
  refine ⟨?_, hb, rfl, hsub, ?_, fun d hd => payload_overhead_apart hinv hb hd hu, ?_⟩
  · rw [← hlo, ← hhi]
    exact hinv.rep
  · intro x hx
    have h1 := hx.1
    have h2 := hx.2
    have h3 := hinv.rep.tiles.bounds hb
    have h4 := hinv.region.aligned
    have h5 := hinv.region.hi_le.1
    have hbase := h.base
    have hsize := h.size
    exact ⟨by omega, by omega⟩
  · intro q k hq hne
    obtain ⟨d, hd, rfl, hsub'⟩ := hroom q k hq
    refine ⟨d, hd, rfl, hsub', Set.disjoint_left.mpr fun x hx hxd => ?_⟩
    refine hinv.payload_apart hb hd ?_ hx hxd
    rintro rfl
    exact hne rfl

/-- What `malloc` returns is live, when it is not NULL. -/
theorem malloc_live {c' : Client} {r : Reply} {n : BitVec 32}
    (h : step i c (.malloc n) = some (c', r)) (hr : r.ptr ≠ 0) : (r.ptr, n.toNat) ∈ c'.live := by
  simp only [step, Option.map_eq_some_iff, Prod.mk.injEq, Prod.exists] at h
  obtain ⟨s', p, -, rfl, rfl⟩ := h
  simp only at hr
  simp [hr]

/-- A live pointer keeps its block through calls that do not release it. -/
theorem kept_run {log : List Nat} (h : RunInv base size i c log bs) (hb : b ∈ bs)
    (hu : b.used = true) {n : Nat} (hp : (b.addr + 4, n) ∈ c.live) {calls : List Call}
    (hl : Machine.Legal (step i) Careful c calls) (hk : ∀ k ∈ calls, Keeps (b.addr + 4) k) :
    ∃ c' replies bs' log', Machine.run (step i) c calls = some (c', replies) ∧
      RunInv base size i c' log' bs' ∧ b ∈ bs' ∧ (b.addr + 4, n) ∈ c'.live := by
  obtain ⟨c', replies, hrun, bs', log', hinv, hb', hp'⟩ := Machine.run_total
    (I := fun c _ => ∃ bs log, RunInv base size i c log bs ∧ b ∈ bs ∧ (b.addr + 4, n) ∈ c.live)
    (by
      intro c rs k ⟨bs, log, hinv, hb, hp⟩ ⟨hk, hkeep⟩
      obtain ⟨c', r, bs', hstep, hok⟩ := call_spec hinv.tracks hk
      obtain ⟨hp', hb'⟩ := hok.kept n b hp hb hu hkeep
      exact ⟨c', r, hstep, bs', _, hinv.call hok, hb', hp'⟩)
    ⟨bs, log, h, hb, hp⟩ (hl.and_all hk)
  exact ⟨c', replies, bs', log', hrun, hinv, hb', hp'⟩

/-- The payload of a live pointer is unchanged by calls that spare it. -/
theorem spared_run {log : List Nat} (h : RunInv base size i c log bs) (hb : b ∈ bs)
    (hu : b.used = true) {n : Nat} (hp : (b.addr + 4, n) ∈ c.live) {calls : List Call}
    (hl : Machine.Legal (step i) Careful c calls) (hk : ∀ k ∈ calls, Spares (b.addr + 4) n k) :
    ∃ c' replies, Machine.run (step i) c calls = some (c', replies) ∧
      Set.EqOn c'.heap.mem c.heap.mem (Payload b) := by
  obtain ⟨c', replies, hrun, bs', log', -, -, -, heq⟩ := Machine.run_total
    (I := fun c' _ => ∃ bs log, RunInv base size i c' log bs ∧ b ∈ bs ∧
      (b.addr + 4, n) ∈ c'.live ∧ Set.EqOn c'.heap.mem c.heap.mem (Payload b))
    (by
      intro c₁ rs k ⟨bs, log, hinv, hb, hp, heq⟩ ⟨hk, hspare⟩
      obtain ⟨c', r, bs', hstep, hok⟩ := call_spec hinv.tracks hk
      obtain ⟨hp', hb'⟩ := hok.kept n b hp hb hu hspare.1
      exact ⟨c', r, hstep, bs', _, hinv.call hok, hb', hp',
        (hok.frame n b hp hb hu hspare).trans heq⟩)
    ⟨bs, log, h, hb, hp, Set.eqOn_refl _ _⟩ (hl.and_all hk)
  exact ⟨c', replies, hrun, heq⟩

end

/-- What the next calls do in the state `c`. A non-NULL pointer that `malloc` returns has an
isolated payload, which lasts through all calls that do not release the pointer and is
changed by none that spare it. A `realloc` that succeeds preserves the bytes asked for. -/
structure Isolates (base size : Nat) (i : Fin memHeapListNum) (c : Client) : Prop where
  malloc : ∀ n, ∃ c₁ r, step i c (.malloc n) = some (c₁, r) ∧ (r.ptr ≠ 0 →
    ∃ b bs, PayloadIsolated base size i c₁ bs b r.ptr n.toNat ∧
      ∀ between, Machine.Legal (step i) Careful c₁ between → (∀ k ∈ between, Keeps r.ptr k) →
        ∃ c₂ rs₂ bs₂, Machine.run (step i) c₁ between = some (c₂, rs₂) ∧
          PayloadIsolated base size i c₂ bs₂ b r.ptr n.toNat ∧
          ∀ after, Machine.Legal (step i) Careful c₂ after →
            (∀ k ∈ after, Spares r.ptr n.toNat k) →
            ∃ c₃ rs₃, Machine.run (step i) c₂ after = some (c₃, rs₃) ∧
              Set.EqOn c₃.heap.mem c₂.heap.mem (Payload b))
  realloc : ∀ p m n, (p, m) ∈ c.live → WithinLimit (.realloc p n) →
    ∃ c' r, step i c (.realloc p n) = some (c', r) ∧
      (r.ptr ≠ 0 → ∀ k < m, c'.heap.mem (r.ptr + k) = c.heap.mem (p + k))

/-- In any careful run of a heap the payloads are isolated. -/
theorem isolates_run {s₀ s : HeapState} {i : Fin memHeapListNum} {base size : Nat}
    (hcreate : tuyaMemHeapCreate s₀ base size = (s, some i)) (htop : base + size ≤ 2 ^ 32)
    (hpad : sub32 (alignUp base) base < size) {calls : List Call}
    (hl : Machine.Legal (step i) Careful ⟨s, []⟩ calls) :
    ∃ c rs, Machine.run (step i) ⟨s, []⟩ calls = some (c, rs) ∧ Isolates base size i c := by
  obtain ⟨c, rs, bs, hrun, hinv⟩ := runInv_run (runInv_create hcreate htop hpad) hl
  refine ⟨c, rs, hrun, ?_, ?_⟩
  · intro n
    obtain ⟨c₁, r, bs₁, hstep, hok⟩ := malloc_spec hinv.tracks n
    refine ⟨c₁, r, hstep, fun hr => ?_⟩
    have hinv₁ := hinv.call hok
    have hp := malloc_live hstep hr
    obtain ⟨b, hb, hu, hptr, -⟩ := hinv₁.tracks.block _ _ hp
    rw [hptr] at hp ⊢
    refine ⟨b, bs₁, hinv₁.payloadIsolated hb hu hp, fun between hl₂ hk₂ => ?_⟩
    obtain ⟨c₂, rs₂, bs₂, log₂, hrun₂, hinv₂, hb₂, hp₂⟩ := kept_run hinv₁ hb hu hp hl₂ hk₂
    refine ⟨c₂, rs₂, bs₂, hrun₂, hinv₂.payloadIsolated hb₂ hu hp₂, fun after hl₃ hk₃ => ?_⟩
    exact spared_run hinv₂ hb₂ hu hp₂ hl₃ hk₃
  · intro p m n hp hlim
    obtain ⟨c', r, bs', hstep, -, hcopy⟩ := realloc_spec hinv.tracks (Or.inr ⟨_, hp, rfl⟩) hlim
    exact ⟨c', r, hstep, hcopy m hp⟩

theorem isolates_run_small : ∃ c rs,
    Machine.run (step 0) smallHeap carefulCalls = some (c, rs) ∧ Isolates 4096 64 0 c :=
  isolates_run smallHeap_created (by decide) (by decide)
    (Machine.legal_of_check (by decide +kernel))

/-- Two blocks of 4 bytes, the upper one released, the lower one "grown" to `2 ^ 32 - 1`
bytes, and a store behind its first eight. -/
def headerOverwritten : List Call :=
  [.malloc 4, .malloc 4, .free 4152, .realloc 4140 0xffffffff, .write 4149 1]

/-- The next `malloc` returns a pointer outside the region. -/
theorem isolates_broken : ∃ c rs,
    tuyaMemHeapCreate bootState 4096 64 = (smallHeap.heap, some 0) ∧
      Machine.Legal (step 0) Permitted smallHeap headerOverwritten ∧
      Machine.run (step 0) smallHeap headerOverwritten = some (c, rs) ∧
      ¬Isolates 4096 64 0 c := by
  have hlegal : Machine.legalCheck (step 0) Permitted smallHeap headerOverwritten = true := by
    decide +kernel
  have hend : (Machine.run (step 0) smallHeap headerOverwritten).any (fun r =>
      (step 0 r.1 (.malloc 100)).any fun r' => decide (r'.2.ptr = 4312)) = true := by
    decide +kernel
  obtain ⟨⟨c, rs⟩, hrun, hnext⟩ := (Option.any_eq_true _ _).mp hend
  obtain ⟨⟨c', r⟩, hmalloc, hptr⟩ := (Option.any_eq_true _ _).mp hnext
  have hptr : r.ptr = 4312 := of_decide_eq_true hptr
  refine ⟨c, rs, smallHeap_created, Machine.legal_of_check hlegal, hrun, fun h => ?_⟩
  obtain ⟨c₁, r₁, hstep, hiso⟩ := h.malloc 100
  rw [hmalloc] at hstep
  cases hstep
  obtain ⟨b, bs, hiso, -⟩ := hiso (by omega)
  have hin : 4312 ∈ Set.Ico 4096 (4096 + 64) :=
    hiso.inside (hiso.room ⟨by omega, by rw [hptr]; decide⟩)
  exact absurd hin.2 (by decide)

end TuyaSdk.TuyaMemHeap
