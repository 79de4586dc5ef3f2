import TuyaSdk.TuyaMemHeap.Allocate

/-!
# Release on a represented layout

`MEM_Deallocate` on a memory that represents a layout: the walk stops at the free blocks on
either side of the block, which is linked behind the left one or merged into it
(`linkBlock_spec`) and then merged with the right one (`mergeNext_spec`). Together that is
`Releases`, and every byte written lies in a block that is free afterwards.
-/

namespace TuyaSdk.TuyaMemHeap
open TuyaSdk.Lib

/-- Memory that changed only inside the free blocks of a stretch did not change beside it. -/
theorem ChangedInFree.trans {m m' m'' : Mem} {bs : List Block} (h₁ : ChangedInFree m m' bs)
    (h₂ : ChangedInFree m' m'' bs) : ChangedInFree m m'' bs := fun x hx =>
  (h₂ x hx).trans (h₁ x hx)

/-- The bytes of a free block may change. -/
theorem ChangedInFree.of_free {m m' : Mem} {bs : List Block} {b : Block} (hb : b ∈ bs)
    (hf : b.used = false) (h : ∀ x, x < b.addr ∨ b.addr + b.size ≤ x → m' x = m x) :
    ChangedInFree m m' bs := fun x hx => h x (hx b hb hf)

/-! ## Where the walk stops -/

/-- The free blocks below an address are those that the walk passes before it. -/
theorem walked_eq {k : Nat} {xs ys us vs : List Block} (h : xs ++ ys = us ++ vs)
    (hxs : ∀ b ∈ xs, b.addr < k) (hys : ∀ b, ys.head? = some b → k ≤ b.addr)
    (hus : ∀ b ∈ us, b.addr < k) (hvs : ∀ b ∈ vs, k ≤ b.addr) : xs = us ∧ ys = vs := by
  induction xs generalizing us with
  | nil =>
    cases us with
    | nil => exact ⟨rfl, h⟩
    | cons u us =>
      have h1 := hus u (by simp)
      have h2 := hys u (by rw [List.nil_append] at h; simp [h])
      omega
  | cons x xs ih =>
    have hx := hxs x (by simp)
    cases us with
    | nil =>
      have := hvs x (by rw [List.nil_append] at h; simp [← h])
      omega
    | cons u us =>
      simp only [List.cons_append, List.cons.injEq] at h
      obtain ⟨rfl, h⟩ := h
      obtain ⟨rfl, rfl⟩ := ih h (fun b hb => hxs b (by simp [hb])) fun b hb => hus b (by simp [hb])
      exact ⟨rfl, rfl⟩

/-- The walk for the block `b` stops with the last free block before it and the first one
after it. -/
theorem run_neighboursPass_between {m : Mem} {p lo hi n r : Nat} {pre post : List Block}
    {b : Block} (hpre : PartRep m p lo b.addr pre r)
    (hpost : PartRep m r (b.addr + b.size) hi post 0) (hn : pre.length + post.length < n) :
    Loop.run (neighboursPass m b.addr) n (0, p) = some (lastAddr (freeBlocks pre), r) := by
  have hlist : FreeListRep m p (freeBlocks pre ++ freeBlocks post) := by
    constructor
    · rw [List.map_append]
      exact segment_append.mpr ⟨r, hpre.chain, hpost.chain⟩
    · intro c hc
      rcases List.mem_append.mp hc with hc | hc
      · exact (hpre.blocks c (mem_freeBlocks.mp hc).1).size
      · exact (hpost.blocks c (mem_freeBlocks.mp hc).1).size
  have hlen : (freeBlocks pre ++ freeBlocks post).length < n := by
    have h1 := length_freeBlocks_le pre
    have h2 := length_freeBlocks_le post
    rw [List.length_append]
    omega
  obtain ⟨⟨pre', next⟩, hrun, xs, ys, hc, hxs, hys⟩ := run_neighboursPass b.addr hlist hlen
  have hbelow : ∀ c ∈ freeBlocks pre, c.addr < b.addr := by
    intro c hc
    have hcm := (mem_freeBlocks.mp hc).1
    have h1 := hpre.tiles.bounds hcm
    have h2 := (hpre.sizes c hcm).2
    omega
  have habove : ∀ c ∈ freeBlocks post, b.addr ≤ c.addr := by
    intro c hc
    have h1 := hpost.tiles.bounds (mem_freeBlocks.mp hc).1
    omega
  obtain ⟨rfl, rfl⟩ := walked_eq hc.split.symm hxs hys hbelow habove
  -- the chain through `post` determines where the walk stands
  have hnext : next = r := (chain_start hc.ahead).trans (chain_start hpost.chain).symm
  have hpre' : pre' = lastAddr (freeBlocks pre) := hc.pre
  rw [hrun, hnext, hpre']

/-! ## The left neighbour -/

theorem Tiles.eq_nil {lo : Nat} {bs : List Block} (h : Tiles lo lo bs)
    (hs : ∀ b ∈ bs, SizeOk b) : bs = [] := by
  have := h.length_le hs
  cases bs with
  | nil => rfl
  | cons b bs =>
    simp only [List.length_cons] at this
    omega

/-- A free block that touches the end of a stretch is its last block. -/
theorem last_of_touching {m : Mem} {p lo hi q : Nat} {bs xs : List Block} {c : Block}
    (h : PartRep m p lo hi bs q) (hlast : freeBlocks bs = xs ++ [c]) (htouch : c.addr + c.size = hi) :
    bs.getLast? = some c ∧ c.used = false := by
  obtain ⟨pre, post, rfl, -, -, hf⟩ := freeBlocks_split hlast
  obtain ⟨r, s, -, -, h₃⟩ := partRep_middle.mp h
  rw [htouch] at h₃
  obtain rfl := h₃.tiles.eq_nil h₃.sizes
  exact ⟨by simp, hf⟩

/-- Linking the released block `b` behind the free block before it, or merging them. Of `b` itself
only the link is written. -/
theorem linkBlock_spec {m : Mem} {heap : MemHeap} {lo next : Nat} {pre : List Block} {b : Block}
    (h : PartRep m heap.freeList lo b.addr pre next) (hs : SizeOk b)
    (hok : BlockOk m ⟨b.addr, b.size, false⟩) (h0 : b.addr ≠ 0) (hnext : next < 2 ^ 32)
    (htop : b.addr + b.size ≤ 2 ^ 32) :
    ∃ m' freeList' pre' c,
      linkBlock m heap (lastAddr (freeBlocks pre)) b.addr next =
        (m', { heap with freeList := freeList' }, c.addr) ∧
      JoinsLeft b pre pre' c ∧ PartRep m' freeList' lo (b.addr + b.size) (pre' ++ [c]) next ∧
      ChangedInFree m m' (pre' ++ [c]) ∧
      ∀ x, b.addr ≤ x → x < b.addr + 4 ∨ b.addr + 8 ≤ x → m' x = m x := by
  have h12 := hs.2
  obtain ⟨m₁, hm₁⟩ : ∃ m₁, m₁ = setBlockNext m b.addr next := ⟨_, rfl⟩
  have hout₁ : ∀ x, x < b.addr + 4 ∨ b.addr + 8 ≤ x → m₁ x = m x := fun x hx => by
    rw [hm₁, setBlockNext_apply hx]
  have hok₁ : BlockOk m₁ ⟨b.addr, b.size, false⟩ := by
    rw [hm₁]
    exact hok.setNext hs
  have hlink₁ : blockNext m₁ b.addr = next := by
    rw [hm₁, blockNext_setBlockNext, u32_of_lt hnext]
  have hb₁ : PartRep m₁ b.addr b.addr (b.addr + b.size) [⟨b.addr, b.size, false⟩] next :=
    (partRep_free rfl).mpr ⟨rfl, rfl, hs, hok₁, rfl, h0, hlink₁⟩
  have hpre₁ : PartRep m₁ heap.freeList lo b.addr pre next :=
    h.congr fun x _ hx => hout₁ x (by omega)
  by_cases hadj : ∃ q, pre.getLast? = some q ∧ q.used = false
  · obtain ⟨q, hq, hqf⟩ := hadj
    obtain ⟨pre', rfl⟩ : ∃ pre', pre = pre' ++ [q] := List.getLast?_eq_some_iff.mp hq
    obtain ⟨r, s, h₁, h₂, h₃⟩ := partRep_middle.mp hpre₁
    obtain ⟨-, -, hqs, hqok, rfl, hq0, hqnext⟩ := (partRep_free hqf).mp h₂
    have hend : q.addr + q.size = b.addr := h₃.tiles
    obtain rfl : s = next := h₃.chain
    have hq12 := hqs.2
    have hlast : lastAddr (freeBlocks (pre' ++ [q])) = q.addr := by
      rw [freeBlocks_append, freeBlocks_cons_free hqf]
      exact lastAddr_concat ..
    have htouch : u32 (q.addr + q.size) = b.addr := by
      rw [hend, u32_of_lt (by omega)]
    have hsum : u32 (q.size + b.size) = q.size + b.size := u32_of_lt (by omega)
    have heq : linkBlock m heap (lastAddr (freeBlocks (pre' ++ [q]))) b.addr s =
        (setBlockSize m₁ q.addr (q.size + b.size), heap, q.addr) := by
      rw [hlast, linkBlock, ← hm₁]
      simp only [if_neg hq0, hqok.size, if_pos htouch, hok₁.size, hsum]
    have hout₂ : ∀ x, x < q.addr ∨ q.addr + 4 ≤ x →
        setBlockSize m₁ q.addr (q.size + b.size) x = m₁ x := fun x hx => setBlockSize_apply hx
    refine ⟨_, heap.freeList, pre', ⟨q.addr, q.size + b.size, false⟩, heq, .merge pre' q hqf, ?_, ?_,
      fun x hx hxb => by rw [hout₂ x (by omega), hout₁ x hxb]⟩
    · refine partRep_middle.mpr ⟨q.addr, s, h₁.congr fun x _ hx => hout₂ x (Or.inl hx), ?_,
        ⟨?_, by simp, by simp, rfl⟩⟩
      · refine (partRep_free rfl).mpr ⟨rfl, rfl,
          ⟨Nat.dvd_add hqs.1 hs.1, by show 12 ≤ q.size + b.size; omega⟩, ⟨?_, ?_⟩, rfl, hq0, ?_⟩
        · show blockSize (setBlockSize m₁ q.addr (q.size + b.size)) q.addr = q.size + b.size
          rw [blockSize_setBlockSize, hsum]
        · have hdog := hok₁.dog
          simp only at hdog ⊢
          rw [hout₂ _ (by omega), ← hdog]
          congr 1
          omega
        · rw [← hqnext]
          exact blockNext_eq fun x hx _ => hout₂ x (Or.inr hx)
      · show q.addr + (q.size + b.size) = b.addr + b.size
        omega
    · apply ChangedInFree.of_free (b := ⟨q.addr, q.size + b.size, false⟩) (by simp) rfl
      intro x hx
      simp only at hx
      rw [hout₂ x (by omega), hout₁ x (by omega)]
  · have hused : ∀ q, pre.getLast? = some q → q.used = true := by
      intro q hq
      by_contra hqf
      exact hadj ⟨q, hq, by simpa using hqf⟩
    have heq : linkBlock m heap (lastAddr (freeBlocks pre)) b.addr next =
        ((linkPred m₁ heap (lastAddr (freeBlocks pre)) b.addr).1,
          (linkPred m₁ heap (lastAddr (freeBlocks pre)) b.addr).2, b.addr) := by
      unfold linkBlock linkPred
      rw [← hm₁]
      by_cases hp0 : lastAddr (freeBlocks pre) = 0
      · simp only [hp0, if_true, ne_eq, not_true, if_false]
      · simp only [ne_eq, hp0, not_false_iff, if_true, if_false]
        rcases List.eq_nil_or_concat (freeBlocks pre) with hnone | ⟨xs, c, hlast⟩
        · exact absurd (by rw [hnone]; rfl) hp0
        · rw [List.concat_eq_append] at hlast
          have hcm : c ∈ pre := (mem_freeBlocks.mp (by rw [hlast]; simp)).1
          have hcb := h.tiles.bounds hcm
          have hapart : u32 (c.addr + c.size) ≠ b.addr := by
            intro htouch
            rw [u32_of_lt (by omega)] at htouch
            obtain ⟨hcl, hcf⟩ := last_of_touching h hlast htouch
            rw [hused c hcl] at hcf
            simp at hcf
          rw [hlast, lastAddr_concat, (hpre₁.blocks c hcm).size]
          simp only [if_neg hapart]
    obtain ⟨hrep, hch⟩ := linkPred_spec (q := b.addr) hpre₁ (by omega)
    obtain ⟨m₂, freeList₂, hl⟩ := linkPred_heap m₁ heap (lastAddr (freeBlocks pre)) b.addr
    rw [hl] at heq hrep hch
    have hkeep : ∀ x, b.addr ≤ x → m₂ x = m₁ x := fun x hx =>
      hch.outside hpre₁.tiles (Or.inr hx)
    refine ⟨m₂, freeList₂, pre, ⟨b.addr, b.size, false⟩, heq, .alone pre hused, ?_, ?_,
      fun x hx hxb => (hkeep x hx).trans (hout₁ x hxb)⟩
    · refine partRep_append.mpr ⟨b.addr, b.addr, hrep, hb₁.congr fun x hx _ => hkeep x hx⟩
    · intro x hx
      have hx₂ := hch x fun c hc hcf => hx c (by simp [hc]) hcf
      simp only at hx₂
      rw [hx₂]
      have := hx ⟨b.addr, b.size, false⟩ (by simp) rfl
      simp only at this
      exact hout₁ x (by omega)

/-! ## The right neighbour -/

/-- Merging the free block `c` with the free block after it. -/
theorem mergeNext_spec {m : Mem} {p lo hi next : Nat} {pre post : List Block} {c : Block}
    (hcf : c.used = false) (h : PartRep m p lo (c.addr + c.size) (pre ++ [c]) next)
    (hpost : PartRep m next (c.addr + c.size) hi post 0) (hhi : hi ≤ 2 ^ 32) :
    ∃ d post', JoinsRight c post d post' ∧
      HeapRep (mergeNext m c.addr next) p lo hi (pre ++ d :: post') ∧
      ChangedInFree m (mergeNext m c.addr next) (pre ++ d :: post') ∧
      ∀ x, x < c.addr ∨ c.addr + 8 ≤ x → mergeNext m c.addr next x = m x := by
  obtain ⟨r, s, h₁, h₂, h₃⟩ := partRep_middle.mp h
  obtain ⟨-, -, hcs, hcok, rfl, hc0, hcnext⟩ := (partRep_free hcf).mp h₂
  obtain rfl : s = next := h₃.chain
  have hc12 := hcs.2
  have hle := hpost.tiles.le
  by_cases hadj : ∃ d, post.head? = some d ∧ d.used = false
  · obtain ⟨d, hd, hdf⟩ := hadj
    obtain ⟨post', rfl⟩ : ∃ post', post = d :: post' := List.head?_eq_some_iff.mp hd
    obtain ⟨t, h₄, h₅⟩ := partRep_cons.mp hpost
    obtain ⟨hda, -, hds, hdok, rfl, hd0, hdnext⟩ := (partRep_free hdf).mp h₄
    have hd12 := hds.2
    have hle₅ := h₅.tiles.le
    have htouch : u32 (c.addr + blockSize m c.addr) = d.addr := by
      rw [hcok.size, ← hda, u32_of_lt (by omega)]
    have hsum : u32 (c.size + d.size) = c.size + d.size := u32_of_lt (by omega)
    obtain ⟨m₁, hm₁⟩ : ∃ m₁, m₁ = setBlockSize m c.addr (c.size + d.size) := ⟨_, rfl⟩
    have hout₁ : ∀ x, x < c.addr ∨ c.addr + 4 ≤ x → m₁ x = m x := fun x hx => by
      rw [hm₁, setBlockSize_apply hx]
    have hdnext₁ : blockNext m₁ d.addr = t :=
      (blockNext_eq fun x hx _ => hout₁ x (by omega)).trans hdnext
    have heq : mergeNext m c.addr d.addr = setBlockNext m₁ c.addr t := by
      unfold mergeNext
      rw [if_pos ⟨hd0, htouch⟩, hcok.size, hdok.size, hsum, ← hm₁]
      simp only [hdnext₁]
    rw [heq]
    have hout₂ : ∀ x, x < c.addr ∨ c.addr + 8 ≤ x → setBlockNext m₁ c.addr t x = m x :=
      fun x hx => by rw [setBlockNext_apply (by omega), hout₁ x (by omega)]
    have ht : t < 2 ^ 32 := by
      rw [← hdnext]
      exact read32_lt ..
    refine ⟨_, post', .merge post' d hdf, partRep_middle.mpr ⟨c.addr, t, ?_, ?_, ?_⟩, ?_, hout₂⟩
    · exact h₁.congr fun x _ hx => hout₂ x (Or.inl hx)
    · refine (partRep_free (b := ⟨c.addr, c.size + d.size, c.used⟩) hcf).mpr ⟨rfl, rfl,
        ⟨Nat.dvd_add hcs.1 hds.1, by show 12 ≤ c.size + d.size; omega⟩, ⟨?_, ?_⟩, rfl, hc0, ?_⟩
      · show blockSize (setBlockNext m₁ c.addr t) c.addr = c.size + d.size
        have hkeep : blockSize (setBlockNext m₁ c.addr t) c.addr = blockSize m₁ c.addr :=
          blockSize_eq fun x hx₁ hx₂ => setBlockNext_apply (by omega)
        rw [hkeep, hm₁, blockSize_setBlockSize, hsum]
      · have hdog := hdok.dog
        show setBlockNext m₁ c.addr t (c.addr + (c.size + d.size) - 1) = statByte c.used
        rw [hcf, ← hdf, ← hdog, hout₂ _ (by omega)]
        congr 1
        omega
      · rw [blockNext_setBlockNext, u32_of_lt ht]
    · show PartRep _ t (c.addr + (c.size + d.size)) hi post' 0
      rw [← Nat.add_assoc]
      exact h₅.congr fun x hx _ => hout₂ x (by omega)
    · apply ChangedInFree.of_free (b := ⟨c.addr, c.size + d.size, c.used⟩) (by simp) hcf
      intro x hx
      simp only at hx
      exact hout₂ x (by omega)
  · have hused : ∀ d, post.head? = some d → d.used = true := by
      intro d hd
      by_contra hdf
      exact hadj ⟨d, hd, by simpa using hdf⟩
    have heq : mergeNext m c.addr s = m := by
      unfold mergeNext
      rw [if_neg]
      intro ⟨hs0, htouch⟩
      rw [hcok.size] at htouch
      cases post with
      | nil => exact hs0 hpost.chain
      | cons d post' =>
        have hdu := hused d rfl
        obtain ⟨t, h₄, h₅⟩ := partRep_cons.mp hpost
        obtain ⟨hda, -, hds, -, rfl⟩ := (partRep_used hdu).mp h₄
        have hd12 := hds.2
        have hstart := chain_start h₅.chain
        cases hfree : freeBlocks post' with
        | nil => exact hs0 (by rw [hstart]; simp [freeAddrs, hfree])
        | cons e es =>
          have he : e ∈ post' := (mem_freeBlocks.mp (by rw [hfree]; simp)).1
          have hse : s = e.addr := by rw [hstart]; simp [freeAddrs, hfree]
          have := h₅.tiles.bounds he
          rw [u32_of_lt (by omega)] at htouch
          omega
    rw [heq]
    exact ⟨c, post, .alone post hused, partRep_middle.mpr ⟨c.addr, s, h₁, h₂, hpost⟩,
      fun x _ => rfl, fun x _ => rfl⟩

end TuyaSdk.TuyaMemHeap
