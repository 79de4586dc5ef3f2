import TuyaSdk.TuyaMemHeap.Layout

/-!
# What the allocator does to a layout

The abstract allocator. `Takes n bs b bs'` turns a free block of `bs`, or the end of one,
into the used block `b`; `Releases bs b bs'` makes the used block `b` free and joins it
with the free blocks it touches. Both keep the layout a tiling without adjacent free
blocks, change the used blocks by exactly `b`, and move exactly `b.size` bytes.
-/

namespace TuyaSdk.TuyaMemHeap
open TuyaSdk.Lib

/-- A block of at least `n` bytes is taken for use. -/
inductive Takes (n : Nat) : List Block → Block → List Block → Prop
  | split (pre post : List Block) (b : Block) (hfree : b.used = false)
      (hfit : n + memHeapMinSize ≤ b.size) :
      Takes n (pre ++ b :: post) ⟨b.addr + (b.size - n), n, true⟩
        (pre ++ ⟨b.addr, b.size - n, false⟩ :: ⟨b.addr + (b.size - n), n, true⟩ :: post)
  | whole (pre post : List Block) (b : Block) (hfree : b.used = false) (hfit : n ≤ b.size) :
      Takes n (pre ++ b :: post) ⟨b.addr, b.size, true⟩
        (pre ++ ⟨b.addr, b.size, true⟩ :: post)

/-- The released block `b` with the free block on its left, if there is one. -/
inductive JoinsLeft (b : Block) : List Block → List Block → Block → Prop
  | alone (pre : List Block) (h : ∀ q, pre.getLast? = some q → q.used = true) :
      JoinsLeft b pre pre ⟨b.addr, b.size, false⟩
  | merge (pre : List Block) (q : Block) (hq : q.used = false) :
      JoinsLeft b (pre ++ [q]) pre ⟨q.addr, q.size + b.size, false⟩

/-- The released block `b` with the free block on its right, if there is one. -/
inductive JoinsRight (b : Block) : List Block → Block → List Block → Prop
  | alone (post : List Block) (h : ∀ r, post.head? = some r → r.used = true) :
      JoinsRight b post b post
  | merge (post : List Block) (r : Block) (hr : r.used = false) :
      JoinsRight b (r :: post) ⟨b.addr, b.size + r.size, b.used⟩ post

/-- The used block `b` becomes free and is joined with its neighbours. -/
inductive Releases (b : Block) : List Block → List Block → Prop
  | intro {pre post pre' post' : List Block} {c d : Block} (hused : b.used = true)
      (hleft : JoinsLeft b pre pre' c) (hright : JoinsRight c post d post') :
      Releases b (pre ++ b :: post) (pre' ++ d :: post')

/-! ## Taking a block -/

section Takes

variable {n lo hi : Nat} {bs bs' : List Block} {b : Block}

theorem Takes.used (h : Takes n bs b bs') : b.used = true := by
  cases h <;> rfl

theorem Takes.fits (h : Takes n bs b bs') : n ≤ b.size := by
  cases h with
  | split => exact Nat.le_refl _
  | whole _ _ _ _ hfit => exact hfit

theorem Takes.tiles (h : Takes n bs b bs') (ht : Tiles lo hi bs) : Tiles lo hi bs' := by
  cases h with
  | split pre post c hfree hfit =>
    rw [tiles_middle] at ht ⊢
    refine ⟨ht.1, rfl, ?_⟩
    have : c.addr + (c.size - n) + n = c.addr + c.size := by
      unfold memHeapMinSize memBlockMinSize memBlockHeadSize at hfit
      omega
    rw [this]
    exact ht.2
  | whole pre post c hfree hfit =>
    rw [tiles_middle] at ht ⊢
    exact ht

theorem Takes.sizes (h : Takes n bs b bs') (hn : 4 ∣ n) (hn12 : 12 ≤ n)
    (hs : ∀ c ∈ bs, SizeOk c) : ∀ c ∈ bs', SizeOk c := by
  cases h with
  | split pre post d hfree hfit =>
    have hd := hs d (by simp)
    intro c hc
    simp only [List.mem_append, List.mem_cons] at hc
    unfold memHeapMinSize memBlockMinSize memBlockHeadSize at hfit
    rcases hc with hc | rfl | rfl | hc
    · exact hs c (by simp [hc])
    · exact ⟨Nat.dvd_sub hd.1 hn, by simp only; omega⟩
    · exact ⟨hn, hn12⟩
    · exact hs c (by simp [hc])
  | whole pre post d hfree hfit =>
    intro c hc
    simp only [List.mem_append, List.mem_cons] at hc
    rcases hc with hc | rfl | hc
    · exact hs c (by simp [hc])
    · exact hs d (by simp)
    · exact hs c (by simp [hc])

theorem Takes.freeBytes (h : Takes n bs b bs') : freeBytes bs' + b.size = freeBytes bs := by
  cases h with
  | split pre post c hfree hfit =>
    rw [freeBytes_append, freeBytes_append, freeBytes_cons_free rfl, freeBytes_cons_used rfl,
      freeBytes_cons_free hfree]
    unfold memHeapMinSize memBlockMinSize memBlockHeadSize at hfit
    simp only
    omega
  | whole pre post c hfree hfit =>
    rw [freeBytes_append, freeBytes_append, freeBytes_cons_used rfl, freeBytes_cons_free hfree]
    simp only
    omega

/-- The used blocks gain exactly the block taken. -/
theorem Takes.mem_used (h : Takes n bs b bs') (c : Block) :
    c ∈ bs' ∧ c.used = true ↔ c = b ∨ c ∈ bs ∧ c.used = true := by
  cases h with
  | split pre post d hfree hfit =>
    simp only [List.mem_append, List.mem_cons]
    constructor
    · rintro ⟨hc | rfl | rfl | hc, hu⟩
      · exact Or.inr ⟨Or.inl hc, hu⟩
      · simp at hu
      · exact Or.inl rfl
      · exact Or.inr ⟨Or.inr (Or.inr hc), hu⟩
    · rintro (rfl | ⟨hc | rfl | hc, hu⟩)
      · exact ⟨Or.inr (Or.inr (Or.inl rfl)), rfl⟩
      · exact ⟨Or.inl hc, hu⟩
      · rw [hfree] at hu
        simp at hu
      · exact ⟨Or.inr (Or.inr (Or.inr hc)), hu⟩
  | whole pre post d hfree hfit =>
    simp only [List.mem_append, List.mem_cons]
    constructor
    · rintro ⟨hc | rfl | hc, hu⟩
      · exact Or.inr ⟨Or.inl hc, hu⟩
      · exact Or.inl rfl
      · exact Or.inr ⟨Or.inr (Or.inr hc), hu⟩
    · rintro (rfl | ⟨hc | rfl | hc, hu⟩)
      · exact ⟨Or.inr (Or.inl rfl), rfl⟩
      · exact ⟨Or.inl hc, hu⟩
      · rw [hfree] at hu
        simp at hu
      · exact ⟨Or.inr (Or.inr hc), hu⟩

/-- The block taken lies inside a block that was free. -/
theorem Takes.inside_free (h : Takes n bs b bs') :
    ∃ c ∈ bs, c.used = false ∧ c.addr ≤ b.addr ∧ b.addr + b.size ≤ c.addr + c.size := by
  cases h with
  | split pre post c hfree hfit =>
    unfold memHeapMinSize memBlockMinSize memBlockHeadSize at hfit
    exact ⟨c, by simp, hfree, by simp only; omega, by simp only; omega⟩
  | whole pre post c hfree hfit => exact ⟨c, by simp, hfree, Nat.le_refl _, Nat.le_refl _⟩

/-- The block taken lies apart from the blocks in use. -/
theorem Takes.apart_used (h : Takes n bs b bs') (ht : Tiles lo hi bs) {c : Block} (hc : c ∈ bs)
    (hu : c.used = true) : c.addr + c.size ≤ b.addr ∨ b.addr + b.size ≤ c.addr := by
  obtain ⟨d, hd, hdf, hlo, hhi⟩ := h.inside_free
  have hne : c ≠ d := by
    rintro rfl
    rw [hu] at hdf
    simp at hdf
  have := ht.apart_of_ne hd hc hne
  omega

/-- The block taken was not in use. -/
theorem Takes.fresh (h : Takes n bs b bs') (ht : Tiles lo hi bs) (hs : ∀ c ∈ bs, SizeOk c)
    (hb : b ∈ bs) : b.used ≠ true := by
  intro hu
  have h1 := h.apart_used ht hb hu
  have h2 := (hs b hb).2
  omega

theorem coalesced_cons {post : List Block} {c : Block} :
    Coalesced (c :: post) ↔
      Coalesced post ∧ ∀ r ∈ post.head?, c.used = true ∨ r.used = true := by
  unfold Coalesced
  rw [List.isChain_cons, and_comm]

/-- A layout around one block: only the two neighbours see it. -/
theorem coalesced_middle {pre post : List Block} {c : Block} :
    Coalesced (pre ++ c :: post) ↔ Coalesced pre ∧ Coalesced post ∧
      (∀ q ∈ pre.getLast?, q.used = true ∨ c.used = true) ∧
      ∀ r ∈ post.head?, c.used = true ∨ r.used = true := by
  unfold Coalesced
  rw [List.isChain_append, List.isChain_cons]
  simp only [List.head?_cons, Option.mem_some_iff, forall_eq']
  tauto

/-- Free blocks of a coalesced layout do not touch. -/
theorem coalesced_apart (ht : Tiles lo hi bs) (hs : ∀ x ∈ bs, SizeOk x) (hc : Coalesced bs) :
    ∀ x ∈ bs, ∀ y ∈ bs, x.used = false → y.used = false → x.addr + x.size ≠ y.addr := by
  intro x hx y hy hxf hyf heq
  obtain ⟨pre, post, rfl⟩ := List.append_of_mem hx
  obtain ⟨h1, h2⟩ := tiles_middle.mp ht
  obtain ⟨-, -, -, hnext⟩ := coalesced_middle.mp hc
  have hx12 := (hs x hx).2
  have hy12 := (hs y hy).2
  rcases List.mem_append.mp hy with hy | hy
  · have := h1.bounds hy
    omega
  · rcases List.mem_cons.mp hy with rfl | hy
    · omega
    · -- `y` starts where `x` ends, so it is the block right after `x`
      cases post with
      | nil => simp at hy
      | cons z post =>
        obtain ⟨hz, ht'⟩ := h2
        have hzu : z.used = true := by simpa [hxf] using hnext z
        rcases List.mem_cons.mp hy with rfl | hy
        · rw [hzu] at hyf
          simp at hyf
        · have hz12 := (hs z (by simp)).2
          have := ht'.bounds hy
          omega

/-- The addresses of the free blocks increase. -/
theorem freeAddrs_increasing (ht : Tiles lo hi bs) (hs : ∀ x ∈ bs, SizeOk x) :
    (freeAddrs bs).Pairwise (· < ·) := by
  rw [freeAddrs, List.pairwise_map]
  have hp : (freeBlocks bs).Pairwise fun x y => x.addr + x.size ≤ y.addr :=
    ht.pairwise.sublist List.filter_sublist
  refine hp.imp_of_mem ?_
  intro x y hx _ hxy
  have := (hs x (mem_freeBlocks.mp hx).1).2
  omega

theorem Takes.coalesced (h : Takes n bs b bs') (hc : Coalesced bs) : Coalesced bs' := by
  cases h with
  | split pre post c hfree hfit =>
    obtain ⟨h1, h2, h3, -⟩ := coalesced_middle.mp hc
    refine coalesced_middle.mpr ⟨h1, coalesced_cons.mpr ⟨h2, fun r _ => Or.inl rfl⟩, ?_, ?_⟩
    · intro q hq
      simpa [hfree] using h3 q hq
    · intro r hr
      simp only [List.head?_cons, Option.mem_some_iff] at hr
      subst hr
      exact Or.inr rfl
  | whole pre post c hfree hfit =>
    obtain ⟨h1, h2, -, -⟩ := coalesced_middle.mp hc
    exact coalesced_middle.mpr ⟨h1, h2, fun q _ => Or.inr rfl, fun r _ => Or.inl rfl⟩

end Takes

/-! ## Releasing a block -/

section Releases

variable {lo hi : Nat} {bs bs' pre pre' post post' : List Block} {b c : Block}

theorem JoinsLeft.free (h : JoinsLeft b pre pre' c) : c.used = false := by
  cases h <;> rfl

theorem JoinsLeft.grows (h : JoinsLeft b pre pre' c) : b.size ≤ c.size := by
  cases h with
  | alone => exact Nat.le_refl _
  | merge pre q hq => exact Nat.le_add_left ..

theorem JoinsLeft.tiles (h : JoinsLeft b pre pre' c) (ht : Tiles lo b.addr pre) :
    Tiles lo c.addr pre' ∧ c.addr + c.size = b.addr + b.size := by
  cases h with
  | alone => exact ⟨ht, rfl⟩
  | merge pre q hq =>
    obtain ⟨mid, h1, rfl, h2⟩ := tiles_append.mp ht
    refine ⟨h1, ?_⟩
    have : q.addr + q.size = b.addr := h2
    simp only
    omega

/-- The merged area starts at the released block, or at the free block on its left. -/
theorem JoinsLeft.addr_cases (h : JoinsLeft b pre pre' c) (ht : Tiles lo b.addr pre)
    (hs : ∀ x ∈ pre, SizeOk x) : c.addr = b.addr ∨ c.addr + 12 ≤ b.addr := by
  cases h with
  | alone pre h => exact Or.inl rfl
  | merge pre q hq =>
    obtain ⟨mid, -, hq', hend⟩ := tiles_append.mp ht
    have hsize := (hs q (by simp)).2
    have hend' : q.addr + q.size = b.addr := by
      rw [hq']
      exact hend
    right
    show q.addr + 12 ≤ b.addr
    omega

theorem JoinsLeft.sizes (h : JoinsLeft b pre pre' c) (hb : SizeOk b)
    (hs : ∀ x ∈ pre, SizeOk x) : (∀ x ∈ pre', SizeOk x) ∧ SizeOk c := by
  cases h with
  | alone => exact ⟨hs, hb⟩
  | merge pre q hq =>
    have hqs := hs q (by simp)
    refine ⟨fun x hx => hs x (by simp [hx]), Nat.dvd_add hqs.1 hb.1, ?_⟩
    have := hqs.2
    simp only
    omega

theorem JoinsLeft.coalesced (h : JoinsLeft b pre pre' c) (hc : Coalesced pre) :
    Coalesced pre' ∧ ∀ q ∈ pre'.getLast?, q.used = true := by
  cases h with
  | alone _ h => exact ⟨hc, fun q hq => h q hq⟩
  | merge pre q hq =>
    obtain ⟨h1, -, h3, -⟩ := coalesced_middle.mp hc
    refine ⟨h1, fun r hr => ?_⟩
    simpa [hq] using h3 r hr

theorem JoinsLeft.freeBytes (h : JoinsLeft b pre pre' c) :
    freeBytes pre' + c.size = freeBytes pre + b.size := by
  cases h with
  | alone => rfl
  | merge pre q hq =>
    rw [freeBytes_append, freeBytes_cons_free hq]
    simp [TuyaMemHeap.freeBytes, freeBlocks]
    omega

theorem JoinsLeft.mem_used (h : JoinsLeft b pre pre' c) (x : Block) :
    x ∈ pre' ∧ x.used = true ↔ x ∈ pre ∧ x.used = true := by
  cases h with
  | alone => rfl
  | merge pre q hq =>
    simp only [List.mem_append, List.mem_singleton]
    constructor
    · rintro ⟨hx, hu⟩
      exact ⟨Or.inl hx, hu⟩
    · rintro ⟨hx | rfl, hu⟩
      · exact ⟨hx, hu⟩
      · rw [hq] at hu
        simp at hu

theorem JoinsRight.keeps (h : JoinsRight b post c post') : c.addr = b.addr ∧ c.used = b.used := by
  cases h <;> exact ⟨rfl, rfl⟩

theorem JoinsRight.grows (h : JoinsRight b post c post') : b.size ≤ c.size := by
  cases h with
  | alone => exact Nat.le_refl _
  | merge post r hr => exact Nat.le_add_right ..

theorem JoinsRight.tiles (h : JoinsRight b post c post')
    (ht : Tiles (b.addr + b.size) hi post) : Tiles (c.addr + c.size) hi post' := by
  cases h with
  | alone => exact ht
  | merge post r hr =>
    have := ht.2
    simp only
    rwa [← Nat.add_assoc]

theorem JoinsRight.sizes (h : JoinsRight b post c post') (hb : SizeOk b)
    (hs : ∀ x ∈ post, SizeOk x) : (∀ x ∈ post', SizeOk x) ∧ SizeOk c := by
  cases h with
  | alone => exact ⟨hs, hb⟩
  | merge post r hr =>
    have hrs := hs r (by simp)
    refine ⟨fun x hx => hs x (by simp [hx]), Nat.dvd_add hb.1 hrs.1, ?_⟩
    have := hb.2
    simp only
    omega

theorem JoinsRight.coalesced (h : JoinsRight b post c post') (hc : Coalesced post) :
    Coalesced post' ∧ ∀ r ∈ post'.head?, r.used = true := by
  cases h with
  | alone _ h => exact ⟨hc, fun r hr => h r hr⟩
  | merge post r hr =>
    obtain ⟨h1, h2⟩ := coalesced_cons.mp hc
    refine ⟨h1, fun x hx => ?_⟩
    simpa [hr] using h2 x hx

theorem JoinsRight.freeBytes (h : JoinsRight b post c post') :
    freeBytes post' + c.size = freeBytes post + b.size := by
  cases h with
  | alone => rfl
  | merge post r hr =>
    rw [freeBytes_cons_free hr]
    simp only
    omega

theorem JoinsRight.mem_used (h : JoinsRight b post c post') (x : Block) :
    x ∈ post' ∧ x.used = true ↔ x ∈ post ∧ x.used = true := by
  cases h with
  | alone => rfl
  | merge post r hr =>
    simp only [List.mem_cons]
    constructor
    · rintro ⟨hx, hu⟩
      exact ⟨Or.inr hx, hu⟩
    · rintro ⟨rfl | hx, hu⟩
      · rw [hr] at hu
        simp at hu
      · exact ⟨hx, hu⟩

theorem Releases.tiles (h : Releases b bs bs') (ht : Tiles lo hi bs) : Tiles lo hi bs' := by
  cases h with
  | intro hused hleft hright =>
    obtain ⟨h1, h2⟩ := tiles_middle.mp ht
    obtain ⟨h3, hend⟩ := hleft.tiles h1
    rw [← hend] at h2
    refine tiles_middle.mpr ⟨?_, hright.tiles h2⟩
    rw [hright.keeps.1]
    exact h3

theorem Releases.sizes (h : Releases b bs bs') (hs : ∀ x ∈ bs, SizeOk x) :
    ∀ x ∈ bs', SizeOk x := by
  cases h with
  | intro hused hleft hright =>
    obtain ⟨h1, h2⟩ := hleft.sizes (hs b (by simp)) fun x hx => hs x (by simp [hx])
    obtain ⟨h3, h4⟩ := hright.sizes h2 fun x hx => hs x (by simp [hx])
    intro x hx
    rcases List.mem_append.mp hx with hx | hx
    · exact h1 x hx
    · rcases List.mem_cons.mp hx with rfl | hx
      · exact h4
      · exact h3 x hx

theorem Releases.coalesced (h : Releases b bs bs') (hc : Coalesced bs) : Coalesced bs' := by
  cases h with
  | intro hused hleft hright =>
    obtain ⟨h1, h2, -, -⟩ := coalesced_middle.mp hc
    obtain ⟨h3, h4⟩ := hleft.coalesced h1
    obtain ⟨h5, h6⟩ := hright.coalesced h2
    exact coalesced_middle.mpr
      ⟨h3, h5, fun q hq => Or.inl (h4 q hq), fun r hr => Or.inr (h6 r hr)⟩

theorem Releases.freeBytes (h : Releases b bs bs') :
    freeBytes bs' = freeBytes bs + b.size := by
  cases h with
  | intro hused hleft hright =>
    have h1 := hleft.freeBytes
    have h2 := hright.freeBytes
    have hfree := hright.keeps.2.trans hleft.free
    rw [freeBytes_append, freeBytes_append, freeBytes_cons_free hfree, freeBytes_cons_used hused]
    omega

/-- The used blocks lose exactly the block released. -/
theorem Releases.mem_used (h : Releases b bs bs') (ht : Tiles lo hi bs)
    (hs : ∀ x ∈ bs, SizeOk x) (x : Block) :
    x ∈ bs' ∧ x.used = true ↔ x ∈ bs ∧ x.used = true ∧ x ≠ b := by
  cases h with
  | @intro pre post pre' post' c d hused hleft hright =>
    have hfree := hright.keeps.2.trans hleft.free
    have hne : ∀ y, y ∈ pre ∨ y ∈ post → y ≠ b := by
      rintro y hy rfl
      have h1 := ht.apart hy
      have h2 := (hs y (by simp)).2
      omega
    have h1 := hleft.mem_used x
    have h2 := hright.mem_used x
    simp only [List.mem_append, List.mem_cons]
    constructor
    · rintro ⟨hx | rfl | hx, hu⟩
      · have := (h1.mp ⟨hx, hu⟩).1
        exact ⟨Or.inl this, hu, hne x (Or.inl this)⟩
      · rw [hfree] at hu
        simp at hu
      · have := (h2.mp ⟨hx, hu⟩).1
        exact ⟨Or.inr (Or.inr this), hu, hne x (Or.inr this)⟩
    · rintro ⟨hx | rfl | hx, hu, hxb⟩
      · exact ⟨Or.inl (h1.mpr ⟨hx, hu⟩).1, hu⟩
      · exact absurd rfl hxb
      · exact ⟨Or.inr (Or.inr (h2.mpr ⟨hx, hu⟩).1), hu⟩

end Releases

end TuyaSdk.TuyaMemHeap
