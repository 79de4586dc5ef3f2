import TuyaSdk.TklAdc.Defs

/-!
# The median of the samples

`MinHeapInsert` and `MinHeapReplace` keep the heap order and hold what they should, so the heap
behind the two loops holds the larger half of the samples (`largerHalf_spec`). Its root is the
median when their number is odd, and the samples near it, of which it is one, have an average
near it (`median_filtered`).
-/

namespace TuyaSdk.TklAdc
open TuyaSdk.Lib TuyaSdk.Lib.MinHeap

variable {heap pData : Nat → Nat} {n x : Nat}

/-! ## The two functions on a heap -/

/-- The heap that `MinHeapInsert` leaves: it is ordered, holds one element more, and is as it
was behind it. -/
structure Inserted (heap heap' : Nat → Nat) (n x : Nat) : Prop where
  ordered : Ordered heap' (n + 1)
  elems : elems heap' (n + 1) = x ::ₘ MinHeap.elems heap n
  outside : ∀ i, n < i → heap' i = heap i

/-- `MinHeapInsert` on a heap. -/
theorem minHeapInsert_spec (h : Ordered heap n) (x : Nat) :
    ∃ heap', minHeapInsert heap n x = some (heap', n + 1) ∧ Inserted heap heap' n x := by
  have hrun : ∃ v, Loop.run (insertPass x) (n + 1) ⟨heap, n⟩ = some v ∧
      Inserted heap (put v.heap v.p x) n x := by
    refine Loop.run_spec (I := fun v => Rises v.heap (n + 1) v.p x ∧
      MinHeap.elems (put v.heap v.p x) (n + 1) = x ::ₘ MinHeap.elems heap n ∧
      ∀ i, n < i → v.heap i = heap i)
      HeapVars.p ?_ ?_ ⟨h.rises x, elems_put_last heap n x, fun _ _ => rfl⟩ (Nat.lt_succ_self n)
    · intro v r hI hb
      rw [insertPass] at hb
      split at hb
      next => cases hb
      next hstop =>
        cases hb
        have hlt := hI.1.lt
        refine ⟨hI.1.done ?_, hI.2.1, fun i hi => ?_⟩
        · by_cases h0 : v.p = 0
          · exact .inl h0
          · exact .inr (Nat.le_of_not_lt fun hlt => hstop ⟨h0, hlt⟩)
        · rw [put_other (by omega), hI.2.2 i hi]
    · intro v v' hI hb
      rw [insertPass] at hb
      split at hb
      next hgo =>
        cases hb
        have hpos : 0 < v.p := Nat.pos_of_ne_zero hgo.1
        have hlt := hI.1.lt
        refine ⟨⟨hI.1.up hpos hgo.2, ?_, fun i hi => ?_⟩, by simp only; omega⟩
        · rw [← hI.2.1]
          exact elems_move v.heap hlt (by omega) x
        · exact (put_other (by omega)).trans (hI.2.2 i hi)
      next => cases hb
  obtain ⟨v, hv, hins⟩ := hrun
  exact ⟨_, by rw [minHeapInsert, hv]; rfl, hins⟩

/-- The heap that `MinHeapReplace` leaves: it is ordered, and the element is in place of the
root. -/
structure Replaced (heap heap' : Nat → Nat) (n x : Nat) : Prop where
  ordered : Ordered heap' n
  elems : heap 0 ::ₘ elems heap' n = x ::ₘ MinHeap.elems heap n
  outside : ∀ i, n ≤ i → heap' i = heap i

/-- A child is the left one or the right one. -/
theorem child_cases {d p : Nat} (hd : 0 < d) (hp : parent d = p) :
    d = 2 * p + 1 ∨ d = 2 * p + 2 := by
  unfold parent at hp
  omega

/-- One pass of `MinHeapReplace`: the hole goes to the lesser child while that is below the
element, or stays above none. -/
theorem replacePass_cases (heap : Nat → Nat) (x : Nat) {p : Nat} (hp : p < n) :
    (∃ c, replacePass n x ⟨heap, p⟩ = .again ⟨put heap p (heap c), c⟩ ∧ 0 < c ∧ c < n ∧
      parent c = p ∧ heap c < x ∧ ∀ d, 0 < d → d < n → parent d = p → heap c ≤ heap d) ∨
    (replacePass n x ⟨heap, p⟩ = .exit ⟨heap, p⟩ ∧
      ∀ d, 0 < d → d < n → parent d = p → x ≤ heap d) := by
  have hleft : parent (2 * p + 1) = p := by unfold parent; omega
  have hright : parent (2 * p + 2) = p := by unfold parent; omega
  rw [replacePass, if_pos hp]
  by_cases hl : 2 * p + 1 < n ∧ x > heap (2 * p + 1)
  · simp only [if_pos hl]
    by_cases hr : 2 * p + 2 < n ∧ heap (2 * p + 1) > heap (2 * p + 2)
    · rw [if_pos hr]
      refine .inl ⟨_, rfl, by omega, hr.1, hright, Nat.lt_trans hr.2 hl.2, ?_⟩
      intro d hd _ hdp
      rcases child_cases hd hdp with rfl | rfl
      · exact Nat.le_of_lt hr.2
      · exact Nat.le_refl _
    · rw [if_neg hr]
      refine .inl ⟨_, rfl, by omega, hl.1, hleft, hl.2, ?_⟩
      intro d hd hdn hdp
      rcases child_cases hd hdp with rfl | rfl
      · exact Nat.le_refl _
      · exact Nat.le_of_not_lt fun hlt => hr ⟨hdn, hlt⟩
  · simp only [if_neg hl]
    by_cases hr : 2 * p + 2 < n ∧ x > heap (2 * p + 2)
    · rw [if_pos hr]
      refine .inl ⟨_, rfl, by omega, hr.1, hright, hr.2, ?_⟩
      intro d hd hdn hdp
      rcases child_cases hd hdp with rfl | rfl
      · have hle : x ≤ heap (2 * p + 1) := Nat.le_of_not_lt fun hlt => hl ⟨hdn, hlt⟩
        exact Nat.le_of_lt (Nat.lt_of_lt_of_le hr.2 hle)
      · exact Nat.le_refl _
    · rw [if_neg hr]
      refine .inr ⟨rfl, ?_⟩
      intro d hd hdn hdp
      rcases child_cases hd hdp with rfl | rfl
      · exact Nat.le_of_not_lt fun hlt => hl ⟨hdn, hlt⟩
      · exact Nat.le_of_not_lt fun hlt => hr ⟨hdn, hlt⟩

/-- `MinHeapReplace` on a heap. -/
theorem minHeapReplace_spec (h : Ordered heap n) (hn : 0 < n) (x : Nat) :
    ∃ heap', minHeapReplace heap n x = some (heap', heap 0) ∧ Replaced heap heap' n x := by
  have hrun : ∃ v, Loop.run (replacePass n x) (n + 1) ⟨heap, 0⟩ = some v ∧
      Replaced heap (put v.heap v.p x) n x := by
    refine Loop.run_spec (I := fun v => Sinks v.heap n v.p x ∧
      heap 0 ::ₘ MinHeap.elems (put v.heap v.p x) n = x ::ₘ MinHeap.elems heap n ∧
      ∀ i, n ≤ i → v.heap i = heap i)
      (fun v => n - v.p) ?_ ?_ ⟨h.sinks hn x, elems_put_root heap hn x, fun _ _ => rfl⟩
      (Nat.lt_succ_of_le (Nat.sub_le n 0))
    · rintro ⟨heap₁, p⟩ r ⟨hs, he, hout⟩ hb
      have hlt : p < n := hs.lt
      rcases replacePass_cases heap₁ x hs.lt with ⟨c, hc, _⟩ | ⟨hexit, hstop⟩
      · rw [hc] at hb
        cases hb
      · rw [hexit] at hb
        cases hb
        refine ⟨hs.done hstop, he, fun i hi => ?_⟩
        rw [put_other (by simp only; omega)]
        exact hout i hi
    · rintro ⟨heap₁, p⟩ v' ⟨hs, he, hout⟩ hb
      have hlt : p < n := hs.lt
      rcases replacePass_cases heap₁ x hs.lt with
        ⟨c, hc, hpos, hcn, hparent, hx, hmin⟩ | ⟨hexit, _⟩
      · rw [hc] at hb
        cases hb
        refine ⟨⟨hs.down hpos hcn hparent hx hmin, ?_, fun i hi => ?_⟩, ?_⟩
        · rw [← he]
          congr 1
          exact elems_move heap₁ hlt hcn x
        · have hip : i ≠ p := by omega
          exact (put_other hip).trans (hout i hi)
        · have hparent' : (c - 1) / 2 = p := hparent
          change n - c < n - p
          omega
      · rw [hexit] at hb
        cases hb
  obtain ⟨v, hv, hrep⟩ := hrun
  exact ⟨_, by rw [minHeapReplace, hv]; rfl, hrep⟩

/-! ## The loops over the samples -/

/-- The heap of `k` elements holds the largest of the first `index` samples. -/
structure HoldsLargest (pData heap : Nat → Nat) (k index : Nat) : Prop where
  ordered : Ordered heap k
  largest : Largest (elems heap k) (elems pData index)

/-- The first samples all go to the heap. -/
theorem insertSamples_spec (pData : Nat → Nat) (m : Nat) {index : Nat} (h : Ordered heap index)
    (he : elems heap index = elems pData index) :
    ∃ heap', insertSamples pData m index heap = some heap' ∧ Ordered heap' (index + m) ∧
      elems heap' (index + m) = elems pData (index + m) ∧
      ∀ i, index + m ≤ i → heap' i = heap i := by
  induction m generalizing index heap with
  | zero => exact ⟨heap, rfl, h, he, fun _ _ => rfl⟩
  | succ m ih =>
    obtain ⟨heap', hins, hord, hel, hout⟩ := minHeapInsert_spec h (pData index)
    have hel' : elems heap' (index + 1) = elems pData (index + 1) := by
      rw [hel, he, elems_succ pData]
    obtain ⟨heap'', hrest, hord', hel'', hout'⟩ := ih hord hel'
    refine ⟨heap'', ?_, ?_⟩
    · rw [insertSamples, hins]
      exact hrest
    · rw [show index + (m + 1) = index + 1 + m by omega]
      exact ⟨hord', hel'', fun i hi => (hout' i hi).trans (hout i (by omega))⟩

/-- The other samples replace the root when they are larger. -/
theorem replaceSamples_spec (m : Nat) {k index : Nat} (hk : 0 < k)
    (h : HoldsLargest pData heap k index) :
    ∃ heap', replaceSamples pData k m index heap = some heap' ∧
      HoldsLargest pData heap' k (index + m) ∧ ∀ i, k ≤ i → heap' i = heap i := by
  induction m generalizing index heap with
  | zero => exact ⟨heap, rfl, h, fun _ _ => rfl⟩
  | succ m ih =>
    rw [show index + (m + 1) = index + 1 + m by omega]
    have hroot : heap 0 ∈ elems heap k := mem_elems.mpr ⟨0, hk, rfl⟩
    rw [replaceSamples]
    by_cases hlt : heap 0 < pData index
    · obtain ⟨heap', hrep, hord, hel, hout⟩ := minHeapReplace_spec h.ordered hk (pData index)
      have hnext : HoldsLargest pData heap' k (index + 1) := by
        refine ⟨hord, ?_⟩
        rw [elems_succ]
        exact h.largest.replace hel hroot h.ordered.root_le_elems (Nat.le_of_lt hlt)
      obtain ⟨heap'', hrest, hholds, hout'⟩ := ih hnext
      refine ⟨heap'', ?_, hholds, fun i hi => (hout' i hi).trans (hout i hi)⟩
      rw [if_pos hlt, hrep]
      exact hrest
    · have hnext : HoldsLargest pData heap k (index + 1) := by
        refine ⟨h.ordered, ?_⟩
        rw [elems_succ]
        exact h.largest.skip fun y hy =>
          (Nat.le_of_not_lt hlt).trans (h.ordered.root_le_elems y hy)
      obtain ⟨heap'', hrest, hholds⟩ := ih hnext
      exact ⟨heap'', by rw [if_neg hlt, hrest], hholds⟩

/-- The heap behind the two loops holds the larger half of the samples, in as many places. -/
theorem largerHalf_spec (pData : Nat → Nat) (hn : 0 < n) (heap : Nat → Nat) :
    ∃ heap', largerHalf pData n heap = some heap' ∧
      HoldsLargest pData heap' ((n + 1) / 2) n ∧ ∀ i, (n + 1) / 2 ≤ i → heap' i = heap i := by
  have hempty : Ordered heap 0 := fun i _ hi => absurd hi (Nat.not_lt_zero i)
  obtain ⟨heap₁, hins, hord, hel, hout⟩ :=
    insertSamples_spec pData ((n + 1) / 2) hempty rfl
  rw [Nat.zero_add] at hord hel hout
  have hholds : HoldsLargest pData heap₁ ((n + 1) / 2) ((n + 1) / 2) :=
    ⟨hord, by rw [hel]; exact Largest.refl _⟩
  obtain ⟨heap₂, hrep, hholds₂, hout₂⟩ :=
    replaceSamples_spec (n - (n + 1) / 2) (by omega : 0 < (n + 1) / 2) hholds
  rw [show (n + 1) / 2 + (n - (n + 1) / 2) = n by omega] at hholds₂
  exact ⟨heap₂, by rw [largerHalf, hins]; exact hrep, hholds₂,
    fun i hi => (hout₂ i hi).trans (hout i hi)⟩

/-- The root of the larger half is the median. -/
theorem HoldsLargest.median (h : HoldsLargest pData heap ((n + 1) / 2) n) (hodd : n % 2 = 1) :
    ((elems pData n).sort (· ≤ ·))[n / 2]? = some (heap 0) := by
  have hlen : n / 2 < ((elems pData n).sort (· ≤ ·)).length := by
    rw [Multiset.length_sort, card_elems]
    omega
  rw [List.getElem?_eq_getElem hlen]
  congr 1
  refine h.largest.getElem_sort (mem_elems.mpr ⟨0, by omega, rfl⟩) h.ordered.root_le_elems hlen ?_
  rw [card_elems, card_elems]
  omega

/-- The root is one of the samples. -/
theorem HoldsLargest.root_mem {k : Nat} (h : HoldsLargest pData heap k n) (hk : 0 < k) :
    ∃ i < n, pData i = heap 0 := by
  obtain ⟨R, hR, _⟩ := h.largest
  have hmem : heap 0 ∈ elems pData n := by
    rw [hR]
    exact Multiset.mem_add.mpr (.inl (mem_elems.mpr ⟨0, hk, rfl⟩))
  exact mem_elems.mp hmem

/-! ## The average -/

/-- The sample `x` is near the median `m`. -/
def Near (m x : Nat) : Prop := x ≤ m + 0x5 ∧ m ≤ x + 0x5

instance (m x : Nat) : Decidable (Near m x) := inferInstanceAs (Decidable (_ ∧ _))

theorem addSample_near {m : Nat} (h : Near m x) (t : Total) :
    addSample m x t = ⟨t.count + 1, u32 (t.sum + x)⟩ :=
  if_neg fun hfar => hfar.elim (Nat.not_lt.mpr h.1) (Nat.not_lt.mpr h.2)

theorem addSample_far {m : Nat} (h : ¬ Near m x) (t : Total) : addSample m x t = t := by
  refine if_pos ?_
  by_contra hno
  rw [not_or] at hno
  exact h ⟨Nat.not_lt.mp hno.1, Nat.not_lt.mp hno.2⟩

theorem addSamples_succ (pData : Nat → Nat) (m n : Nat) :
    addSamples pData m (n + 1) = addSample m (pData n) (addSamples pData m n) := by
  rw [addSamples, addSamples, List.range_succ, List.foldl_append]
  rfl

/-- A sample near the median is counted. -/
theorem count_pos {m : Nat} (h : ∃ i < n, Near m (pData i)) : 1 ≤ (addSamples pData m n).count := by
  induction n with
  | zero =>
    obtain ⟨i, hi, _⟩ := h
    exact absurd hi (Nat.not_lt_zero i)
  | succ n ih =>
    rw [addSamples_succ]
    by_cases hn : Near m (pData n)
    · rw [addSample_near hn]
      exact Nat.le_add_left 1 _
    · rw [addSample_far hn]
      obtain ⟨i, hi, hnear⟩ := h
      refine ih ⟨i, ?_, hnear⟩
      rcases Nat.lt_or_eq_of_le (Nat.le_of_lt_succ hi) with hlt | rfl
      · exact hlt
      · exact absurd hnear hn

/-- The sum of as many samples near `m` as were counted, without an overflow. -/
structure SumNear (m n : Nat) (t : Total) : Prop where
  lower : t.count * m ≤ t.sum + 5 * t.count
  upper : t.sum ≤ t.count * (m + 5)
  count_le : t.count ≤ n

theorem addSamples_sumNear (pData : Nat → Nat) {m : Nat} (hm : m ≤ 4095) (hn : n ≤ 2 ^ 16) :
    SumNear m n (addSamples pData m n) := by
  induction n with
  | zero => exact ⟨Nat.le_of_eq (Nat.zero_mul m), Nat.zero_le _, Nat.le_refl 0⟩
  | succ n ih =>
    have hs := ih (by omega)
    rw [addSamples_succ]
    by_cases hnear : Near m (pData n)
    · have hfit : (addSamples pData m n).sum + pData n < 2 ^ 32 := by
        have hle := Nat.mul_le_mul hs.count_le (Nat.add_le_add_right hm 5)
        have hupper := hs.upper
        have hx := hnear.1
        omega
      rw [addSample_near hnear, u32_of_lt hfit]
      generalize addSamples pData m n = t at hs
      obtain ⟨hlower, hupper, hcount⟩ := hs
      refine ⟨?_, ?_, Nat.succ_le_succ hcount⟩
      · have hx := hnear.2
        simp only [Nat.add_mul, Nat.one_mul]
        omega
      · have hx := hnear.1
        simp only [Nat.add_mul, Nat.one_mul]
        omega
    · rw [addSample_far hnear]
      exact ⟨hs.lower, hs.upper, Nat.le_succ_of_le hs.count_le⟩

/-- The average of samples near `m` is near `m`. -/
theorem SumNear.average {m : Nat} {t : Total} (h : SumNear m n t) (hpos : 1 ≤ t.count) :
    Near m (t.sum / t.count) := by
  constructor
  · refine Nat.div_le_of_le_mul ?_
    exact h.upper
  · have hle : m - 5 ≤ t.sum / t.count := by
      rw [Nat.le_div_iff_mul_le hpos, Nat.sub_mul, Nat.mul_comm m]
      have hlower := h.lower
      omega
    omega

/-- Whatever the samples are, the filter divides by a positive number. -/
theorem medianFilter_isSome (pData : Nat → Nat) (hn : 0 < n) (heap : Nat → Nat) :
    ∃ average, medianFilter pData n heap = some average := by
  obtain ⟨heap', hhalf, hholds, _⟩ := largerHalf_spec pData hn heap
  obtain ⟨i, hi, hroot⟩ := hholds.root_mem (by omega)
  have hnear : Near (heap' 0) (pData i) := by
    rw [hroot]
    exact ⟨Nat.le_add_right _ _, Nat.le_add_right _ _⟩
  have hpos := count_pos ⟨i, hi, hnear⟩
  rw [medianFilter, hhalf]
  exact ⟨_, if_neg (Nat.ne_of_gt hpos)⟩

/-- The median of an odd number of samples: behind the two loops the heap, of which only the
first `(n + 1) / 2` places of 127 were written, holds the larger half of the samples in order, so
that its root is the median; a sample is near it, the number of those that are is positive, and
the average that is stored is near it too. -/
theorem median_filtered (pData : Nat → Nat) (n : Nat) (heap : Nat → Nat) (hodd : n % 2 = 1)
    (hn : (n + 1) / 2 ≤ 127) (hval : ∀ i < n, pData i ≤ 4095) :
    ∃ heap' average, largerHalf pData n heap = some heap' ∧
      medianFilter pData n heap = some average ∧
      Ordered heap' ((n + 1) / 2) ∧ (∀ i, 127 ≤ i → heap' i = heap i) ∧
      Largest (elems heap' ((n + 1) / 2)) (elems pData n) ∧
      ((elems pData n).sort (· ≤ ·))[n / 2]? = some (heap' 0) ∧
      (∃ i < n, Near (heap' 0) (pData i)) ∧ 1 ≤ (addSamples pData (heap' 0) n).count ∧
      Near (heap' 0) average := by
  obtain ⟨heap', hhalf, hholds, hout⟩ := largerHalf_spec pData (by omega : 0 < n) heap
  obtain ⟨i, hi, hroot⟩ := hholds.root_mem (by omega)
  have hm : heap' 0 ≤ 4095 := hroot ▸ hval i hi
  have hnear : Near (heap' 0) (pData i) := by
    rw [hroot]
    exact ⟨Nat.le_add_right _ _, Nat.le_add_right _ _⟩
  have hpos := count_pos ⟨i, hi, hnear⟩
  have haverage := (addSamples_sumNear pData hm (by omega : n ≤ 2 ^ 16)).average hpos
  have hfit : (addSamples pData (heap' 0) n).sum / (addSamples pData (heap' 0) n).count <
      2 ^ 16 := by
    have hle := haverage.1
    omega
  refine ⟨heap', _, hhalf, ?_, hholds.ordered, fun i hi => hout i (by omega), hholds.largest,
    hholds.median hodd, ⟨i, hi, hnear⟩, hpos, haverage⟩
  rw [medianFilter, hhalf]
  simp only [if_neg (Nat.ne_of_gt hpos), Nat.mod_eq_of_lt hfit]

/-- Five samples, one of them far off. -/
theorem median_filtered_five : ∃ heap' average,
    largerHalf (fun i => [100, 4000, 103, 98, 101].getD i 0) 5 (fun _ => 0) = some heap' ∧
    medianFilter (fun i => [100, 4000, 103, 98, 101].getD i 0) 5 (fun _ => 0) = some average ∧
    heap' 0 = 101 ∧ Near 101 average := by
  obtain ⟨heap', average, hhalf, hfilter, _, _, _, hmedian, _, _, hnear⟩ :=
    median_filtered (fun i => [100, 4000, 103, 98, 101].getD i 0) 5 (fun _ => 0) (by decide)
      (by decide) (by decide)
  have hroot : (largerHalf (fun i => [100, 4000, 103, 98, 101].getD i 0) 5 (fun _ => 0)).any
      (fun h => h 0 = 101) = true := by decide +kernel
  rw [hhalf] at hroot
  have h101 : heap' 0 = 101 := of_decide_eq_true hroot
  exact ⟨heap', average, hhalf, hfilter, h101, h101 ▸ hnear⟩

end TuyaSdk.TklAdc
