import TuyaSdk.Lib.BubbleSort
import TuyaSdk.Lib.Bytes

/-!
# Sorting bytes

`tuya_byte_sort` of `tuya_tools.c`, a bubble sort in either direction. Each comparison reads two
neighbouring bytes, and an exchange reads and writes them once more.
-/

namespace TuyaSdk.TuyaTools
open TuyaSdk.Lib

/-- The buffer, with the places of it that have been read and written. -/
structure SortBuf where
  buf : Mem
  reads : List Nat
  writes : List Nat

/-- Every place that has been touched is one of the first `n`. -/
def SortBuf.Within (n : Nat) (s : SortBuf) : Prop := ∀ x ∈ s.reads ++ s.writes, x < n

/-- `buf[i]` and `buf[i+1]` are exchanged through `tmp`. -/
def swapBytes (s : SortBuf) (i : Nat) : SortBuf :=
  let tmp := s.buf i
  let buf := write8 s.buf i (s.buf (i + 1))
  let buf := write8 buf (i + 1) tmp
  ⟨buf, s.reads ++ [i, i + 1], s.writes ++ [i, i + 1]⟩

/-- The body of the inner loop. -/
def sortAt (isAscend : Byte) (s : SortBuf) (i : Nat) : SortBuf :=
  let s : SortBuf := ⟨s.buf, s.reads ++ [i, i + 1], s.writes⟩
  if isAscend ≠ 0 then
    if s.buf i > s.buf (i + 1) then swapBytes s i else s
  else
    if s.buf i < s.buf (i + 1) then swapBytes s i else s

/-- The inner loop: `i` goes from 0 to before `len-j`. -/
def sortPass (isAscend : Byte) (n : Nat) (s : SortBuf) (j : Nat) : SortBuf :=
  (List.range (n - j)).foldl (sortAt isAscend) s

/-- `tuya_byte_sort`: `j` goes from 1 to before `len`, and no loop is entered for a `len` that is
not positive. -/
def tuyaByteSort (isAscend : Byte) (buf : Mem) (len : BitVec 32) : SortBuf :=
  let n := len.toInt.toNat
  (List.range' 1 (n - 1)).foldl (sortPass isAscend n) ⟨buf, [], []⟩

/-- The order that the bytes are to be in. -/
def InOrder (isAscend : Byte) (a b : Byte) : Prop := if isAscend ≠ 0 then a ≤ b else b ≤ a

/-- The first `n` bytes are sorted, and no other byte is touched. -/
structure Sorts (isAscend : Byte) (buf : Mem) (n : Nat) (s : SortBuf) : Prop where
  perm : (readBytes s.buf 0 n).Perm (readBytes buf 0 n)
  sorted : (readBytes s.buf 0 n).Pairwise (InOrder isAscend)
  outside : ∀ x, n ≤ x → s.buf x = buf x
  accesses : s.Within n

/-! ## The loops -/

section

variable {β : Type} [LinearOrder β] {key : Byte → β} {isAscend : Byte} {n : Nat}

/-- The exchange that the direction asks for is the one of a smaller key behind a larger. -/
def Sorting (isAscend : Byte) (key : Byte → β) : Prop :=
  ∀ a b, key b < key a ↔ if isAscend ≠ 0 then a > b else a < b

theorem swapBytes_buf (s : SortBuf) (i : Nat) :
    (swapBytes s i).buf = fun x => s.buf (Equiv.swap i (i + 1) x) := by
  funext x
  show write8 (write8 s.buf i (s.buf (i + 1))) (i + 1) (s.buf i) x = _
  by_cases hnext : x = i + 1
  · rw [hnext, write8_same, Equiv.swap_apply_right]
  · rw [write8_apply hnext]
    by_cases hx : x = i
    · rw [hx, write8_same, Equiv.swap_apply_left]
    · rw [write8_apply hx, Equiv.swap_apply_of_ne_of_ne hx hnext]

theorem sortAt_buf (hkey : Sorting isAscend key) (s : SortBuf) (i : Nat) :
    (sortAt isAscend s i).buf = bubbleStep key s.buf i := by
  unfold sortAt bubbleStep
  simp only [hkey (s.buf i) (s.buf (i + 1))]
  split
  · split
    · exact swapBytes_buf _ i
    · rfl
  · split
    · exact swapBytes_buf _ i
    · rfl

/-- Two neighbouring bytes are touched. -/
theorem within_touch {buf buf' : Mem} {reads writes reads' writes' : List Nat} {i : Nat}
    (hs : SortBuf.Within n ⟨buf, reads, writes⟩) (hi : i + 1 < n)
    (hr : ∀ x ∈ reads', x ∈ reads ∨ x = i ∨ x = i + 1)
    (hw : ∀ x ∈ writes', x ∈ writes ∨ x = i ∨ x = i + 1) :
    SortBuf.Within n ⟨buf', reads', writes'⟩ := by
  intro x hx
  rcases List.mem_append.mp hx with hx | hx
  · rcases hr x hx with hx | rfl | rfl
    · exact hs x (List.mem_append_left _ hx)
    · omega
    · exact hi
  · rcases hw x hx with hx | rfl | rfl
    · exact hs x (List.mem_append_right _ hx)
    · omega
    · exact hi

theorem sortAt_within {s : SortBuf} {i : Nat} (hs : s.Within n) (hi : i + 1 < n) :
    (sortAt isAscend s i).Within n := by
  have hread : SortBuf.Within n ⟨s.buf, s.reads ++ [i, i + 1], s.writes⟩ :=
    within_touch hs hi (by simp) fun x hx => Or.inl hx
  have hswap : (swapBytes ⟨s.buf, s.reads ++ [i, i + 1], s.writes⟩ i).Within n :=
    within_touch hread hi (fun x hx => (List.mem_append.mp hx).imp_right (by simp)) (by simp)
  unfold sortAt
  simp only
  split
  · split
    · exact hswap
    · exact hread
  · split
    · exact hswap
    · exact hread

theorem sortPass_buf (hkey : Sorting isAscend key) (s : SortBuf) (j : Nat) :
    (sortPass isAscend n s j).buf = bubblePass key s.buf (n - j) := by
  unfold sortPass bubblePass
  induction List.range (n - j) generalizing s with
  | nil => rfl
  | cons i is ih => rw [List.foldl_cons, List.foldl_cons, ih, sortAt_buf hkey]

theorem sortPass_within {s : SortBuf} {j : Nat} (hs : s.Within n) (hj : 0 < j) :
    (sortPass isAscend n s j).Within n := by
  unfold sortPass
  have hplaces : ∀ i ∈ List.range (n - j), i + 1 < n := fun i hi => by
    have hlt := List.mem_range.mp hi
    omega
  generalize List.range (n - j) = is at hplaces ⊢
  induction is generalizing s with
  | nil => exact hs
  | cons i is ih =>
    rw [List.foldl_cons]
    exact ih (sortAt_within hs (hplaces i List.mem_cons_self))
      fun k hk => hplaces k (List.mem_cons_of_mem _ hk)

theorem passes_buf (hkey : Sorting isAscend key) (s : SortBuf) (js : List Nat) :
    (js.foldl (sortPass isAscend n) s).buf =
      js.foldl (fun f j => bubblePass key f (n - j)) s.buf := by
  induction js generalizing s with
  | nil => rfl
  | cons j js ih => rw [List.foldl_cons, List.foldl_cons, ih, sortPass_buf hkey]

theorem passes_within {s : SortBuf} {js : List Nat} (hs : s.Within n) (hjs : ∀ j ∈ js, 0 < j) :
    (js.foldl (sortPass isAscend n) s).Within n := by
  induction js generalizing s with
  | nil => exact hs
  | cons j js ih =>
    rw [List.foldl_cons]
    exact ih (sortPass_within hs (hjs j List.mem_cons_self))
      fun k hk => hjs k (List.mem_cons_of_mem _ hk)

theorem readBytes_zero (buf : Mem) (n : Nat) : readBytes buf 0 n = (List.range n).map buf := by
  unfold readBytes
  exact List.map_congr_left fun i _ => by rw [Nat.zero_add]

/-- The sort by a key that orders the bytes in the direction. -/
theorem sorts_of_key (hkey : Sorting isAscend key)
    (horder : ∀ a b, key a ≤ key b → InOrder isAscend a b) (buf : Mem) (len : BitVec 32) :
    Sorts isAscend buf len.toInt.toNat (tuyaByteSort isAscend buf len) := by
  obtain ⟨n, hn⟩ : ∃ n, n = len.toInt.toNat := ⟨_, rfl⟩
  have hbuf : (tuyaByteSort isAscend buf len).buf = bubbleSort key buf n := by
    rw [hn]
    exact passes_buf hkey _ _
  have hr : Rearranged n buf (bubbleSort key buf n) := bubbleSort_rearranged buf n
  rw [← hn]
  refine ⟨?_, ?_, ?_, ?_⟩
  · rw [hbuf, readBytes_zero, readBytes_zero]
    exact hr.perm
  · rw [hbuf, readBytes_zero]
    exact (bubbleSort_sorted buf n).imp fun {a b} => horder a b
  · intro x hx
    rw [hbuf]
    exact hr.outside hx
  · rw [hn]
    refine passes_within (fun x hx => absurd hx List.not_mem_nil) fun j hj => ?_
    exact (List.mem_range'_1.mp hj).1

end

/-- Every buffer is sorted in either direction, whatever its length. -/
theorem tuyaByteSort_sorts (isAscend : Byte) (buf : Mem) (len : BitVec 32) :
    Sorts isAscend buf len.toInt.toNat (tuyaByteSort isAscend buf len) := by
  by_cases hdir : isAscend ≠ 0
  · have hkey : Sorting isAscend fun a : Byte => a.toNat := fun a b => by
      rw [if_pos hdir]
      exact BitVec.lt_def.symm
    refine sorts_of_key hkey (fun a b hab => ?_) buf len
    rw [InOrder, if_pos hdir]
    exact BitVec.le_def.mpr hab
  · have hkey : Sorting isAscend fun a : Byte => OrderDual.toDual a.toNat := fun a b => by
      rw [if_neg hdir]
      exact BitVec.lt_def.symm
    refine sorts_of_key hkey (fun a b hab => ?_) buf len
    rw [InOrder, if_neg hdir]
    exact BitVec.le_def.mpr hab

end TuyaSdk.TuyaTools
