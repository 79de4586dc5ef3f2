import TuyaSdk.Lib.Ring
import TuyaSdk.RingBuffer.Defs

/-!
# What the cells hold, and what each side may do

A world is the buffer with a record of its history: the bytes published through `wp`, how
many of them `rp` has passed and how many have been copied to their cells. `Stored` ties the
two together in every reachable world, also while a wrapped write is `behind` its `wp`.
`WriterMoves` and `ReaderMoves` are what each side does to the other.
-/

namespace TuyaSdk.RingBuffer

open Lib

/-- The history of a buffer: `before` is the number of bytes published before the last
publication. -/
structure Ghost where
  written : List Byte
  taken : Nat
  copied : Nat
  before : Nat

/-- The buffer and its history. -/
abbrev World := RbSt × Ghost

/-- The number of bytes between `rp` and `wp`. -/
def span (n wp rp : Nat) : Nat := if rp ≤ wp then wp - rp else n - rp + wp

/-- The cells of a buffer of `n` bytes hold the bytes copied and not taken, from `rp` on. -/
structure Stored (n : Nat) (x : World) : Prop where
  capacity : x.1.capacity = n
  wp_le : x.1.wp ≤ n
  rp_le : x.1.rp ≤ n
  taken_le : x.2.taken ≤ x.2.copied
  copied_le : x.2.copied ≤ x.2.written.length
  span_eq : span n x.1.wp x.1.rp = x.2.written.length - x.2.taken
  reserve : x.2.written.length - x.2.taken ≤ n - 4
  cells : ∀ i, x.2.taken + i < x.2.copied →
    x.2.written[x.2.taken + i]? = some (x.1.address (slot n x.1.rp i))
  behind : x.2.copied < x.2.written.length →
    x.2.written.length = x.2.copied + x.1.wp ∧ x.1.wp < x.1.rp ∧ x.2.before < x.2.copied

/-- What the writer does, as the reader sees it. -/
structure WriterMoves (x y : World) : Prop where
  rp : y.1.rp = x.1.rp
  taken : y.2.taken = x.2.taken
  written : x.2.written <+: y.2.written
  copied : x.2.copied ≤ y.2.copied
  since : y.2.written.length = x.2.written.length ∧ y.2.before = x.2.before ∧
      (y.1.wp = x.1.wp ∨ y.1.wp = 0) ∨
    x.2.written.length ≤ y.2.before ∧ y.2.before < y.2.written.length

/-- What the reader does, as the writer sees it. -/
structure ReaderMoves (x y : World) : Prop where
  address : y.1.address = x.1.address
  wp : y.1.wp = x.1.wp
  written : y.2.written = x.2.written
  copied : y.2.copied = x.2.copied
  before : y.2.before = x.2.before
  taken : x.2.taken ≤ y.2.taken

variable {n : Nat} {x y z : World}

theorem WriterMoves.refl (x : World) : WriterMoves x x :=
  ⟨rfl, rfl, List.prefix_rfl, Nat.le_refl _, Or.inl ⟨rfl, rfl, Or.inl rfl⟩⟩

theorem WriterMoves.trans (h₁ : WriterMoves x y) (h₂ : WriterMoves y z) : WriterMoves x z where
  rp := h₂.rp.trans h₁.rp
  taken := h₂.taken.trans h₁.taken
  written := h₁.written.trans h₂.written
  copied := Nat.le_trans h₁.copied h₂.copied
  since := by
    have hlen := h₁.written.length_le
    rcases h₁.since with ⟨hw₁, hb₁, hp₁⟩ | ⟨hb₁, hl₁⟩ <;>
      rcases h₂.since with ⟨hw₂, hb₂, hp₂⟩ | ⟨hb₂, hl₂⟩
    · refine Or.inl ⟨hw₂.trans hw₁, hb₂.trans hb₁, ?_⟩
      rcases hp₂ with hp₂ | hp₂
      · rw [hp₂]
        exact hp₁
      · exact Or.inr hp₂
    · exact Or.inr ⟨hw₁ ▸ hb₂, hl₂⟩
    · exact Or.inr ⟨hb₂.symm ▸ hb₁, by rw [hb₂, hw₂]; exact hl₁⟩
    · exact Or.inr ⟨Nat.le_trans hlen hb₂, hl₂⟩

theorem ReaderMoves.refl (x : World) : ReaderMoves x x :=
  ⟨rfl, rfl, rfl, rfl, rfl, Nat.le_refl _⟩

theorem ReaderMoves.trans (h₁ : ReaderMoves x y) (h₂ : ReaderMoves y z) : ReaderMoves x z :=
  ⟨h₂.address.trans h₁.address, h₂.wp.trans h₁.wp, h₂.written.trans h₁.written,
    h₂.copied.trans h₁.copied, h₂.before.trans h₁.before, Nat.le_trans h₁.taken h₂.taken⟩

/-- Every byte published is in its cell, as between two writes. -/
structure Settled (n : Nat) (x : World) : Prop where
  copied : x.2.copied = x.2.written.length
  wp : x.1.wp < n ∨ n ≤ 4

theorem Settled.env (h : Settled n x) (hxy : ReaderMoves x y) : Settled n y where
  copied := by rw [hxy.copied, hxy.written, h.copied]
  wp := by
    rw [hxy.wp]
    exact h.wp

/-- The contract of a writer that adds to `written` no more than gives `target`. -/
def writerContract (n : Nat) (target : List Byte) : Contract Place RbSt Ghost where
  inv x := Stored n x ∧ x.2.written <+: target
  rely := ReaderMoves
  guar := WriterMoves
  here l x := l ≠ .behindWp → x.2.copied = x.2.written.length
  may _ _ := True
  rely_refl := ReaderMoves.refl
  rely_trans _ _ _ := ReaderMoves.trans
  guar_refl := WriterMoves.refl

/-- The contract of a reader that was called when `taken` bytes had been read. Its copy from
the start of the cells is made when the writer is not behind. -/
def readerContract (n taken : Nat) : Contract Place RbSt Ghost where
  inv := Stored n
  rely := WriterMoves
  guar := ReaderMoves
  here _ x := x.2.taken = taken
  may l x := l = .fromStart → x.2.copied = x.2.written.length
  rely_refl := WriterMoves.refl
  rely_trans _ _ _ := WriterMoves.trans
  guar_refl := ReaderMoves.refl

/-! ## Positions -/

/-- The first cell behind the bytes stored is at `wp`. -/
theorem slot_span {wp rp j : Nat} (hrp : rp ≤ n) (hwp : wp ≤ n) (h : span n wp rp + j < n) :
    slot n rp (span n wp rp + j) = slot n wp j := by
  unfold slot span at *
  grind

theorem span_zero {rp : Nat} (hrp : 0 < rp) (hn : rp ≤ n) : span n 0 rp = span n n rp := by
  unfold span
  grind

/-- Publishing `k` bytes that fit moves `wp` over `k` cells. -/
theorem span_write {wp rp k : Nat} (hrp : rp ≤ n) (hwp : wp ≤ n) (hk : wp + k ≤ n)
    (hfit : span n wp rp + k < n) : span n (wp + k) rp = span n wp rp + k := by
  unfold span at *
  grind

/-- Publishing more bytes than there are cells behind `wp` leaves `wp` before `rp`. -/
theorem span_wrap {wp rp k : Nat} (hrp : rp ≤ n) (hwp : wp ≤ n) (hk : n < wp + k)
    (hfit : span n wp rp + k < n) :
    k - (n - wp) < rp ∧ span n (k - (n - wp)) rp = span n wp rp + k := by
  unfold span at *
  grind

/-- Taking `k` bytes moves `rp` over `k` cells. -/
theorem span_read {wp rp k : Nat} (hrp : rp ≤ n) (hwp : wp ≤ n) (hk : rp + k ≤ n)
    (hfit : k ≤ span n wp rp) : span n wp (rp + k) = span n wp rp - k := by
  unfold span at *
  grind

/-! ## What a copy and a publication keep -/

/-- A copy to cells that hold nothing that is to be read. -/
theorem Stored.copyIn (h : Stored n x) {pos : Nat} {bytes : List Byte}
    (hfree : ∀ i, x.2.taken + i < x.2.copied →
      slot n x.1.rp i < pos ∨ pos + bytes.length ≤ slot n x.1.rp i) :
    Stored n (x.1.fill pos bytes, x.2) where
  capacity := h.capacity
  wp_le := h.wp_le
  rp_le := h.rp_le
  taken_le := h.taken_le
  copied_le := h.copied_le
  span_eq := h.span_eq
  reserve := h.reserve
  cells := by
    intro i hi
    rw [h.cells i hi]
    exact congrArg some (writeBytes_apply (hfree i hi)).symm
  behind := h.behind

/-- The store of `wp` that publishes `bytes`, when the first `c` of them are copied. -/
theorem Stored.publish (h : Stored n x) (hcopied : x.2.copied = x.2.written.length)
    {bytes : List Byte} {c wp : Nat}
    (hfit : span n x.1.wp x.1.rp + bytes.length + 4 ≤ n) (hwp : wp ≤ n)
    (hspan : span n wp x.1.rp = span n x.1.wp x.1.rp + bytes.length) (hc : c ≤ bytes.length)
    (hnew : ∀ j < c, bytes[j]? = some (x.1.address (slot n x.1.wp j)))
    (hbehind : c < bytes.length → bytes.length = c + wp ∧ wp < x.1.rp ∧ 0 < c) :
    Stored n (x.1.setWp wp, { x.2 with
      written := x.2.written ++ bytes
      copied := x.2.written.length + c
      before := x.2.written.length }) := by
  have htaken := h.taken_le
  have hlen := h.copied_le
  have hsp := h.span_eq
  constructor
  · exact h.capacity
  · exact hwp
  · exact h.rp_le
  · change x.2.taken ≤ x.2.written.length + c
    omega
  · change x.2.written.length + c ≤ (x.2.written ++ bytes).length
    rw [List.length_append]
    omega
  · change span n wp x.1.rp = (x.2.written ++ bytes).length - x.2.taken
    rw [hspan, hsp, List.length_append]
    omega
  · change (x.2.written ++ bytes).length - x.2.taken ≤ n - 4
    rw [List.length_append]
    omega
  · intro i hi
    change x.2.taken + i < x.2.written.length + c at hi
    change (x.2.written ++ bytes)[x.2.taken + i]? = some (x.1.address (slot n x.1.rp i))
    rcases Nat.lt_or_ge (x.2.taken + i) x.2.written.length with hlt | hge
    · rw [List.getElem?_append_left hlt]
      exact h.cells i (hcopied.symm ▸ hlt)
    · obtain ⟨j, rfl⟩ : ∃ j, i = span n x.1.wp x.1.rp + j := ⟨i - span n x.1.wp x.1.rp, by omega⟩
      have hj : x.2.taken + (span n x.1.wp x.1.rp + j) - x.2.written.length = j := by omega
      rw [List.getElem?_append_right hge, hj, slot_span h.rp_le h.wp_le (by omega)]
      exact hnew j (by omega)
  · intro hb
    change x.2.written.length + c < (x.2.written ++ bytes).length at hb
    change (x.2.written ++ bytes).length = x.2.written.length + c + wp ∧ wp < x.1.rp ∧
      x.2.written.length < x.2.written.length + c
    rw [List.length_append] at hb ⊢
    obtain ⟨h₁, h₂, h₃⟩ := hbehind (by omega)
    exact ⟨by omega, h₂, by omega⟩

/-- The copy of the bytes behind the wrap, after which all that is published is copied. -/
theorem Stored.copyRest (h : Stored n x) (hb : x.2.copied < x.2.written.length) :
    Stored n (x.1.fill 0 (x.2.written.drop x.2.copied),
      { x.2 with copied := x.2.written.length }) := by
  obtain ⟨hlen, hwp, hbefore⟩ := h.behind hb
  have hspan := h.span_eq
  have htaken := h.taken_le
  have hrp := h.rp_le
  rw [span, if_neg (Nat.not_le.mpr hwp)] at hspan
  constructor
  · exact h.capacity
  · exact h.wp_le
  · exact h.rp_le
  · exact Nat.le_trans h.taken_le h.copied_le
  · exact Nat.le_refl _
  · exact h.span_eq
  · exact h.reserve
  · intro i hi
    change x.2.taken + i < x.2.written.length at hi
    change x.2.written[x.2.taken + i]? =
      some (writeBytes x.1.address 0 (x.2.written.drop x.2.copied) (slot n x.1.rp i))
    rcases Nat.lt_or_ge (x.2.taken + i) x.2.copied with hlt | hge
    · have hslot : slot n x.1.rp i = x.1.rp + i := slot_of_lt (by omega)
      rw [h.cells i hlt, writeBytes_apply (by rw [List.length_drop]; omega)]
    · have hslot : slot n x.1.rp i = x.2.taken + i - x.2.copied := by
        rw [slot_of_le (by omega)]
        omega
      rw [hslot, writeBytes, if_pos (by rw [List.length_drop]; omega), Nat.sub_zero,
        List.getD_eq_getElem?_getD, List.getElem?_drop, Nat.add_sub_cancel' hge,
        List.getElem?_eq_getElem hi]
      rfl
  · intro hlt
    exact absurd hlt (Nat.lt_irrefl _)

/-- The store of `rp` that takes `k` bytes without a wrap. -/
theorem Stored.take (h : Stored n x) {k : Nat} (hk : x.2.taken + k ≤ x.2.copied)
    (hrp : x.1.rp + k ≤ n) :
    Stored n (x.1.setRp (x.1.rp + k), { x.2 with taken := x.2.taken + k }) := by
  have hspan := h.span_eq
  have hlen := h.copied_le
  have hreserve := h.reserve
  constructor
  · exact h.capacity
  · exact h.wp_le
  · exact hrp
  · exact hk
  · exact h.copied_le
  · change span n x.1.wp (x.1.rp + k) = x.2.written.length - (x.2.taken + k)
    rw [span_read h.rp_le h.wp_le hrp (by omega)]
    omega
  · change x.2.written.length - (x.2.taken + k) ≤ n - 4
    omega
  · intro i hi
    change x.2.taken + k + i < x.2.copied at hi
    change x.2.written[x.2.taken + k + i]? = some (x.1.address (slot n (x.1.rp + k) i))
    rw [Nat.add_assoc, h.cells (k + i) (by omega)]
    unfold slot
    rw [Nat.add_assoc]
  · intro hb
    obtain ⟨h₁, h₂, h₃⟩ := h.behind hb
    exact ⟨h₁, Nat.lt_of_lt_of_le h₂ (Nat.le_add_right _ _), h₃⟩

/-- The store of `rp` that takes the bytes up to the end of the cells and `m` behind it. -/
theorem Stored.takeWrapped (h : Stored n x) {m : Nat}
    (hcopied : x.2.copied = x.2.written.length) (hwp : m ≤ x.1.wp) (hlt : x.1.wp < x.1.rp) :
    Stored n (x.1.setRp m, { x.2 with taken := x.2.taken + (n - x.1.rp + m) }) := by
  have hspan := h.span_eq
  have hrp := h.rp_le
  have hreserve := h.reserve
  have htaken := h.taken_le
  rw [span, if_neg (Nat.not_le.mpr hlt)] at hspan
  constructor
  · exact h.capacity
  · exact h.wp_le
  · exact Nat.le_trans hwp h.wp_le
  · change x.2.taken + (n - x.1.rp + m) ≤ x.2.copied
    omega
  · exact h.copied_le
  · change span n x.1.wp m = x.2.written.length - (x.2.taken + (n - x.1.rp + m))
    rw [span, if_pos hwp]
    omega
  · change x.2.written.length - (x.2.taken + (n - x.1.rp + m)) ≤ n - 4
    omega
  · intro i hi
    change x.2.taken + (n - x.1.rp + m) + i < x.2.copied at hi
    change x.2.written[x.2.taken + (n - x.1.rp + m) + i]? = some (x.1.address (slot n m i))
    have hfrom : slot n x.1.rp (n - x.1.rp + m + i) = m + i := by
      rw [slot_of_le (by omega)]
      omega
    have hto : slot n m i = m + i := slot_of_lt (by omega)
    rw [Nat.add_assoc, h.cells _ (by omega), hfrom, hto]
  · intro hb
    exact absurd hcopied (Nat.ne_of_lt hb)

end TuyaSdk.RingBuffer
