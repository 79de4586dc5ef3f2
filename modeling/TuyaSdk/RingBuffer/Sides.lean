import TuyaSdk.RingBuffer.Stored

/-!
# Each side keeps its contract

`rbWrite_meets` and `rbRead_meets` follow the two functions action by action. Between two
actions of one side the other may have moved: what a side has seen stays true in the sense
of the lemmas here, and the space or the bytes it has found only grow.
-/

namespace TuyaSdk.RingBuffer

open Lib Prog

variable {n : Nat} {x y z : World} {buffer target : List Byte}

/-! ## The writer -/

theorem getElem?_writeBytes {m : Mem} {a j : Nat} {bs : List Byte} (h : j < bs.length) :
    bs[j]? = some (writeBytes m a bs (a + j)) := by
  rw [writeBytes, if_pos (by omega), Nat.add_sub_cancel_left, List.getD_eq_getElem _ _ h,
    List.getElem?_eq_getElem h]

theorem Stored.wrap (h : Stored n x) (hcopied : x.2.copied = x.2.written.length) (hwp : x.1.wp = n)
    (hrp : 0 < x.1.rp) : Stored n (x.1.setWp 0, x.2) where
  capacity := h.capacity
  wp_le := Nat.zero_le _
  rp_le := h.rp_le
  taken_le := h.taken_le
  copied_le := h.copied_le
  span_eq := by
    rw [← h.span_eq, hwp]
    exact span_zero hrp h.rp_le
  reserve := h.reserve
  cells := h.cells
  behind := fun hb => absurd hcopied (Nat.ne_of_lt hb)

/-- With `wp` at the end, `rp` is not at the start. -/
theorem Stored.rp_pos (h : Stored n x) (hn : 4 < n) (hwp : n ≤ x.1.wp) : 0 < x.1.rp := by
  have hspan := h.span_eq
  have hreserve := h.reserve
  have hle := h.wp_le
  unfold span at hspan
  split at hspan <;> omega

/-- The writer's move that publishes the buffer. -/
theorem writerMoves_publish {x : World} {c wp : Nat} (hpos : 0 < buffer.length)
    (hcopied : x.2.copied = x.2.written.length) :
    WriterMoves x (x.1.setWp wp, ⟨x.2.written ++ buffer, x.2.taken, x.2.written.length + c,
      x.2.written.length⟩) where
  rp := rfl
  taken := rfl
  written := List.prefix_append _ _
  copied := hcopied ▸ Nat.le_add_right _ _
  since := by
    refine Or.inr ⟨Nat.le_refl _, ?_⟩
    rw [List.length_append]
    exact Nat.lt_add_of_pos_right hpos

theorem wrapWp_meets {k : Nat} (hn : 4 < n) (hcopied : x.2.copied = x.2.written.length) :
    (wrapWp k).Meets (writerContract n target)
      (fun r y => r = k ∧ Settled n y ∧ y.2.written = x.2.written) x := by
  have hstill : ∀ {y : World}, ReaderMoves x y → y.2.copied = y.2.written.length := by
    intro y hxy
    rw [hxy.copied, hxy.written, hcopied]
  apply meets_load
  intro y hxy hy
  refine ⟨fun _ => hstill hxy, ?_⟩
  by_cases hend : y.1.capacity ≤ y.1.wp
  · rw [if_pos (decide_eq_true hend)]
    rw [hy.1.capacity, hxy.wp] at hend
    apply meets_load
    intro z hyz hz
    have hxz := hxy.trans hyz
    have hwpz : n ≤ z.1.wp := by rwa [hxz.wp]
    refine ⟨fun _ => hstill hxz, ?_⟩
    rw [if_pos (Nat.ne_of_gt (hz.1.rp_pos hn hwpz))]
    apply meets_store
    intro w hzw hw
    have hxw := hxz.trans hzw
    have hwpw : n ≤ w.1.wp := by rwa [hxw.wp]
    refine ⟨fun _ => hstill hxw, w.2, ?_, ⟨?_, hw.2⟩, ?_⟩
    · exact ⟨rfl, rfl, List.prefix_rfl, Nat.le_refl _, Or.inl ⟨rfl, rfl, Or.inr rfl⟩⟩
    · exact hw.1.wrap (hstill hxw) (Nat.le_antisymm hw.1.wp_le hwpw) (hw.1.rp_pos hn hwpw)
    · apply meets_pure
      intro v hwv _
      refine ⟨rfl, ⟨?_, Or.inl ?_⟩, hwv.written.trans hxw.written⟩
      · exact hwv.copied.trans ((hstill hxw).trans (congrArg _ hwv.written.symm))
      · rw [hwv.wp]
        exact Nat.lt_of_le_of_lt (Nat.zero_le 4) hn
  · rw [if_neg (by simpa using hend)]
    apply meets_pure
    intro z hyz _
    have hxz := hxy.trans hyz
    refine ⟨rfl, ⟨hstill hxz, Or.inl ?_⟩, hxz.written⟩
    rw [hyz.wp, ← hy.1.capacity]
    exact Nat.not_le.mp hend

/-- Room for the buffer, which the reader does not take away. -/
theorem Stored.room (hx : Stored n x) (hy : Stored n y) (hxy : ReaderMoves x y) {k : Nat}
    (h : span n x.1.wp x.1.rp + k + 4 ≤ n) : span n y.1.wp y.1.rp + k + 4 ≤ n := by
  have htaken := hxy.taken
  rw [hy.span_eq, hxy.written]
  rw [hx.span_eq] at h
  omega

theorem Stored.free_of_room (h : Stored n x) {k i : Nat} (hroom : span n x.1.wp x.1.rp + k + 4 ≤ n)
    (hk : x.1.wp + k ≤ n) (hi : x.2.taken + i < x.2.copied) :
    slot n x.1.rp i < x.1.wp ∨ x.1.wp + k ≤ slot n x.1.rp i := by
  have hspan := h.span_eq
  have hcopied := h.copied_le
  have hrp := h.rp_le
  unfold span slot at *
  grind

theorem rbWriteRun_meets (hn : n < 2 ^ 32) (hpos : 0 < buffer.length) (hx : Stored n x)
    (hcopied : x.2.copied = x.2.written.length)
    (hroom : span n x.1.wp x.1.rp + buffer.length + 4 ≤ n) (hwp : x.1.wp + buffer.length ≤ n)
    (htarget : x.2.written ++ buffer <+: target) :
    (rbWriteRun buffer buffer.length).Meets (writerContract n target)
      (fun r y => r = buffer.length ∧ Settled n y ∧ y.2.written = x.2.written ++ buffer) x := by
  have hstill : ∀ {y : World}, ReaderMoves x y → y.2.copied = y.2.written.length := by
    intro y hxy
    rw [hxy.copied, hxy.written, hcopied]
  rw [rbWriteRun, List.take_length]
  apply meets_load
  intro y hxy hy
  refine ⟨fun _ => hstill hxy, ?_⟩
  apply meets_action
  intro z hyz hz
  have hxz := hxy.trans hyz
  have hroomz := hx.room hz.1 hxz hroom
  have hwpz : z.1.wp = y.1.wp := hyz.wp
  have hwpx : z.1.wp = x.1.wp := hxz.wp
  refine ⟨fun _ => hstill hxz, fun _ => ⟨?_, z.2, ?_, ⟨?_, hz.2⟩, ?_⟩⟩
  · rw [hz.1.capacity, ← hwpz, hwpx]
    exact decide_eq_true hwp
  · exact ⟨rfl, rfl, List.prefix_rfl, Nat.le_refl _, Or.inl ⟨rfl, rfl, Or.inl rfl⟩⟩
  · rw [← hwpz]
    exact hz.1.copyIn fun i hi => hz.1.free_of_room hroomz (hwpx ▸ hwp) hi
  apply meets_store
  intro w hzw hw
  have hwpw : w.1.wp = z.1.wp := hzw.wp
  have hwritten : w.2.written = x.2.written := hzw.written.trans hxz.written
  have hcopiedw : w.2.copied = w.2.written.length :=
    hzw.copied.trans ((hstill hxz).trans (congrArg _ hzw.written.symm))
  have hroomw : span n w.1.wp w.1.rp + buffer.length + 4 ≤ n := by
    have htaken : z.2.taken ≤ w.2.taken := hzw.taken
    have hwr : w.2.written = z.2.written := hzw.written
    rw [hw.1.span_eq, hwr]
    rw [hz.1.span_eq] at hroomz
    omega
  have hend : w.1.wp + buffer.length ≤ n := by rwa [hwpw, hwpx]
  have hstore : u32 (w.1.wp + buffer.length) = w.1.wp + buffer.length :=
    u32_of_lt (Nat.lt_of_le_of_lt hend hn)
  refine ⟨fun _ => hcopiedw, ⟨w.2.written ++ buffer, w.2.taken,
    w.2.written.length + buffer.length, w.2.written.length⟩, ?_, ⟨?_, ?_⟩, ?_⟩
  · exact writerMoves_publish hpos hcopiedw
  · rw [hstore]
    apply hw.1.publish hcopiedw hroomw hend
    · exact span_write hw.1.rp_le hw.1.wp_le hend (by omega)
    · exact Nat.le_refl _
    · intro j hj
      rw [hzw.address, slot_of_lt (by omega), hwpw, hwpz]
      exact getElem?_writeBytes hj
    · exact fun h => absurd h (Nat.lt_irrefl _)
  · rw [hwritten]
    exact htarget
  · apply (wrapWp_meets (by omega) (List.length_append).symm).mono
    intro r v hr
    refine ⟨hr.1, hr.2.1, hr.2.2.trans ?_⟩
    rw [← hwritten]

theorem rbWriteWrapped_meets (hn : n < 2 ^ 32) (hk : buffer.length < 2 ^ 32) (hx : Stored n x)
    (hcopied : x.2.copied = x.2.written.length)
    (hroom : span n x.1.wp x.1.rp + buffer.length + 4 ≤ n) (hwp : x.1.wp < n)
    (hwrap : n < x.1.wp + buffer.length) (htarget : x.2.written ++ buffer <+: target) :
    (rbWriteWrapped buffer buffer.length (n - x.1.wp)).Meets (writerContract n target)
      (fun r y => r = buffer.length ∧ Settled n y ∧ y.2.written = x.2.written ++ buffer) x := by
  have hstill : ∀ {y : World}, ReaderMoves x y → y.2.copied = y.2.written.length := by
    intro y hxy
    rw [hxy.copied, hxy.written, hcopied]
  have hfirst : (buffer.take (n - x.1.wp)).length = n - x.1.wp := by
    rw [List.length_take]
    omega
  apply meets_load
  intro y hxy hy
  refine ⟨fun _ => hstill hxy, ?_⟩
  apply meets_action
  intro z hyz hz
  have hxz := hxy.trans hyz
  have hroomz := hx.room hz.1 hxz hroom
  have hwpz : z.1.wp = y.1.wp := hyz.wp
  have hwpx : z.1.wp = x.1.wp := hxz.wp
  refine ⟨fun _ => hstill hxz, fun _ => ⟨?_, z.2, ?_, ⟨?_, hz.2⟩, ?_⟩⟩
  · rw [hz.1.capacity, ← hwpz, hwpx, hfirst]
    exact decide_eq_true (by omega)
  · exact ⟨rfl, rfl, List.prefix_rfl, Nat.le_refl _, Or.inl ⟨rfl, rfl, Or.inl rfl⟩⟩
  · rw [← hwpz]
    apply hz.1.copyIn
    intro i hi
    rw [hfirst]
    exact hz.1.free_of_room (by omega) (by omega) hi
  -- the store of `wp`, before the rest is copied
  apply meets_store
  intro w hzw hw
  have hwpw : w.1.wp = z.1.wp := hzw.wp
  have hwrz : w.2.written = z.2.written := hzw.written
  have hwritten : w.2.written = x.2.written := hwrz.trans hxz.written
  have hcopiedw : w.2.copied = w.2.written.length :=
    hzw.copied.trans ((hstill hxz).trans (congrArg _ hzw.written.symm))
  have hroomw : span n w.1.wp w.1.rp + buffer.length + 4 ≤ n := by
    have htaken : z.2.taken ≤ w.2.taken := hzw.taken
    rw [hw.1.span_eq, hwrz]
    rw [hz.1.span_eq] at hroomz
    omega
  have hstore : sub32 buffer.length (n - x.1.wp) = buffer.length - (n - x.1.wp) :=
    sub32_of_le (by omega) hk
  obtain ⟨hlt, hspan⟩ : buffer.length - (n - x.1.wp) < w.1.rp ∧
      span n (buffer.length - (n - x.1.wp)) w.1.rp = span n w.1.wp w.1.rp + buffer.length := by
    rw [← hwpx, ← hwpw]
    exact span_wrap hw.1.rp_le hw.1.wp_le (by omega) (by omega)
  refine ⟨fun _ => hcopiedw, ⟨w.2.written ++ buffer, w.2.taken,
    w.2.written.length + (n - x.1.wp), w.2.written.length⟩, ?_, ⟨?_, ?_⟩, ?_⟩
  · exact writerMoves_publish (by omega) hcopiedw
  · rw [hstore]
    apply hw.1.publish hcopiedw hroomw (by omega) hspan (by omega)
    · intro j hj
      have hcell : (buffer.take (n - x.1.wp))[j]? =
          some (writeBytes z.1.address y.1.wp (buffer.take (n - x.1.wp)) (y.1.wp + j)) :=
        getElem?_writeBytes (hfirst.symm ▸ hj)
      rw [hzw.address, slot_of_lt (by omega), hwpw, hwpz]
      rwa [List.getElem?_take_of_lt hj] at hcell
    · exact fun _ => ⟨by omega, hlt, by omega⟩
  · rw [hwritten]
    exact htarget
  -- behind its `wp`, the writer copies the rest
  apply meets_load
  intro v hwv hv
  refine ⟨fun h => absurd rfl h, ?_⟩
  apply meets_action
  intro u hvu hu
  have hwu := hwv.trans hvu
  have hwritu : u.2.written = w.2.written ++ buffer := hwu.written
  have hcopu : u.2.copied = w.2.written.length + (n - x.1.wp) := hwu.copied
  have hwpv : v.1.wp = buffer.length - (n - x.1.wp) := hwv.wp.trans hstore
  have hrest : (buffer.drop (n - x.1.wp)).take v.1.wp = u.2.written.drop u.2.copied := by
    rw [hwritu, hcopu, List.drop_length_add_append, List.take_of_length_le]
    rw [List.length_drop]
    omega
  have hbehind : u.2.copied < u.2.written.length := by
    rw [hwritu, hcopu, List.length_append]
    omega
  refine ⟨fun h => absurd rfl h, fun _ => ⟨?_, { u.2 with copied := u.2.written.length }, ?_,
    ⟨?_, hu.2⟩, ?_⟩⟩
  · rw [hu.1.capacity, List.length_take, List.length_drop, hwpv]
    exact decide_eq_true (by omega)
  · exact ⟨rfl, rfl, List.prefix_rfl, hu.1.copied_le, Or.inl ⟨rfl, rfl, Or.inl rfl⟩⟩
  · rw [hrest]
    exact hu.1.copyRest hbehind
  · apply (wrapWp_meets (by omega) rfl).mono
    intro r t hr
    refine ⟨hr.1, hr.2.1, hr.2.2.trans ?_⟩
    rw [← hwritten]
    exact hwritu

/-- What `rb_write` has done when it returns `r`: it stored the buffer and returns its length,
or it changed nothing and returns 0, and the buffer is empty or did not fit. -/
def Wrote (n : Nat) (x : World) (buffer : List Byte) (r : Nat) (y : World) : Prop :=
  Settled n y ∧
    ((r = buffer.length ∧ 0 < r ∧ y.2.written = x.2.written ++ buffer) ∨
      (r = 0 ∧ ReaderMoves x y ∧ (buffer = [] ∨ ∃ z, ReaderMoves x z ∧ ReaderMoves z y ∧
        n < z.2.written.length - z.2.taken + buffer.length + 4)))

theorem rbWrite_meets {size count : Nat} (hn : n < 2 ^ 32) (hlen : buffer.length = size * count)
    (hsize : size * count + 4 < 2 ^ 32) (hs : Settled n x)
    (htarget : x.2.written ++ buffer <+: target) :
    (rbWrite buffer size count).Meets (writerContract n target) (Wrote n x buffer) x := by
  have hu : u32 (size * count) = buffer.length := by
    rw [hlen]
    exact u32_of_lt (by omega)
  have hadd : u32 (buffer.length + rwpSafeInterval) = buffer.length + 4 := by
    rw [hlen]
    exact u32_of_lt hsize
  rw [rbWrite, hu]
  by_cases hzero : buffer.length = 0
  · rw [if_pos hzero]
    apply meets_pure
    intro y hxy _
    exact ⟨hs.env hxy, Or.inr ⟨rfl, hxy, Or.inl (List.length_eq_zero_iff.mp hzero)⟩⟩
  rw [if_neg hzero]
  apply meets_load
  intro y hxy hy
  refine ⟨fun _ => (hs.env hxy).copied, ?_⟩
  apply meets_load
  intro z hyz hz
  have hxz := hxy.trans hyz
  refine ⟨fun _ => (hs.env hxz).copied, ?_⟩
  have hwz : z.1.wp = y.1.wp := hyz.wp
  -- a rejection is one by what the first load has found
  have hreject : ∀ {v : World}, ReaderMoves y v →
      n < y.2.written.length - y.2.taken + buffer.length + 4 →
      (pure 0 : Prog Place RbSt Nat).Meets (writerContract n target) (Wrote n x buffer) v := by
    intro v hyv hfull
    apply meets_pure
    intro w hvw _
    have hyw := hyv.trans hvw
    exact ⟨hs.env (hxy.trans hyw), Or.inr ⟨rfl, hxy.trans hyw, Or.inr ⟨y, hxy, hyw, hfull⟩⟩⟩
  -- an accepted buffer is stored, as the two ways to copy it are
  have haccept : ∀ {v : World} {p : Prog Place RbSt Nat}, ReaderMoves x v →
      p.Meets (writerContract n target)
        (fun r w => r = buffer.length ∧ Settled n w ∧ w.2.written = v.2.written ++ buffer) v →
      p.Meets (writerContract n target) (Wrote n x buffer) v := by
    intro v p hxv hp
    apply hp.mono
    intro r w ⟨hr, hset, hw⟩
    refine ⟨hset, Or.inl ⟨hr, by omega, ?_⟩⟩
    rw [hw, hxv.written]
  have hspan := hy.1.span_eq
  by_cases hge : y.1.rp ≤ z.1.wp
  · rw [if_pos hge]
    rw [span, if_pos (hwz ▸ hge)] at hspan
    apply meets_load
    intro v hzv hv
    have hxv := hxz.trans hzv
    have hwv : v.1.wp = y.1.wp := hzv.wp.trans hwz
    refine ⟨fun _ => (hs.env hxv).copied, ?_⟩
    have hremain : u32 (sub32 v.1.capacity v.1.wp + y.1.rp) = n - y.1.wp + y.1.rp := by
      have hle := hy.1.wp_le
      rw [hv.1.capacity, hwv, sub32_of_le hle hn]
      exact u32_of_lt (by omega)
    rw [hremain, hadd]
    by_cases hfit : buffer.length + 4 ≤ n - y.1.wp + y.1.rp
    · rw [if_pos hfit]
      apply meets_load
      intro w hvw hw
      have hyw := (hyz.trans hzv).trans hvw
      have hxw := hxy.trans hyw
      have hww : w.1.wp = y.1.wp := hyw.wp
      have hroom : span n w.1.wp w.1.rp + buffer.length + 4 ≤ n := by
        have hle := hy.1.wp_le
        apply hy.1.room hw.1 hyw
        rw [span, if_pos (hwz ▸ hge)]
        omega
      have htarget' : w.2.written ++ buffer <+: target := by
        rw [hxw.written]
        exact htarget
      refine ⟨fun _ => (hs.env hxw).copied, ?_⟩
      rw [hw.1.capacity, sub32_of_le hw.1.wp_le hn]
      apply haccept hxw
      by_cases hend : buffer.length ≤ n - w.1.wp
      · rw [if_pos hend]
        have hle := hw.1.wp_le
        exact rbWriteRun_meets hn (by omega) hw.1 (hs.env hxw).copied hroom (by omega) htarget'
      · rw [if_neg hend]
        have hlt : w.1.wp < n := by
          rcases (hs.env hxw).wp with hlt | hsmall
          · exact hlt
          · omega
        exact rbWriteWrapped_meets hn (by omega) hw.1 (hs.env hxw).copied hroom hlt (by omega)
          htarget'
    · rw [if_neg hfit]
      exact hreject (hyz.trans hzv) (by omega)
  · rw [if_neg hge]
    rw [span, if_neg (hwz ▸ hge)] at hspan
    apply meets_load
    intro v hzv hv
    have hxv := hxz.trans hzv
    have hwv : v.1.wp = y.1.wp := hzv.wp.trans hwz
    have hrp := hy.1.rp_le
    refine ⟨fun _ => (hs.env hxv).copied, ?_⟩
    rw [hwv, sub32_of_le (by omega) (by omega), hadd]
    by_cases hfit : buffer.length + 4 ≤ y.1.rp - y.1.wp
    · rw [if_pos hfit]
      have hroom : span n v.1.wp v.1.rp + buffer.length + 4 ≤ n := by
        apply hy.1.room hv.1 (hyz.trans hzv)
        rw [span, if_neg (hwz ▸ hge)]
        omega
      have htarget' : v.2.written ++ buffer <+: target := by
        rw [hxv.written]
        exact htarget
      apply haccept hxv
      exact rbWriteRun_meets hn (by omega) hv.1 (hs.env hxv).copied hroom (by omega) htarget'
    · rw [if_neg hfit]
      exact hreject (hyz.trans hzv) (by omega)

/-! ## The reader -/

/-- What a reader knows that has loaded `wp` when `w` bytes were published. -/
structure Seen (n w wp : Nat) (x : World) : Prop where
  span_eq : span n wp x.1.rp = w - x.2.taken
  wp_le : wp ≤ n
  taken_le : x.2.taken ≤ w
  le : w ≤ x.2.written.length
  still : w = x.2.written.length → x.1.wp = wp ∨ x.1.wp = 0
  behind : x.2.copied < x.2.written.length → w ≤ x.2.before ∨ w = x.2.written.length

variable {w wp : Nat}

theorem Stored.seen (h : Stored n x) : Seen n x.2.written.length x.1.wp x where
  span_eq := h.span_eq
  wp_le := h.wp_le
  taken_le := Nat.le_trans h.taken_le h.copied_le
  le := Nat.le_refl _
  still := fun _ => Or.inl rfl
  behind := fun _ => Or.inr rfl

theorem Seen.env (h : Seen n w wp x) (hxy : WriterMoves x y) : Seen n w wp y where
  span_eq := by
    rw [hxy.rp, hxy.taken]
    exact h.span_eq
  wp_le := h.wp_le
  taken_le := by
    rw [hxy.taken]
    exact h.taken_le
  le := Nat.le_trans h.le hxy.written.length_le
  still := by
    intro hw
    have hle := h.le
    rcases hxy.since with ⟨hlen, _, hwp⟩ | ⟨hb, hl⟩
    · rcases hwp with hwp | hwp
      · rw [hwp]
        exact h.still (hw.trans hlen)
      · exact Or.inr hwp
    · omega
  behind := by
    intro hb
    have hle := h.le
    have hcopied := hxy.copied
    rcases hxy.since with ⟨hlen, hbefore, _⟩ | ⟨hbefore, _⟩
    · rw [hbefore, hlen]
      exact h.behind (by omega)
    · exact Or.inl (Nat.le_trans hle hbefore)

/-- Without a wrap, the bytes seen are copied. -/
theorem Seen.le_copied (h : Seen n w wp x) (hx : Stored n x) (hge : x.1.rp ≤ wp) :
    w ≤ x.2.copied := by
  rcases Nat.lt_or_ge x.2.copied x.2.written.length with hb | hall
  · obtain ⟨hlen, hlt, hbefore⟩ := hx.behind hb
    rcases h.behind hb with hw | hw
    · omega
    · have hs := h.span_eq
      have hs' := hx.span_eq
      have hwp := h.wp_le
      rw [hw, ← hs', span, span, if_pos hge, if_neg (Nat.not_le.mpr hlt)] at hs
      omega
  · exact Nat.le_trans h.le hall

/-- With a wrap, the bytes up to the end of the cells are copied. -/
theorem Seen.end_copied (h : Seen n w wp x) (hx : Stored n x) (hlt : wp < x.1.rp) :
    x.2.taken + (n - x.1.rp) ≤ x.2.copied := by
  have hs := h.span_eq
  rw [span, if_neg (Nat.not_le.mpr hlt)] at hs
  have htaken := h.taken_le
  rcases Nat.lt_or_ge x.2.copied x.2.written.length with hb | hall
  · obtain ⟨hlen, hwp, _⟩ := hx.behind hb
    have hs' := hx.span_eq
    have hc := hx.taken_le
    rw [span, if_neg (Nat.not_le.mpr hwp)] at hs'
    omega
  · have hle := h.le
    omega

/-- A reader whose bytes seen are all copied may take them across the wrap. -/
theorem Seen.wrapped (h : Seen n w wp x) (hx : Stored n x) (hlt : wp < x.1.rp)
    (hw : w ≤ x.2.copied) :
    x.2.copied = x.2.written.length ∧ wp ≤ x.1.wp ∧ x.1.wp < x.1.rp := by
  have hs := h.span_eq
  have hs' := hx.span_eq
  have htaken := h.taken_le
  have hrp := hx.rp_le
  have hwple := hx.wp_le
  have hle := h.le
  have hclen := hx.copied_le
  rw [span, if_neg (Nat.not_le.mpr hlt)] at hs
  have hall : x.2.copied = x.2.written.length := by
    apply Nat.le_antisymm hclen
    by_contra hb
    obtain ⟨hlen, hwp, hbefore⟩ := hx.behind (by omega)
    rcases h.behind (by omega) with hw' | hw'
    · rw [span, if_neg (Nat.not_le.mpr hwp)] at hs'
      omega
    · omega
  by_cases hge : x.1.rp ≤ x.1.wp
  · rw [span, if_pos hge] at hs'
    have hwlen : w = x.2.written.length := by omega
    rcases h.still hwlen with h' | h' <;> omega
  · rw [span, if_neg hge] at hs'
    exact ⟨hall, by omega, Nat.not_le.mp hge⟩

/-- The cells from `pos` on are the bytes behind the first `j` that are not taken. -/
theorem Stored.readBytes_eq (h : Stored n x) {pos j k : Nat}
    (hk : x.2.taken + j + k ≤ x.2.copied)
    (hslot : ∀ i < k, slot n x.1.rp (j + i) = pos + i) :
    readBytes x.1.address pos k = (x.2.written.drop (x.2.taken + j)).take k := by
  have hlen := h.copied_le
  apply List.ext_getElem
  · rw [length_readBytes, List.length_take, List.length_drop]
    omega
  · intro i hi _
    have hik : i < k := by rwa [length_readBytes] at hi
    have hcell := h.cells (j + i) (by omega)
    rw [hslot i hik, ← Nat.add_assoc] at hcell
    rw [getElem_readBytes hi, List.getElem_take, List.getElem_drop]
    exact (Option.some.inj ((List.getElem?_eq_getElem (by omega)).symm.trans hcell)).symm

theorem take_drop_of_prefix {l l' : List Byte} {a k : Nat} (h : l <+: l') (hk : a + k ≤ l.length) :
    (l'.drop a).take k = (l.drop a).take k := by
  obtain ⟨t, rfl⟩ := h
  rw [List.drop_append_of_le_length (by omega), List.take_append_of_le_length]
  rw [List.length_drop]
  omega

/-- What `rb_read` has done when it returns: it took the next bytes, as many as were required
or as there were when `wp` was loaded. -/
def ReadOut (x : World) (required : Nat) (r : Nat × List Byte) (y : World) : Prop :=
  r.1 = r.2.length ∧ y.2.taken = x.2.taken + r.1 ∧
    (y.2.written.drop x.2.taken).take r.1 = r.2 ∧
    ∃ w, x.2.written.length ≤ w ∧ w ≤ y.2.written.length ∧ r.1 = min required (w - x.2.taken)

theorem rbReadRun_meets {k taken : Nat} (hn : n < 2 ^ 32)
    (htaken : x.2.taken = taken) (hk : x.2.taken + k ≤ x.2.copied) (hrp : x.1.rp + k ≤ n) :
    (rbReadRun k).Meets (readerContract n taken)
      (fun r y => r.1 = k ∧ r.1 = r.2.length ∧ y.2.taken = taken + k ∧
        (y.2.written.drop taken).take k = r.2 ∧ x.2.written <+: y.2.written) x := by
  subst htaken
  apply meets_load
  intro y hxy hy
  refine ⟨hxy.taken, ?_⟩
  apply meets_action
  intro z hyz hz
  have hxz := hxy.trans hyz
  have hkz : z.2.taken + k ≤ z.2.copied := by
    rw [hxz.taken]
    exact Nat.le_trans hk hxz.copied
  have hrpz : z.1.rp + k ≤ n := by rwa [hxz.rp]
  have hpos : y.1.rp = z.1.rp := hyz.rp.symm
  refine ⟨hxz.taken, fun _ => ⟨?_, z.2, ReaderMoves.refl z, hz, ?_⟩⟩
  · rw [hz.capacity, hpos]
    exact decide_eq_true hrpz
  have hbytes : readBytes z.1.address y.1.rp k = (z.2.written.drop x.2.taken).take k := by
    rw [hpos, ← hxz.taken]
    apply hz.readBytes_eq (j := 0) hkz
    intro i hi
    rw [Nat.zero_add]
    exact slot_of_lt (by omega)
  have hlen : (readBytes z.1.address y.1.rp k).length = k := length_readBytes _ _ _
  apply meets_store
  intro v hzv hv
  have hxv : WriterMoves x v := hxz.trans hzv
  have hkv : v.2.taken + k ≤ v.2.copied := by
    rw [hxv.taken]
    exact Nat.le_trans hk hxv.copied
  have hrpv : v.1.rp + k ≤ n := by rwa [hxv.rp]
  refine ⟨hxv.taken, { v.2 with taken := v.2.taken + k }, ?_, ?_, ?_⟩
  · exact ⟨rfl, rfl, rfl, rfl, rfl, Nat.le_add_right _ _⟩
  · rw [u32_of_lt (Nat.lt_of_le_of_lt hrpv hn)]
    exact hv.take hkv hrpv
  · apply meets_pure
    intro u hvu _
    have hzu : z.2.written <+: u.2.written := hzv.written.trans hvu.written
    refine ⟨rfl, hlen.symm, ?_, ?_, hxz.written.trans hzu⟩
    · rw [hvu.taken]
      exact congrArg (· + k) hxv.taken
    · change _ = readBytes z.1.address y.1.rp k
      have hle := hz.copied_le
      rw [hbytes, take_drop_of_prefix hzu]
      rw [← hxz.taken]
      omega

/-- The second copy of a wrapped read and the store of `rp`, after the first copy. -/
theorem readRest_meets {m k taken : Nat} {bytes : List Byte} (hx : Stored n x)
    (htaken : x.2.taken = taken) (hseen : Seen n w wp x) (hlt : wp < x.1.rp) (hm : m ≤ wp)
    (hbytes : bytes = (x.2.written.drop taken).take (n - x.1.rp)) :
    (copyOut .fromStart 0 m >>= fun rest => Prog.store .plain (fun rb => rb.setRp m) >>= fun _ =>
        pure (k, bytes ++ rest)).Meets (readerContract n taken)
      (fun r y => r.1 = k ∧ r.2.length = n - x.1.rp + m ∧
        y.2.taken = taken + (n - x.1.rp + m) ∧
        (y.2.written.drop taken).take (n - x.1.rp + m) = r.2 ∧ x.2.written <+: y.2.written) x := by
  subst htaken
  apply meets_action
  intro y hxy hy
  have hseeny := hseen.env hxy
  have hlty : wp < y.1.rp := by rwa [hxy.rp]
  refine ⟨hxy.taken, fun hmay => ?_⟩
  have hall : y.2.copied = y.2.written.length := hmay rfl
  have hw : w ≤ y.2.copied := hall ▸ hseeny.le
  have hs : n - x.1.rp + wp = w - x.2.taken := by
    have hs := hseen.span_eq
    rwa [span, if_neg (Nat.not_le.mpr hlt)] at hs
  have hwtaken := hseen.taken_le
  have hwpn := hseen.wp_le
  have hrpn := hx.rp_le
  refine ⟨?_, y.2, ReaderMoves.refl y, hy, ?_⟩
  · rw [hy.capacity, Nat.zero_add]
    exact decide_eq_true (Nat.le_trans hm hwpn)
  have hrest : readBytes y.1.address 0 m =
      (y.2.written.drop (x.2.taken + (n - x.1.rp))).take m := by
    rw [← hxy.taken]
    apply hy.readBytes_eq
    · rw [hxy.taken]
      omega
    · intro i hi
      rw [hxy.rp, slot_of_le (by omega)]
      omega
  have hlenrest : (readBytes y.1.address 0 m).length = m := length_readBytes _ _ _
  have hlenbytes : bytes.length = n - x.1.rp := by
    have hend := hseen.end_copied hx hlt
    have hc := hx.copied_le
    rw [hbytes, List.length_take, List.length_drop]
    omega
  apply meets_store
  intro z hyz hz
  have hxz : WriterMoves x z := hxy.trans hyz
  have hltz : wp < z.1.rp := by rwa [hxz.rp]
  obtain ⟨hallz, hwpz, hrpz⟩ :=
    (hseen.env hxz).wrapped hz hltz (Nat.le_trans hw hyz.copied)
  have hmz : m ≤ z.1.wp := Nat.le_trans hm hwpz
  refine ⟨hxz.taken, { z.2 with taken := z.2.taken + (n - z.1.rp + m) }, ?_, ?_, ?_⟩
  · exact ⟨rfl, rfl, rfl, rfl, rfl, Nat.le_add_right _ _⟩
  · exact hz.takeWrapped hallz hmz hrpz
  · apply meets_pure
    intro v hzv _
    have hyv : y.2.written <+: v.2.written := hyz.written.trans hzv.written
    have hylen := hy.copied_le
    have hxlen : x.2.taken + (n - x.1.rp) ≤ x.2.written.length :=
      Nat.le_trans (hseen.end_copied hx hlt) hx.copied_le
    refine ⟨rfl, ?_, ?_, ?_, hxy.written.trans hyv⟩
    · exact (List.length_append).trans (by rw [hlenbytes]; exact congrArg _ hlenrest)
    · rw [hzv.taken]
      change z.2.taken + (n - z.1.rp + m) = _
      rw [hxz.taken, hxz.rp]
    · change _ = bytes ++ readBytes y.1.address 0 m
      rw [hrest, hbytes, List.take_add, List.drop_drop,
        take_drop_of_prefix (hxy.written.trans hyv) hxlen, take_drop_of_prefix hyv (by omega)]

theorem rbRead_meets (hn : n < 2 ^ 32) (size count : Nat) :
    (rbRead size count).Meets (readerContract n x.2.taken) (ReadOut x (u32 (size * count))) x := by
  have hreq : u32 (size * count) < 2 ^ 32 := u32_lt _
  revert hreq
  rw [rbRead]
  generalize u32 (size * count) = required
  intro hreq
  apply meets_load
  intro y hxy hy
  refine ⟨hxy.taken, ?_⟩
  by_cases hzero : required = 0
  · rw [if_pos hzero]
    apply meets_pure
    intro z hyz _
    have hxz := hxy.trans hyz
    refine ⟨rfl, hxz.taken, rfl, x.2.written.length, Nat.le_refl _, hxz.written.length_le, ?_⟩
    rw [hzero, Nat.zero_min]
  rw [if_neg hzero]
  apply meets_load
  intro z hyz hz
  have hxz := hxy.trans hyz
  refine ⟨hxz.taken, ?_⟩
  have hw : x.2.written.length ≤ y.2.written.length := hxy.written.length_le
  -- what a read of `k` bytes gives is what is promised, if `k` is the number to read
  have hresult : ∀ {v : World} {k : Nat} {p : Prog Place RbSt (Nat × List Byte)},
      y.2.written.length ≤ v.2.written.length →
      k = min required (y.2.written.length - x.2.taken) →
      p.Meets (readerContract n x.2.taken) (fun r u => r.1 = k ∧ r.2.length = k ∧
        u.2.taken = x.2.taken + k ∧ (u.2.written.drop x.2.taken).take k = r.2 ∧
        v.2.written <+: u.2.written) v →
      p.Meets (readerContract n x.2.taken) (ReadOut x required) v := by
    intro v k p hv hk hp
    apply hp.mono
    intro r u ⟨h₁, h₂, h₃, h₄, h₅⟩
    refine ⟨h₁.trans h₂.symm, h₁ ▸ h₃, h₁ ▸ h₄, y.2.written.length, hw, ?_, h₁.trans hk⟩
    exact Nat.le_trans hv h₅.length_le
  have hrun : ∀ {v : World} {k : Nat}, WriterMoves z v →
      k = min required (y.2.written.length - x.2.taken) → v.2.taken + k ≤ v.2.copied →
      v.1.rp + k ≤ n →
      (rbReadRun k).Meets (readerContract n x.2.taken) (ReadOut x required) v := by
    intro v k hzv hk hcopied hrp
    have htaken : v.2.taken = x.2.taken := (hxz.trans hzv).taken
    apply hresult (hyz.trans hzv).written.length_le hk
    apply (rbReadRun_meets hn htaken hcopied hrp).mono
    intro r u ⟨h₁, h₂, h₃, h₄, h₅⟩
    exact ⟨h₁, h₂.symm.trans h₁, h₃, h₄, h₅⟩
  by_cases hge : z.1.rp ≤ y.1.wp
  · rw [if_pos hge]
    apply meets_load
    intro v hzv hv
    have hxv := hxz.trans hzv
    have hseen : Seen n y.2.written.length y.1.wp v := hy.seen.env (hyz.trans hzv)
    have hgev : v.1.rp ≤ y.1.wp := by rwa [hzv.rp]
    have hcopied := hseen.le_copied hv hgev
    have hs := hseen.span_eq
    have hwpn := hy.wp_le
    have htaken : v.2.taken = x.2.taken := hxv.taken
    have hwtaken := hseen.taken_le
    rw [span, if_pos hgev, htaken] at hs
    refine ⟨hxv.taken, ?_⟩
    rw [sub32_of_le hgev (Nat.lt_of_le_of_lt hwpn hn)]
    by_cases hless : y.1.wp - v.1.rp < required
    · rw [if_pos hless]
      exact hrun hzv (by omega) (by omega) (by omega)
    · rw [if_neg hless]
      exact hrun hzv (by omega) (by omega) (by omega)
  · rw [if_neg hge]
    apply meets_load
    intro v hzv hv
    have hxv := hxz.trans hzv
    have hseen : Seen n y.2.written.length y.1.wp v := hy.seen.env (hyz.trans hzv)
    have hltv : y.1.wp < v.1.rp := by
      rw [hzv.rp]
      exact Nat.not_le.mp hge
    have hend := hseen.end_copied hv hltv
    have hs := hseen.span_eq
    have hrpn := hv.rp_le
    have hwpn := hy.wp_le
    have htaken : v.2.taken = x.2.taken := hxv.taken
    rw [span, if_neg (Nat.not_le.mpr hltv), htaken] at hs
    refine ⟨hxv.taken, ?_⟩
    rw [hv.capacity, sub32_of_le hrpn hn]
    by_cases hless : n - v.1.rp < required
    · rw [if_pos hless]
      apply meets_load
      intro u hvu hu
      have hxu := hxv.trans hvu
      refine ⟨hxu.taken, ?_⟩
      apply meets_action
      intro t hut ht
      have hvt := hvu.trans hut
      have hxt := hxv.trans hvt
      have hseent := hseen.env hvt
      have hrpt : t.1.rp = v.1.rp := hvt.rp
      have hrpu : u.1.rp = v.1.rp := hvu.rp
      have hltt : y.1.wp < t.1.rp := by rwa [hrpt]
      refine ⟨hxt.taken, fun _ => ⟨?_, t.2, ReaderMoves.refl t, ht, ?_⟩⟩
      · rw [ht.capacity, hrpu]
        exact decide_eq_true (by omega)
      have hbytes : readBytes t.1.address u.1.rp (n - v.1.rp) =
          (t.2.written.drop x.2.taken).take (n - t.1.rp) := by
        rw [← hxt.taken, hrpu, ← hrpt]
        apply ht.readBytes_eq (j := 0) (hseent.end_copied ht hltt)
        intro i hi
        rw [Nat.zero_add]
        exact slot_of_lt (by omega)
      have hwt : y.2.written.length ≤ t.2.written.length :=
        ((hyz.trans hzv).trans hvt).written.length_le
      rw [sub32_of_le (Nat.le_of_lt hless) hreq]
      have hrest : ∀ {m : Nat}, m ≤ y.1.wp →
          n - v.1.rp + m = min required (y.2.written.length - x.2.taken) →
          (copyOut .fromStart 0 m >>= fun rest =>
            Prog.store .plain (fun rb => rb.setRp m) >>= fun _ => pure (n - v.1.rp + m,
              readBytes t.1.address u.1.rp (n - v.1.rp) ++ rest)).Meets
            (readerContract n x.2.taken) (ReadOut x required) t := by
        intro m hm hk
        apply hresult hwt hk
        have h := readRest_meets (k := n - v.1.rp + m) ht hxt.taken hseent hltt hm hbytes
        rwa [hrpt] at h
      by_cases hmore : y.1.wp < required - (n - v.1.rp)
      · rw [if_pos hmore]
        have hsum : u32 (n - v.1.rp + y.1.wp) = n - v.1.rp + y.1.wp := u32_of_lt (by omega)
        rw [hsum]
        exact hrest (Nat.le_refl _) (by omega)
      · rw [if_neg hmore]
        have h := hrest (m := required - (n - v.1.rp)) (by omega) (by omega)
        rwa [Nat.add_sub_cancel' (Nat.le_of_lt hless)] at h
    · rw [if_neg hless]
      exact hrun hzv (by omega) (by omega) (by omega)

end TuyaSdk.RingBuffer
