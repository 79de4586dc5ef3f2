import TuyaSdk.Lib.Machine
import TuyaSdk.RingBuffer.Sides

/-!
# The buffer is a byte FIFO with a reserve

`Fifo` is what the buffer stands for: the bytes stored, of which there are at most
`capacity - 4`. Run alone, `rb_write` and `rb_read` are its two operations, and the two size
functions say what it holds and what it still takes. That a call returns also says that it
has made no access outside `address[0..capacity)`.
-/

namespace TuyaSdk.RingBuffer

open Lib

/-- The arguments of `rb_write`; `buffer` has the bytes that are to be written. -/
structure WriteArgs where
  buffer : List Byte
  size : Nat
  count : Nat
  length_eq : buffer.length = size * count

/-- A call by the user of the buffer. -/
inductive Call where
  | write (a : WriteArgs)
  | read (size count : Nat)

/-- What a call returns. -/
inductive Out where
  | wrote (r : Nat)
  | read (r : Nat) (bytes : List Byte)
  deriving DecidableEq, Repr

/-- The number of bytes that a call is about. -/
def Call.bytes : Call → Nat
  | write a => a.size * a.count
  | read size count => size * count

/-- One call. -/
def step : Machine RbSt Call Out := fun rb c =>
  match c with
  | .write a => ((rbWrite a.buffer a.size a.count).run rb).map fun r => (r.2, .wrote r.1)
  | .read size count => ((rbRead size count).run rb).map fun r => (r.2, .read r.1.1 r.1.2)

/-- The FIFO of at most `n - 4` bytes. -/
def fifo (n : Nat) (q : List Byte) : Call → List Byte × Out
  | .write a =>
    if n < q.length + a.buffer.length + 4 then (q, .wrote 0)
    else (q ++ a.buffer, .wrote a.buffer.length)
  | .read size count =>
    (q.drop (size * count), .read (min (size * count) q.length) (q.take (size * count)))

/-- The buffer stands for the queue `q`. -/
def Represents (n : Nat) (rb : RbSt) (q : List Byte) : Prop :=
  ∃ g : Ghost, Stored n (rb, g) ∧ Settled n (rb, g) ∧ q = g.written.drop g.taken

variable {n : Nat} {rb : RbSt} {q : List Byte}

theorem stored_init (addr : Mem) (n : Nat) : Stored n (rbInit addr n, ⟨[], 0, 0, 0⟩) := by
  constructor
  · rfl
  · exact Nat.zero_le _
  · exact Nat.zero_le _
  · exact Nat.le_refl _
  · exact Nat.le_refl _
  · rfl
  · exact Nat.zero_le _
  · exact fun i hi => absurd hi (Nat.not_lt_zero _)
  · exact fun hb => absurd hb (Nat.lt_irrefl _)

theorem settled_init (addr : Mem) (n : Nat) : Settled n (rbInit addr n, ⟨[], 0, 0, 0⟩) where
  copied := rfl
  wp := by
    change 0 < n ∨ n ≤ 4
    omega

theorem represents_init (addr : Mem) (n : Nat) : Represents n (rbInit addr n) [] :=
  ⟨_, stored_init addr n, settled_init addr n, rfl⟩

theorem Represents.length_eq {g : Ghost} (h : Stored n (rb, g)) :
    (g.written.drop g.taken).length = span n rb.wp rb.rp := by
  rw [List.length_drop]
  exact h.span_eq.symm

theorem Represents.write (h : Represents n rb q) (hn4 : 4 < n) (hn : n < 2 ^ 32) (a : WriteArgs)
    (hsize : a.size * a.count + 4 < 2 ^ 32) :
    ∃ r rb', (rbWrite a.buffer a.size a.count).run rb = some (r, rb') ∧
      (q.length + a.buffer.length + 4 ≤ n → r = a.buffer.length ∧ Represents n rb' (q ++ a.buffer)) ∧
      (n < q.length + a.buffer.length + 4 → r = 0) ∧ (r = 0 → rb' = rb) := by
  obtain ⟨g, hst, hset, rfl⟩ := h
  have hmeets := rbWrite_meets (x := (rb, g)) hn a.length_eq hsize hset List.prefix_rfl
  -- alone, the writer finds `rp` where it was
  obtain ⟨r, rb', g', hrun, ⟨hst', _⟩, ⟨hrp, htaken⟩, hset', hres⟩ := hmeets.run
    (J := fun y => y.1.rp = rb.rp ∧ y.2.taken = g.taken)
    (fun y z hy hyz => ⟨hyz.rp.trans hy.1, hyz.taken.trans hy.2⟩) (fun _ _ _ => trivial)
    ⟨hst, List.prefix_append _ _⟩ ⟨rfl, rfl⟩
  have htle : g.taken ≤ g.written.length := Nat.le_trans hst.taken_le hst.copied_le
  have hlen : (g.written.drop g.taken).length = g.written.length - g.taken := List.length_drop
  have hrb : ReaderMoves (rb, g) (rb', g') → rb' = rb := by
    intro hm
    have hcap := hst'.capacity.trans hst.capacity.symm
    have haddr := hm.address
    have hwp := hm.wp
    cases rb
    cases rb'
    simp_all
  refine ⟨r, rb', hrun, ?_, ?_, ?_⟩
  · intro hfit
    rcases hres with ⟨hr, hpos, hwritten⟩ | ⟨hr, hm, hempty | ⟨z, hxz, hzy, hfull⟩⟩
    · refine ⟨hr, g', hst', hset', ?_⟩
      change g'.written = g.written ++ a.buffer at hwritten
      rw [hwritten, show g'.taken = g.taken from htaken, List.drop_append_of_le_length htle]
    · rw [hempty]
      refine ⟨hr, g', hst', hset', ?_⟩
      rw [show g'.taken = g.taken from htaken, show g'.written = g.written from hm.written,
        List.append_nil]
    · have hz : z.2.written.length - z.2.taken = g.written.length - g.taken := by
        have h₁ : g.taken ≤ z.2.taken := hxz.taken
        have h₂ : z.2.taken ≤ g'.taken := hzy.taken
        have h₃ : g'.taken = g.taken := htaken
        rw [hxz.written]
        change g.written.length - _ = _
        omega
      omega
  · intro hfull
    rcases hres with ⟨hr, hpos, hwritten⟩ | ⟨hr, _⟩
    · have hreserve := hst'.reserve
      have hw : g'.written.length = g.written.length + a.buffer.length := by
        rw [← List.length_append]
        exact congrArg _ hwritten
      have ht : g'.taken = g.taken := htaken
      change g'.written.length - g'.taken ≤ n - 4 at hreserve
      omega
    · exact hr
  · intro hr
    rcases hres with ⟨_, hpos, _⟩ | ⟨_, hm, _⟩
    · omega
    · exact hrb hm

theorem Represents.read (h : Represents n rb q) (hn : n < 2 ^ 32) {size count : Nat}
    (hsize : size * count < 2 ^ 32) :
    ∃ rb', (rbRead size count).run rb =
        some ((min (size * count) q.length, q.take (size * count)), rb') ∧
      Represents n rb' (q.drop (size * count)) := by
  obtain ⟨g, hst, hset, rfl⟩ := h
  have hmeets : (rbRead size count).Meets (readerContract n g.taken)
      (ReadOut (rb, g) (size * count)) (rb, g) := by
    have h := rbRead_meets (x := (rb, g)) hn size count
    rwa [u32_of_lt hsize] at h
  -- alone, the reader finds all that is published copied
  obtain ⟨r, rb', g', hrun, hst', ⟨hwritten, hcopied, hwp⟩, hlen, htaken, hbytes, w, hw₁, hw₂, hk⟩ :=
    hmeets.run
      (J := fun y => y.2.written = g.written ∧ y.2.copied = g.copied ∧ y.1.wp = rb.wp)
      (fun y z hy hyz =>
        ⟨hyz.written.trans hy.1, hyz.copied.trans hy.2.1, hyz.wp.trans hy.2.2⟩)
      (fun l y hy _ => by rw [hy.1, hy.2.1]; exact hset.copied) hst ⟨rfl, rfl, rfl⟩
  have hwg : g'.written = g.written := hwritten
  have hwlen : w = g.written.length := by
    change w ≤ g'.written.length at hw₂
    rw [hwg] at hw₂
    exact Nat.le_antisymm hw₂ hw₁
  have hqlen : (g.written.drop g.taken).length = g.written.length - g.taken := List.length_drop
  have hr : r = (min (size * count) (g.written.drop g.taken).length,
      (g.written.drop g.taken).take (size * count)) := by
    have h₁ : r.1 = min (size * count) (g.written.drop g.taken).length := by
      rw [hqlen, ← hwlen]
      exact hk
    have h₂ : r.2 = (g.written.drop g.taken).take (size * count) := by
      change (g'.written.drop g.taken).take r.1 = r.2 at hbytes
      rw [← hbytes, hwg, h₁, List.take_eq_take_iff]
      omega
    exact Prod.ext h₁ h₂
  refine ⟨rb', by rw [hrun, hr], g', hst', ⟨?_, ?_⟩, ?_⟩
  · rw [hwritten, hcopied]
    exact hset.copied
  · rw [hwp]
    exact hset.wp
  · change g'.taken = g.taken + r.1 at htaken
    rw [hwg, htaken, List.drop_drop, hr]
    apply List.ext_getElem?
    intro i
    rw [List.getElem?_drop, List.getElem?_drop]
    have hdl : (g.written.drop g.taken).length = g.written.length - g.taken := List.length_drop
    rcases Nat.le_total (size * count) (g.written.drop g.taken).length with hle | hge
    · rw [Nat.min_eq_left hle]
    · have htle : g.taken ≤ g.written.length := Nat.le_trans hst.taken_le hst.copied_le
      rw [Nat.min_eq_right hge, List.getElem?_eq_none (by omega), List.getElem?_eq_none (by omega)]

/-! ## The sizes -/

theorem Represents.span (h : Represents n rb q) :
    q.length = RingBuffer.span n rb.wp rb.rp ∧ q.length ≤ n - 4 ∧ rb.capacity = n ∧
      (rb.wp < n ∨ n ≤ 4) ∧ rb.rp ≤ n := by
  obtain ⟨g, hst, hset, rfl⟩ := h
  have hlen := Represents.length_eq hst
  refine ⟨hlen, ?_, hst.capacity, hset.wp, hst.rp_le⟩
  rw [List.length_drop]
  exact hst.reserve

theorem Represents.rbGetFillSize_eq (h : Represents n rb q) (hn4 : 4 < n) (hn : n < 2 ^ 32) :
    rbGetFillSize rb = q.length := by
  obtain ⟨hlen, hreserve, hcap, hwp, hrp⟩ := h.span
  rw [hlen] at hreserve ⊢
  rw [RingBuffer.span] at hreserve ⊢
  rw [rbGetFillSize, hcap]
  by_cases hge : rb.rp ≤ rb.wp
  · rw [if_pos hge, if_pos hge]
    exact sub32_of_le hge (by omega)
  · rw [if_neg hge] at hreserve
    rw [if_neg hge, if_neg hge, sub32_of_le hrp hn]
    exact u32_of_lt (by omega)

theorem Represents.rbGetFreeSize_eq (h : Represents n rb q) (hn4 : 4 < n) (hn : n < 2 ^ 32) :
    rbGetFreeSize rb = n - 4 - q.length := by
  obtain ⟨hlen, hreserve, hcap, hwp, hrp⟩ := h.span
  have hfree : (if rb.rp ≤ rb.wp then u32 (sub32 rb.capacity rb.wp + rb.rp)
      else sub32 rb.rp rb.wp) = n - q.length := by
    rw [hcap, hlen]
    rw [hlen] at hreserve
    rw [RingBuffer.span] at hreserve ⊢
    by_cases hge : rb.rp ≤ rb.wp
    · rw [if_pos hge] at hreserve
      rw [if_pos hge, if_pos hge, sub32_of_le (by omega) hn, u32_of_lt (by omega)]
      omega
    · rw [if_neg hge] at hreserve
      rw [if_neg hge, if_neg hge, sub32_of_le (by omega) (by omega)]
      omega
  rw [rbGetFreeSize]
  simp only [hfree]
  by_cases hless : rwpSafeInterval < n - q.length
  · have h4 : rwpSafeInterval = 4 := rfl
    rw [if_pos hless, h4, sub32_of_le (by omega) (by omega)]
    omega
  · have h4 : rwpSafeInterval = 4 := rfl
    rw [if_neg hless]
    omega

/-! ## Runs of calls -/

/-- The buffer after some calls, when the FIFO holds `q`: the positions are in range, the
sizes are those of the FIFO, and a write is accepted exactly up to the free size. -/
structure Serves (n : Nat) (rb : RbSt) (q : List Byte) : Prop where
  stored_le : q.length ≤ n - 4
  wp_lt : rb.wp < n
  rp_le : rb.rp ≤ n
  fillSize : rbGetFillSize rb = q.length
  accepts : ∀ a : WriteArgs, a.size * a.count + 4 < 2 ^ 32 →
    ∃ r rb', (rbWrite a.buffer a.size a.count).run rb = some (r, rb') ∧
      (a.buffer.length ≤ rbGetFreeSize rb → r = a.buffer.length) ∧
      (rbGetFreeSize rb < a.buffer.length → r = 0) ∧ (r = 0 → rb' = rb)

theorem Represents.serves (h : Represents n rb q) (hn4 : 4 < n) (hn : n < 2 ^ 32) :
    Serves n rb q := by
  obtain ⟨_, hreserve, _, hwp, hrp⟩ := h.span
  refine ⟨hreserve, ?_, hrp, h.rbGetFillSize_eq hn4 hn, ?_⟩
  · rcases hwp with hwp | hsmall
    · exact hwp
    · omega
  · intro a hsize
    obtain ⟨r, rb', hrun, hfit, hfull, hsame⟩ := h.write hn4 hn a hsize
    rw [h.rbGetFreeSize_eq hn4 hn]
    exact ⟨r, rb', hrun, fun hle => (hfit (by omega)).1, fun hlt => hfull (by omega), hsame⟩

theorem Represents.step (h : Represents n rb q) (hn4 : 4 < n) (hn : n < 2 ^ 32) (c : Call)
    (hc : c.bytes + 4 < 2 ^ 32) :
    ∃ rb', step rb c = some (rb', (fifo n q c).2) ∧ Represents n rb' (fifo n q c).1 := by
  cases c with
  | write a =>
    obtain ⟨r, rb', hrun, hfit, hfull, hsame⟩ := h.write hn4 hn a hc
    refine ⟨rb', ?_⟩
    rw [RingBuffer.step, hrun, fifo]
    by_cases hlt : n < q.length + a.buffer.length + 4
    · rw [if_pos hlt, hfull hlt, hsame (hfull hlt)]
      exact ⟨rfl, h⟩
    · obtain ⟨hr, hrep⟩ := hfit (Nat.not_lt.mp hlt)
      rw [if_neg hlt, hr]
      exact ⟨rfl, hrep⟩
  | read size count =>
    have hsize : size * count < 2 ^ 32 := Nat.lt_of_le_of_lt (Nat.le_add_right _ 4) hc
    obtain ⟨rb', hrun, hrep⟩ := h.read hn hsize
    refine ⟨rb', ?_, hrep⟩
    rw [RingBuffer.step, hrun]
    rfl

/-- After any calls, the buffer has returned what the FIFO returns, and serves as it. -/
theorem rb_refines_fifo (addr : Mem) (hn4 : 4 < n) (hn : n < 2 ^ 32) (cs : List Call)
    (hcs : ∀ c ∈ cs, c.bytes + 4 < 2 ^ 32) :
    ∃ rb q outs, Machine.run step (rbInit addr n) cs = some (rb, outs) ∧
      Machine.run (fun q c => some (fifo n q c)) [] cs = some (q, outs) ∧ Serves n rb q := by
  have hl : Machine.Legal step (fun _ c => True ∧ c.bytes + 4 < 2 ^ 32) (rbInit addr n) cs :=
    (Machine.legal_true (rbInit addr n) cs).and_all hcs
  obtain ⟨rb, q, outs, hrun, hspec, hrep⟩ := Machine.run_simulates (R := Represents n)
    (fun rb q c hrep hc => hrep.step hn4 hn c hc.2)
    (represents_init addr n) hl
  exact ⟨rb, q, outs, hrun, hspec, hrep.serves hn4 hn⟩

/-- Calls to a buffer of eight bytes: the third write wraps, the fourth does not fit, and the
last read takes what there is, across the wrap. -/
def eightBytes : List Call :=
  [.write ⟨[1, 2, 3], 3, 1, rfl⟩, .read 3 1, .write ⟨[4, 5, 6, 7], 4, 1, rfl⟩, .read 4 1,
    .write ⟨[8, 9, 10], 3, 1, rfl⟩, .write ⟨[11, 12], 2, 1, rfl⟩, .read 2 4]

theorem eight_bytes_fifo : ∃ rb q outs,
    Machine.run step (rbInit (fun _ => 0) 8) eightBytes = some (rb, outs) ∧
    Machine.run (fun q c => some (fifo 8 q c)) [] eightBytes = some (q, outs) ∧ Serves 8 rb q :=
  rb_refines_fifo _ (by decide) (by decide) _ (by decide)

end TuyaSdk.RingBuffer
