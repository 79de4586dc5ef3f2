import TuyaSdk.DmaRing.Defs
import TuyaSdk.Lib.Ring

/-!
# The processor writes, the channel consumes

Positions are counters modulo the capacity: the channel is behind the bytes it has moved, `wp`
and the pause address behind the bytes accepted. The two counters are never a ring apart, so the
channel stops where the accepted bytes end, and the bytes that a write stores are not among those
the channel has still to move.
-/

namespace TuyaSdk.DmaRing
open TuyaSdk.Lib

variable {a n : Nat} {acc xs : List Byte} {w w' : World} {rb : RbDma}

/-! ## The channel -/

/-- The channel at the loop from `a` of `n` bytes has moved a part of the bytes accepted, and the
others lie before it, up to the pause address. -/
structure Feeds (a n : Nat) (acc : List Byte) (w : World) : Prop where
  loopStart : w.gdma.loopStart = a
  loopEnd : w.gdma.loopEnd = a + n
  addr : w.gdma.addr = a + w.moved.length % n
  pause : w.gdma.pauseAddr = a + acc.length % n
  moved : w.moved <+: acc
  cells : ∀ k (h : k < acc.length), w.moved.length ≤ k → w.mem (a + k % n) = acc[k]
  room : acc.length < w.moved.length + n

/-- The bytes `xs` are stored behind those accepted. -/
def Pending (a n : Nat) (acc xs : List Byte) (w : World) : Prop :=
  ∀ i (h : i < xs.length), w.mem (a + (acc.length + i) % n) = xs[i]

/-- The channel may have moved on, and nothing else happened. -/
structure Later (w w' : World) : Prop where
  moved : w.moved.length ≤ w'.moved.length
  mem : w'.mem = w.mem

/-- The channel stops when it has moved everything. -/
theorem Feeds.stops_iff (h : Feeds a n acc w) :
    w.gdma.addr = w.gdma.pauseAddr ↔ w.moved.length = acc.length := by
  rw [h.addr, h.pause, Nat.add_left_cancel_iff]
  constructor
  · exact counter_inj h.moved.length_le h.room
  · intro heq
    rw [heq]

theorem Feeds.moveOut (h : Feeds a n acc w) (hn : 0 < n) :
    Feeds a n acc w.moveOut ∧ Later w w.moveOut := by
  unfold World.moveOut
  split_ifs with hstop
  · exact ⟨h, Nat.le_refl _, rfl⟩
  · have hne := mt h.stops_iff.mpr hstop
    have hlt : w.moved.length < acc.length := by
      have := h.moved.length_le
      omega
    have hroom := h.room
    refine ⟨⟨h.loopStart, h.loopEnd, ?_, h.pause, ?_, ?_, ?_⟩, ?_, rfl⟩
    · simp only [Gdma.next, List.length_append, List.length_singleton, h.loopStart, h.loopEnd,
        h.addr, counter_succ hn]
      split_ifs <;> omega
    · rw [h.addr, h.cells _ hlt (Nat.le_refl _)]
      exact prefix_concat_getElem h.moved hlt
    · intro k hk hle
      rw [List.length_append] at hle
      exact h.cells k hk (by omega)
    · rw [List.length_append]
      omega
    · simp

theorem Feeds.tick (h : Feeds a n acc w) (hn : 0 < n) :
    Feeds a n acc (w.tick World.moveOut) ∧ Later w (w.tick World.moveOut) := by
  have hmoves : ∀ m, Feeds a n acc (World.moveOut^[m] w) ∧ Later w (World.moveOut^[m] w) := by
    intro m
    induction m with
    | zero => exact ⟨h, Nat.le_refl _, rfl⟩
    | succ m ih =>
      rw [Function.iterate_succ_apply']
      obtain ⟨hf, hl⟩ := ih
      obtain ⟨hf', hl'⟩ := hf.moveOut hn
      exact ⟨hf', Nat.le_trans hl.moved hl'.moved, hl'.mem.trans hl.mem⟩
  obtain ⟨hf, hl⟩ := hmoves (w.moves w.moment)
  exact ⟨⟨hf.loopStart, hf.loopEnd, hf.addr, hf.pause, hf.moved, hf.cells, hf.room⟩,
    hl.moved, hl.mem⟩

theorem Pending.later (h : Pending a n acc xs w) (hl : Later w w') : Pending a n acc xs w' := by
  intro i hi
  rw [hl.mem]
  exact h i hi

/-! ## A write -/

/-- A byte stored behind those accepted and pending. -/
theorem Feeds.store (h : Feeds a n acc w) (hp : Pending a n acc xs w)
    (hroom : acc.length + xs.length < w.moved.length + n) (b : Byte) :
    Feeds a n acc { w with mem := write8 w.mem (a + (acc.length + xs.length) % n) b } ∧
      Pending a n acc (xs ++ [b])
        { w with mem := write8 w.mem (a + (acc.length + xs.length) % n) b } := by
  have hne : ∀ k, w.moved.length ≤ k → k < acc.length + xs.length →
      a + k % n ≠ a + (acc.length + xs.length) % n := by
    intro k hle hlt heq
    have := counter_inj (Nat.le_of_lt hlt) (by omega) (Nat.add_left_cancel heq)
    omega
  have hmoved := h.moved.length_le
  refine ⟨⟨h.loopStart, h.loopEnd, h.addr, h.pause, h.moved, ?_, h.room⟩, ?_⟩
  · intro k hk hle
    exact (write8_apply (hne k hle (by omega))).trans (h.cells k hk hle)
  · intro i hi
    rw [List.length_append, List.length_singleton] at hi
    rcases Nat.lt_succ_iff_lt_or_eq.mp hi with hlt | rfl
    · rw [List.getElem_append_left hlt]
      exact (write8_apply (hne _ (by omega) (by omega))).trans (hp i hlt)
    · rw [List.getElem_concat_length rfl]
      exact write8_same _ _ _

/-- The cells from position `p` on are filled, up to the end of the buffer at most. -/
theorem Feeds.copyIn (h : Feeds a n acc w) (hp : Pending a n acc xs w) (hn : 0 < n)
    (bs : List Byte) {p : Nat} (hpos : (acc.length + xs.length) % n = p) (hend : p + bs.length ≤ n)
    (hroom : acc.length + xs.length + bs.length < w.moved.length + n) :
    Feeds a n acc (copyIn w (a + p) bs) ∧ Pending a n acc (xs ++ bs) (copyIn w (a + p) bs) ∧
      w.moved.length ≤ (DmaRing.copyIn w (a + p) bs).moved.length := by
  induction bs generalizing w xs p with
  | nil =>
    rw [List.append_nil]
    exact ⟨h, hp, Nat.le_refl _⟩
  | cons b bs ih =>
    simp only [List.length_cons] at hend hroom
    obtain ⟨hf, hl⟩ := h.tick hn
    have hle := hl.moved
    obtain ⟨hf', hp'⟩ := hf.store (hp.later hl) (by omega) b
    rw [hpos] at hf' hp'
    rw [DmaRing.copyIn, Nat.add_assoc]
    rcases Nat.lt_or_ge (p + 1) n with hlt | hge
    · have hnext : (acc.length + (xs ++ [b]).length) % n = p + 1 := by
        rw [List.length_append, List.length_singleton, ← Nat.add_assoc, counter_succ hn, hpos,
          if_neg (by omega)]
      obtain ⟨hf'', hp'', hmoved⟩ := ih hf' hp' hnext (by omega) (by
        rw [List.length_append, List.length_singleton]
        show _ < (w.tick World.moveOut).moved.length + n
        omega)
      rw [List.append_assoc] at hp''
      exact ⟨hf'', hp'', Nat.le_trans hle hmoved⟩
    · obtain rfl : bs = [] := List.length_eq_zero_iff.mp (by omega)
      exact ⟨hf', hp', hle⟩

/-- A fresh write has nothing pending. -/
theorem pending_nil (a n : Nat) (acc : List Byte) (w : World) : Pending a n acc [] w :=
  fun i h => absurd h (Nat.not_lt_zero i)

/-- The pending bytes are accepted when the pause address is set behind them. -/
theorem Feeds.accept (h : Feeds a n acc w) (hp : Pending a n acc xs w)
    (hroom : acc.length + xs.length < w.moved.length + n) :
    Feeds a n (acc ++ xs) (w.setPauseAddr (a + (acc.length + xs.length) % n)) where
  loopStart := h.loopStart
  loopEnd := h.loopEnd
  addr := h.addr
  pause := by
    rw [List.length_append]
    rfl
  moved := h.moved.trans (List.prefix_append _ _)
  cells := by
    intro k hk hle
    rw [List.length_append] at hk
    rcases Nat.lt_or_ge k acc.length with hlt | hge
    · rw [List.getElem_append_left hlt]
      exact h.cells k hlt hle
    · rw [List.getElem_append_right hge, ← hp (k - acc.length) (by omega)]
      rw [Nat.add_sub_cancel' hge]
      rfl
  room := by
    rw [List.length_append]
    exact hroom

/-! ## The state between calls -/

/-- Between two calls: `wp` is the position behind the bytes accepted, four cells are free. -/
structure WriteInv (a n : Nat) (acc : List Byte) (rb : RbDma) (w : World) : Prop where
  address : rb.address = a
  capacity : rb.capacity = n
  wp : rb.wp = acc.length % n
  feeds : Feeds a n acc w
  safe : acc.length + 4 ≤ w.moved.length + n

/-- A buffer that fits the address space. -/
structure BufferOk (a n : Nat) : Prop where
  pos : 4 < n
  fits : a + n < 2 ^ 32

/-- The position of the channel in the buffer. -/
theorem Feeds.sample (h : Feeds a n acc w) (hb : BufferOk a n) :
    sub32 w.gdma.addr a = w.moved.length % n := by
  have hfits := hb.fits
  have hlt := Nat.mod_lt w.moved.length (show 0 < n by have := hb.pos; omega)
  rw [h.addr, sub32_of_le (by omega) (by omega)]
  omega

/-- The cells that are neither unread nor behind `wp`, as the C code finds them. -/
theorem Feeds.gap (h : Feeds a n acc w) (hb : BufferOk a n) :
    (if acc.length % n ≥ w.moved.length % n then
      u32 (sub32 n (acc.length % n) + w.moved.length % n)
    else sub32 (w.moved.length % n) (acc.length % n)) = w.moved.length + n - acc.length := by
  have hpos := hb.pos
  have hfits := hb.fits
  have hle := h.moved.length_le
  have hroom := h.room
  have hT := Nat.mod_lt acc.length (show 0 < n by omega)
  have hC := Nat.mod_lt w.moved.length (show 0 < n by omega)
  have hdist := counter_distance (show 0 < n by omega) hle hroom
  split_ifs at hdist ⊢
  · rw [sub32_of_le (by omega) (by omega), u32_of_lt (by omega)]
    omega
  · rw [sub32_of_le (by omega) (by omega)]
    omega

theorem WriteInv.sampleRp (h : WriteInv a n acc rb w) (hb : BufferOk a n) :
    sampleRp rb w = ({ rb with rp := (w.tick World.moveOut).moved.length % n },
      w.tick World.moveOut) ∧
    WriteInv a n acc { rb with rp := (w.tick World.moveOut).moved.length % n }
      (w.tick World.moveOut) ∧ Later w (w.tick World.moveOut) := by
  obtain ⟨hf, hl⟩ := h.feeds.tick (show 0 < n by have := hb.pos; omega)
  have hsafe := h.safe
  have hle := hl.moved
  refine ⟨?_, ⟨h.address, h.capacity, h.wp, hf, by omega⟩, hl⟩
  simp only [DmaRing.sampleRp, h.address, hf.sample hb]

/-- The free size that the calls compute. -/
theorem WriteInv.freeOf (h : WriteInv a n acc rb w) (hb : BufferOk a n)
    (hrp : rb.rp = w.moved.length % n) : freeOf rb = w.moved.length + n - acc.length - 4 := by
  have hgap := h.feeds.gap hb
  have hsafe := h.safe
  have hfits := hb.fits
  have hle := h.feeds.moved.length_le
  unfold DmaRing.freeOf
  rw [h.wp, hrp, h.capacity, hgap]
  show (if w.moved.length + n - acc.length > 4 then
    sub32 (w.moved.length + n - acc.length) 4 else 0) = _
  split_ifs with hgt
  · rw [sub32_of_le (by omega) (by omega)]
  · omega

/-- The end of a write: `wp` is wrapped, and the bytes stored are accepted. -/
theorem finishWrite_spec (hb : BufferOk a n) (wp rp : Nat) (hf : Feeds a n acc w)
    (hp : Pending a n acc xs w) (hsafe : acc.length + xs.length + 4 ≤ w.moved.length + n)
    (hwp : (if wp ≥ n ∧ rp ≠ 0 then 0 else wp) = (acc.length + xs.length) % n) (k : Nat) :
    (finishWrite ⟨a, n, wp, rp⟩ w k).1 = k ∧
      WriteInv a n (acc ++ xs) (finishWrite ⟨a, n, wp, rp⟩ w k).2.1
        (finishWrite ⟨a, n, wp, rp⟩ w k).2.2 ∧
      (finishWrite ⟨a, n, wp, rp⟩ w k).2.2.moved <+: acc := by
  have hfits := hb.fits
  have hn : 0 < n := by
    have := hb.pos
    omega
  have hlt := Nat.mod_lt (acc.length + xs.length) hn
  obtain ⟨hf', hl⟩ := hf.tick hn
  have hle := hl.moved
  have hrb : (if wp ≥ n ∧ rp ≠ 0 then (⟨a, n, 0, rp⟩ : RbDma) else ⟨a, n, wp, rp⟩) =
      ⟨a, n, (acc.length + xs.length) % n, rp⟩ := by
    rw [← hwp]
    split_ifs <;> rfl
  unfold finishWrite
  simp only [hrb, u32_of_lt (show a + (acc.length + xs.length) % n < 2 ^ 32 by omega)]
  refine ⟨trivial, ⟨rfl, rfl, ?_, ?_, ?_⟩, hf'.moved⟩
  · rw [List.length_append]
  · exact hf'.accept (hp.later hl) (by omega)
  · rw [List.length_append]
    show _ ≤ (w.tick World.moveOut).moved.length + n
    omega

/-- What a write does, if the channel had moved as many bytes when it was looked at as `w`
has. -/
def Writes (a n : Nat) (acc buffer : List Byte) (moved : Nat) (r : Nat × RbDma × World) : Prop :=
  (if acc.length + buffer.length + 4 ≤ moved + n then
    r.1 = buffer.length ∧ WriteInv a n (acc ++ buffer) r.2.1 r.2.2
  else r.1 = 0 ∧ WriteInv a n acc r.2.1 r.2.2) ∧ r.2.2.moved <+: acc

/-- The bytes of a write without a wrap. -/
theorem Feeds.writes (h : Feeds a n acc w) (hb : BufferOk a n) {buffer : List Byte} {wp rp : Nat}
    (hend : acc.length % n + buffer.length ≤ n)
    (hroom : acc.length + buffer.length + 4 ≤ w.moved.length + n)
    (hwp : (if wp ≥ n ∧ rp ≠ 0 then 0 else wp) = (acc.length + buffer.length) % n) :
    Writes a n acc buffer w.moved.length (finishWrite ⟨a, n, wp, rp⟩
      (DmaRing.copyIn w (a + acc.length % n) buffer) buffer.length) := by
  have hn : 0 < n := by
    have := hb.pos
    omega
  obtain ⟨hf, hp, hle⟩ := h.copyIn (pending_nil a n acc w) hn buffer rfl hend
    (by rw [List.length_nil]; omega)
  obtain ⟨h1, h2, h3⟩ := finishWrite_spec hb wp rp hf hp (by rw [List.nil_append]; omega)
    (by rw [List.nil_append]; exact hwp) buffer.length
  unfold Writes
  rw [if_pos hroom]
  exact ⟨⟨h1, h2⟩, h3⟩

/-- The bytes of a write that wraps: up to the end of the buffer, and from its start. -/
theorem Feeds.writesWrapped (h : Feeds a n acc w) (hb : BufferOk a n) {buffer : List Byte}
    {rp : Nat} (hend : n < acc.length % n + buffer.length)
    (hroom : acc.length + buffer.length + 4 ≤ w.moved.length + n) :
    Writes a n acc buffer w.moved.length
      (finishWrite ⟨a, n, buffer.length - (n - acc.length % n), rp⟩
        (DmaRing.copyIn
          (DmaRing.copyIn w (a + acc.length % n) (buffer.take (n - acc.length % n)))
          a (buffer.drop (n - acc.length % n))) buffer.length) := by
  have hn : 0 < n := by
    have := hb.pos
    omega
  have hmoved := h.moved.length_le
  have hlt := Nat.mod_lt acc.length hn
  have htake : (buffer.take (n - acc.length % n)).length = n - acc.length % n := by
    rw [List.length_take]
    omega
  obtain ⟨hf, hp, hle⟩ := h.copyIn (pending_nil a n acc w) hn
    (buffer.take (n - acc.length % n)) (p := acc.length % n) rfl (by rw [htake]; omega)
    (by rw [htake, List.length_nil]; omega)
  rw [List.nil_append] at hp
  have hzero : (acc.length + (buffer.take (n - acc.length % n)).length) % n = 0 := by
    rw [htake, counter_add hn rfl (by omega), if_neg (by omega)]
    omega
  obtain ⟨hf', hp', hle'⟩ := hf.copyIn hp hn (buffer.drop (n - acc.length % n)) hzero
    (by rw [List.length_drop]; omega) (by rw [htake, List.length_drop]; omega)
  rw [List.take_append_drop] at hp'
  obtain ⟨h1, h2, h3⟩ := finishWrite_spec hb (buffer.length - (n - acc.length % n)) rp hf' hp'
    (by omega) (by
      rw [if_neg (by omega), counter_add hn rfl (by omega), if_neg (by omega)]
      omega) buffer.length
  unfold Writes
  rw [if_pos hroom]
  exact ⟨⟨h1, h2⟩, h3⟩

/-- A write of some bytes. -/
theorem rbWriteDmaRead_spec (hb : BufferOk a n) (h : WriteInv a n acc rb w) {buffer : List Byte}
    {size count : Nat} (hlen : buffer.length = size * count) (hsize : size * count + 4 < 2 ^ 32)
    (hpos : size * count ≠ 0) :
    Writes a n acc buffer (w.tick World.moveOut).moved.length
      (rbWriteDmaRead rb w buffer size count) := by
  have hn : 0 < n := by
    have := hb.pos
    omega
  have hfits := hb.fits
  obtain ⟨-, hinv, -⟩ := h.sampleRp hb
  have hf := hinv.feeds
  have hsafe := hinv.safe
  have hgap := hf.gap hb
  have hmoved := hf.moved.length_le
  have hT := Nat.mod_lt acc.length hn
  have hC := Nat.mod_lt (w.tick World.moveOut).moved.length hn
  have hdist := counter_distance hn hmoved hf.room
  obtain ⟨address, capacity, wp, rp⟩ := rb
  obtain ⟨ha, hc, hwp, -, -⟩ := h
  simp only at ha hc hwp
  subst ha hc hwp
  unfold rbWriteDmaRead
  rw [← hlen] at hsize hpos ⊢
  simp only [u32_of_lt (show buffer.length < 2 ^ 32 by omega), if_neg hpos, hf.sample hb,
    u32_of_lt (show buffer.length + RWP_SAFE_INTERVAL < 2 ^ 32 from hsize),
    u32_of_lt (show address + acc.length % capacity < 2 ^ 32 by omega), List.take_length]
  generalize hw₁ : w.tick World.moveOut = w₁ at hf hsafe hgap hmoved hC hdist hinv ⊢
  have hrefuse : ¬acc.length + buffer.length + 4 ≤ w₁.moved.length + capacity →
      Writes address capacity acc buffer w₁.moved.length
        (0, ⟨address, capacity, acc.length % capacity, w₁.moved.length % capacity⟩, w₁) := by
    intro hno
    unfold Writes
    rw [if_neg hno]
    exact ⟨⟨rfl, hinv⟩, hf.moved⟩
  by_cases hge : acc.length % capacity ≥ w₁.moved.length % capacity
  · rw [if_pos hge] at hgap hdist
    rw [if_pos hge, hgap]
    split_ifs with hroom hfit
    · rw [sub32_of_le (by omega) (by omega)] at hfit
      rw [u32_of_lt (by omega)]
      refine hf.writes hb (by omega) (by unfold RWP_SAFE_INTERVAL at hroom; omega) ?_
      -- a write up to the end of the buffer leaves the channel away from its start
      unfold RWP_SAFE_INTERVAL at hroom
      rw [counter_add hn rfl (by omega)]
      split_ifs <;> omega
    · have hrem : sub32 capacity (acc.length % capacity) = capacity - acc.length % capacity :=
        sub32_of_le (by omega) (by omega)
      rw [hrem] at hfit ⊢
      have hrest : sub32 buffer.length (capacity - acc.length % capacity) =
          buffer.length - (capacity - acc.length % capacity) := sub32_of_le (by omega) (by omega)
      rw [hrest, List.take_of_length_le (Nat.le_of_eq List.length_drop)]
      exact hf.writesWrapped hb (by omega) (by unfold RWP_SAFE_INTERVAL at hroom; omega)
    · exact hrefuse (by unfold RWP_SAFE_INTERVAL at hroom; omega)
  · rw [if_neg hge] at hgap hdist
    rw [if_neg hge, hgap]
    split_ifs with hroom
    · unfold RWP_SAFE_INTERVAL at hroom
      rw [u32_of_lt (by omega)]
      refine hf.writes hb (by omega) (by omega) ?_
      rw [counter_add hn rfl (by omega)]
      split_ifs <;> omega
    · exact hrefuse (by unfold RWP_SAFE_INTERVAL at hroom; omega)

/-! ## Runs -/

/-- The buffer, the world, and the bytes of the writes that `rb_write_dma_read` accepted. -/
structure RdState where
  rb : RbDma
  w : World
  accepted : List Byte

/-- A call, or a while in which only the channel moves. -/
inductive RdCall where
  | write (buffer : List Byte) (size count : Nat)
  | fill
  | free
  | idle

/-- A call is made. -/
def rdStep : Machine RdState RdCall Nat := fun s c =>
  match c with
  | .write buffer size count =>
    let r := rbWriteDmaRead s.rb s.w buffer size count
    some (⟨r.2.1, r.2.2, if r.1 = 0 then s.accepted else s.accepted ++ buffer⟩, r.1)
  | .fill =>
    let r := rbGetFillSizeDmaRead s.rb s.w
    some (⟨r.2.1, r.2.2, s.accepted⟩, r.1)
  | .free =>
    let r := rbGetFreeSizeDmaRead s.rb s.w
    some (⟨r.2.1, r.2.2, s.accepted⟩, r.1)
  | .idle => some (⟨s.rb, s.w.tick World.moveOut, s.accepted⟩, 0)

/-- The channel is configured and the buffer initialised. -/
def rdStart (w : World) (buf bufLen : Nat) : RdState :=
  let r := rbInitDmaRead (audioConfigDma w buf bufLen) buf bufLen
  ⟨r.1, r.2, []⟩

/-- The buffer of a write holds the bytes it is called for, and their number does not overflow. -/
def RdCallOk (_ : RdState) : RdCall → Prop
  | .write buffer size count => buffer.length = size * count ∧ size * count + 4 < 2 ^ 32
  | _ => True

instance (s : RdState) (c : RdCall) : Decidable (RdCallOk s c) := by
  cases c <;> unfold RdCallOk <;> infer_instance

/-- What holds at the end of every call: `wp` is in the buffer; the bytes consumed are the first
of those accepted; the others lie in the buffer, from the channel on; the channel stops when it
has consumed all; and the free size is an amount that a write accepts. -/
structure RdSound (s : RdState) : Prop where
  wp_lt : s.rb.wp < s.rb.capacity
  consumed : s.w.moved <+: s.accepted
  unread : ∀ k (h : k < s.accepted.length), s.w.moved.length ≤ k →
    s.w.mem (s.rb.address + k % s.rb.capacity) = s.accepted[k]
  channel : s.w.gdma.addr = s.rb.address + s.w.moved.length % s.rb.capacity
  stops_iff : s.w.gdma.addr = s.w.gdma.pauseAddr ↔ s.w.moved = s.accepted
  accepts : ∀ buffer size count, buffer.length = size * count →
    size * count = (rbGetFreeSizeDmaRead s.rb s.w).1 →
      (rbWriteDmaRead (rbGetFreeSizeDmaRead s.rb s.w).2.1 (rbGetFreeSizeDmaRead s.rb s.w).2.2
        buffer size count).1 = size * count

theorem WriteInv.sound (hb : BufferOk a n) (h : WriteInv a n acc rb w) : RdSound ⟨rb, w, acc⟩ := by
  have hn : 0 < n := by
    have := hb.pos
    omega
  have hfits := hb.fits
  refine ⟨?_, h.feeds.moved, ?_, ?_, ?_, ?_⟩
  · show rb.wp < rb.capacity
    rw [h.wp, h.capacity]
    exact Nat.mod_lt _ hn
  · rw [h.address, h.capacity]
    exact h.feeds.cells
  · rw [h.address, h.capacity]
    exact h.feeds.addr
  · rw [h.feeds.stops_iff]
    exact ⟨fun heq => h.feeds.moved.eq_of_length heq, fun heq => congrArg List.length heq⟩
  · intro buffer size count hlen hsize
    obtain ⟨hsample, hinv, -⟩ := h.sampleRp hb
    have hmoved := hinv.feeds.moved.length_le
    have hfree := hinv.freeOf hb rfl
    unfold rbGetFreeSizeDmaRead at hsize ⊢
    simp only [hsample] at hsize ⊢
    rw [hfree] at hsize
    by_cases hz : size * count = 0
    · unfold rbWriteDmaRead
      rw [hz]
      rfl
    · have hspec := rbWriteDmaRead_spec hb hinv hlen (by omega) hz
      have hle := (hinv.sampleRp hb).2.2.moved
      unfold Writes at hspec
      rw [if_pos (by omega)] at hspec
      rw [hspec.1.1, hlen]

/-- A call keeps the invariant, and during the call the channel consumes nothing that was not
accepted before. -/
theorem rdStep_spec (hb : BufferOk a n) {s s' : RdState} {c : RdCall} {o : Nat}
    (h : WriteInv a n s.accepted s.rb s.w) (hok : RdCallOk s c) (hs : rdStep s c = some (s', o)) :
    WriteInv a n s'.accepted s'.rb s'.w ∧ s'.w.moved <+: s.accepted := by
  obtain ⟨hsample, hinv, -⟩ := h.sampleRp hb
  cases c with
  | write buffer size count =>
    cases hs
    obtain ⟨hlen, hsize⟩ := hok
    by_cases hz : size * count = 0
    · have heq : rbWriteDmaRead s.rb s.w buffer size count = (0, s.rb, s.w) := by
        unfold rbWriteDmaRead
        rw [hz]
        rfl
      simp only [heq, if_true]
      exact ⟨h, h.feeds.moved⟩
    · obtain ⟨hspec, hmoved⟩ := rbWriteDmaRead_spec hb h hlen hsize hz
      refine ⟨?_, hmoved⟩
      split_ifs at hspec with hroom
      · show WriteInv a n (if (rbWriteDmaRead s.rb s.w buffer size count).1 = 0 then s.accepted
          else s.accepted ++ buffer) _ _
        rw [hspec.1, hlen, if_neg hz]
        exact hspec.2
      · show WriteInv a n (if (rbWriteDmaRead s.rb s.w buffer size count).1 = 0 then s.accepted
          else s.accepted ++ buffer) _ _
        rw [hspec.1, if_pos rfl]
        exact hspec.2
  | fill =>
    cases hs
    unfold rbGetFillSizeDmaRead
    simp only [hsample]
    exact ⟨hinv, hinv.feeds.moved⟩
  | free =>
    cases hs
    unfold rbGetFreeSizeDmaRead
    simp only [hsample]
    exact ⟨hinv, hinv.feeds.moved⟩
  | idle =>
    cases hs
    exact ⟨⟨h.address, h.capacity, h.wp, hinv.feeds, hinv.safe⟩, hinv.feeds.moved⟩

/-- The buffer is empty after its initialisation. -/
theorem writeInv_start (hb : BufferOk a n) (w : World) :
    WriteInv a n (rdStart w a n).accepted (rdStart w a n).rb (rdStart w a n).w := by
  have hfits := hb.fits
  have hpos := hb.pos
  have hend : u32 (a + n) = a + n := u32_of_lt (by omega)
  have hconf : Feeds a n [] (audioConfigDma w a n) := by
    refine ⟨rfl, hend, ?_, ?_, List.nil_prefix, fun k hk => absurd hk (Nat.not_lt_zero k), ?_⟩
    · show a = a + 0 % n
      rw [Nat.zero_mod, Nat.add_zero]
    · show a = a + 0 % n
      rw [Nat.zero_mod, Nat.add_zero]
    · show 0 < 0 + n
      omega
  obtain ⟨hf, -⟩ := hconf.tick (show 0 < n by omega)
  have haccept := hf.accept (pending_nil a n [] _) (by
    rw [List.length_nil]
    omega)
  have hzero : a + (([] : List Byte).length + ([] : List Byte).length) % n = u32 (a + 0) := by
    rw [List.length_nil, Nat.zero_add, Nat.zero_mod, u32_of_lt (by omega)]
  rw [hzero] at haccept
  refine ⟨rfl, rfl, ?_, haccept, ?_⟩
  · show 0 = 0 % n
    rw [Nat.zero_mod]
  · show 0 + 4 ≤ _ + n
    omega

end TuyaSdk.DmaRing
