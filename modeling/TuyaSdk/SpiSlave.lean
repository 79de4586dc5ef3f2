import TuyaSdk.Lib.Bytes
import TuyaSdk.Lib.Checked
import TuyaSdk.Lib.Machine
import TuyaSdk.Lib.Ring

/-!
# The receive FIFO of the SPI slave (`spi_slave_bk7231n.c`)

The receive interrupt puts every byte into a ring of 512 cells. When the ring is full it moves the
reader's index over the oldest byte and sets `is_full`, which the next read clears. `Stream` says
what the FIFO is for: the bytes received so far, and how many of them the reader has come past.

`none` is an access outside `buffer`.
-/

namespace TuyaSdk.SpiSlave
open TuyaSdk.Lib

abbrev spiSlaveRxFifoLen : Nat := 512

/-- `struct spi_rx_fifo` -/
structure SpiRxFifo where
  buffer : Vector Byte spiSlaveRxFifoLen
  putIndex : Nat
  getIndex : Nat
  isFull : Bool

/-- The FIFO that `bk_spi_slave_init` sets up. -/
def SpiRxFifo.init : SpiRxFifo := ⟨Vector.replicate _ 0, 0, 0, false⟩

/-- `bk_spi_slave_get_rx_fifo` -/
def bkSpiSlaveGetRxFifo (f : SpiRxFifo) : Nat :=
  if f.getIndex ≤ f.putIndex then f.putIndex - f.getIndex
  else spiSlaveRxFifoLen - (f.getIndex - f.putIndex)

/-- The step of an index, a `UINT16`. -/
def nextIndex (index : Nat) : Nat :=
  let index := (index + 1) % 2 ^ 16
  if spiSlaveRxFifoLen ≤ index then 0 else index

/-- The loop body of `bk_spi_slave_spi_rx_callback` for one byte. -/
def spiRxByte (f : SpiRxFifo) (ch : Byte) : Option SpiRxFifo := do
  let buffer ← Checked.write f.buffer f.putIndex ch
  let putIndex := nextIndex f.putIndex
  if putIndex = f.getIndex then
    return ⟨buffer, putIndex, nextIndex f.getIndex, true⟩
  else
    return ⟨buffer, putIndex, f.getIndex, f.isFull⟩

/-- `bk_spi_slave_spi_rx_callback`; `rx` are the bytes that `spi_read_rxfifo` gives it. -/
def bkSpiSlaveSpiRxCallback (f : SpiRxFifo) : List Byte → Option SpiRxFifo
  | [] => some f
  | ch :: rx => do
    let f ← spiRxByte f ch
    bkSpiSlaveSpiRxCallback f rx

/-- The loop of `bk_spi_slave_get_rx_data` with `size` to go: the bytes stored through `rx_buf`, and
`size` at the end. -/
def getRxLoop : Nat → SpiRxFifo → Option ((List Byte × Nat) × SpiRxFifo)
  | 0, f => some (([], 0), f)
  | size + 1, f =>
    if f.getIndex = f.putIndex ∧ f.isFull = false then some (([], size + 1), f)
    else do
      let ch ← Checked.read f.buffer f.getIndex
      let isFull := if f.isFull = true then false else f.isFull
      let ((out, left), f) ← getRxLoop size { f with getIndex := nextIndex f.getIndex, isFull := isFull }
      return ((ch :: out, left), f)

/-- `bk_spi_slave_get_rx_data`: what it stores and returns; `rxBufNull` says that there is no
buffer. -/
def bkSpiSlaveGetRxData (f : SpiRxFifo) (rxBufNull : Bool) (len : Nat) :
    Option ((List Byte × Nat) × SpiRxFifo) :=
  if rxBufNull then some (([], 0), f)
  else do
    let ((out, left), f) ← getRxLoop len f
    return ((out, len - left), f)

/-- An interrupt, or a call of the reader. -/
inductive Call
  | rxCallback (rx : List Byte)
  | getRxData (rxBufNull : Bool) (len : Nat)
  | getRxFifo

/-- What a call stores and returns. -/
inductive Reply
  | none
  | data (bytes : List Byte) (ret : Nat)
  | held (n : Nat)
  deriving DecidableEq

/-- One call. -/
def rxFifo : Machine SpiRxFifo Call Reply := fun f call =>
  match call with
  | .rxCallback rx => (bkSpiSlaveSpiRxCallback f rx).map fun f => (f, .none)
  | .getRxData rxBufNull len =>
    (bkSpiSlaveGetRxData f rxBufNull len).map fun r => (r.2, .data r.1.1 r.1.2)
  | .getRxFifo => some (f, .held (bkSpiSlaveGetRxFifo f))

/-! ## The stream -/

/-- The bytes received so far, of which the reader has come past the first `taken`. -/
structure Stream where
  received : List Byte
  taken : Nat

/-- The most recent `k` elements. -/
def newest (k : Nat) (l : List Byte) : List Byte := l.drop (l.length - k)

/-- The bytes that were received and not read since. -/
def Stream.unread (s : Stream) : List Byte := s.received.drop s.taken

/-- The most recent of them, as far as the FIFO holds them. -/
def Stream.held (s : Stream) : List Byte := newest (spiSlaveRxFifoLen - 1) s.unread

/-- Reading the oldest `len` bytes that are held; what was lost before these is passed over. -/
def Stream.read (s : Stream) (len : Nat) : Stream :=
  if s.held.take len = [] then s
  else { s with taken := s.received.length - (s.held.drop len).length }

/-- What a call does to the stream. -/
def stream (s : Stream) : Call → Stream × Reply
  | .rxCallback rx => ({ s with received := s.received ++ rx }, .none)
  | .getRxData true _ => (s, .data [] 0)
  | .getRxData false len => (s.read len, .data (s.held.take len) (min s.held.length len))
  | .getRxFifo => (s, .held s.held.length)

/-- The cells of the ring. -/
def SpiRxFifo.cells (f : SpiRxFifo) (i : Nat) : Byte := f.buffer[i]?.getD 0

/-- The FIFO holds the bytes `q`, and is not marked as full when it is empty. -/
structure Holds (f : SpiRxFifo) (q : List Byte) : Prop where
  ring : Ring.Holds spiSlaveRxFifoLen f.cells f.getIndex f.putIndex q
  full : f.isFull = true → q ≠ []

/-! ## Bytes -/

theorem nextIndex_eq {i : Nat} (h : i < spiSlaveRxFifoLen) :
    nextIndex i = slot spiSlaveRxFifoLen i 1 := by
  have hi : i < 512 := h
  simp only [nextIndex, slot, Nat.mod_eq_of_lt (show i + 1 < 2 ^ 16 by omega)]
  split_ifs <;> omega

theorem newest_append_newest (k : Nat) (l xs : List Byte) :
    newest k (newest k l ++ xs) = newest k (l ++ xs) := by
  have hle : l.length - k ≤ l.length := Nat.sub_le _ _
  rw [newest, newest, newest, ← List.drop_append_of_le_length hle, List.drop_drop]
  congr 1
  simp only [List.length_drop, List.length_append]
  omega

theorem newest_of_le {k : Nat} {l : List Byte} (h : l.length ≤ k) : newest k l = l := by
  rw [newest, Nat.sub_eq_zero_of_le h, List.drop_zero]

/-- The writer comes up to the reader when one cell is free. -/
theorem next_eq_get_iff {f : SpiRxFifo} {q : List Byte} (h : Holds f q) :
    nextIndex f.putIndex = f.getIndex ↔ q.length = spiSlaveRxFifoLen - 1 := by
  have hout : f.getIndex < 512 := h.ring.out_lt
  have hlen : q.length < 512 := h.ring.length_lt
  rw [nextIndex_eq h.ring.inn_lt, h.ring.slot_inn (show q.length + 1 ≤ 512 from hlen)]
  change slot 512 f.getIndex (q.length + 1) = f.getIndex ↔ q.length = 511
  unfold slot
  split_ifs <;> omega

/-- A byte stored at the writer's index is behind the ones held. -/
theorem holds_store {f : SpiRxFifo} {out : Nat} {q : List Byte} (ch : Byte)
    (h : Ring.Holds spiSlaveRxFifoLen f.cells out f.putIndex q)
    (hroom : q.length + 1 < spiSlaveRxFifoLen) {getIndex : Nat} {isFull : Bool} :
    Ring.Holds spiSlaveRxFifoLen
      (SpiRxFifo.mk (f.buffer.set f.putIndex ch h.inn_lt) (nextIndex f.putIndex) getIndex isFull).cells
      out (nextIndex f.putIndex) (q ++ [ch]) := by
  rw [nextIndex_eq h.inn_lt]
  refine h.append rfl hroom (fun j hj => ?_) fun x hx => ?_
  · obtain rfl : j = 0 := Nat.lt_one_iff.mp hj
    rw [slot_zero h.inn_lt]
    simp [SpiRxFifo.cells]
  · have hne := hx 0 Nat.one_pos
    rw [slot_zero h.inn_lt] at hne
    simp only [SpiRxFifo.cells, Vector.getElem?_set_ne h.inn_lt hne.symm]

/-- A byte is put behind the ones held, of which the oldest gives way. -/
theorem spiRxByte_holds {f : SpiRxFifo} {q : List Byte} (h : Holds f q) (ch : Byte) :
    ∃ f', spiRxByte f ch = some f' ∧ Holds f' (newest (spiSlaveRxFifoLen - 1) (q ++ [ch])) := by
  have hlen : q.length < 512 := h.ring.length_lt
  rw [spiRxByte, Checked.write_eq h.ring.inn_lt]
  simp only [Option.bind_eq_bind, Option.bind_some, next_eq_get_iff h]
  by_cases hfull : q.length = spiSlaveRxFifoLen - 1
  · -- the oldest byte is dropped first
    have hone : 1 ≤ q.length := by
      rw [hfull]
      decide
    have hnew : newest (spiSlaveRxFifoLen - 1) (q ++ [ch]) = q.drop 1 ++ [ch] := by
      rw [newest, List.length_append, hfull, List.length_singleton, Nat.add_sub_cancel_left,
        List.drop_append_of_le_length hone]
    have hroom : (q.drop 1).length + 1 < spiSlaveRxFifoLen := by
      rw [List.length_drop]
      change q.length - 1 + 1 < 512
      omega
    rw [if_pos hfull, hnew, nextIndex_eq h.ring.out_lt]
    exact ⟨_, rfl, holds_store ch (h.ring.drop hone) hroom, fun _ => by simp⟩
  · have hroom : q.length + 1 < spiSlaveRxFifoLen := by
      change q.length + 1 < 512
      change ¬q.length = 511 at hfull
      omega
    have hnew : newest (spiSlaveRxFifoLen - 1) (q ++ [ch]) = q ++ [ch] :=
      newest_of_le (by simpa using Nat.le_pred_of_lt hroom)
    rw [if_neg hfull, hnew]
    exact ⟨_, rfl, holds_store ch h.ring hroom, fun _ => by simp⟩

theorem bkSpiSlaveSpiRxCallback_holds {f : SpiRxFifo} {q : List Byte} (h : Holds f q)
    (rx : List Byte) : ∃ f', bkSpiSlaveSpiRxCallback f rx = some f' ∧
      Holds f' (newest (spiSlaveRxFifoLen - 1) (q ++ rx)) := by
  induction rx generalizing f q with
  | nil =>
    have hle : q.length ≤ spiSlaveRxFifoLen - 1 := Nat.le_pred_of_lt h.ring.length_lt
    rw [List.append_nil, newest_of_le hle]
    exact ⟨f, rfl, h⟩
  | cons ch rx ih =>
    obtain ⟨f₁, h₁, hq₁⟩ := spiRxByte_holds h ch
    obtain ⟨f₂, h₂, hq₂⟩ := ih hq₁
    rw [newest_append_newest, List.append_assoc] at hq₂
    refine ⟨f₂, ?_, hq₂⟩
    rw [bkSpiSlaveSpiRxCallback, h₁]
    exact h₂

/-! ## Reads -/

theorem empty_iff {f : SpiRxFifo} {q : List Byte} (h : Holds f q) :
    f.getIndex = f.putIndex ∧ f.isFull = false ↔ q = [] := by
  constructor
  · rintro ⟨heq, -⟩
    have hdist := h.ring.length_eq
    rw [heq, distance, if_pos (le_refl _), Nat.sub_self] at hdist
    exact List.length_eq_zero_iff.mp hdist
  · rintro rfl
    refine ⟨?_, ?_⟩
    · rw [h.ring.inn_eq, List.length_nil, slot_zero h.ring.out_lt]
    · rw [← Bool.not_eq_true]
      exact fun hfull => h.full hfull rfl

/-- The loop stores the oldest bytes held, until there are none. -/
theorem getRxLoop_holds {f : SpiRxFifo} {q : List Byte} (h : Holds f q) (size : Nat) :
    ∃ f', getRxLoop size f = some ((q.take size, size - q.length), f') ∧ Holds f' (q.drop size) := by
  induction size generalizing f q with
  | zero => exact ⟨f, by rw [getRxLoop, List.take_zero, Nat.zero_sub], h⟩
  | succ size ih =>
    rw [getRxLoop]
    cases q with
    | nil =>
      rw [if_pos ((empty_iff h).mpr rfl)]
      exact ⟨f, rfl, h⟩
    | cons b q =>
      have hread : Checked.read f.buffer f.getIndex = some b := by
        have hcell := h.ring.cell 0 (Nat.succ_pos _)
        rw [slot_zero h.ring.out_lt, SpiRxFifo.cells, Vector.getElem?_eq_getElem h.ring.out_lt] at hcell
        rw [Checked.read_eq h.ring.out_lt]
        exact congrArg some hcell
      have hdrop : Holds ⟨f.buffer, f.putIndex, nextIndex f.getIndex, false⟩ q := by
        refine ⟨?_, fun hfull => by cases hfull⟩
        have hring := h.ring.drop (k := 1) (by simp)
        rw [nextIndex_eq h.ring.out_lt]
        exact hring
      have hflag : (if f.isFull = true then false else f.isFull) = false := by
        cases f.isFull <;> rfl
      obtain ⟨f', hf', hq'⟩ := ih hdrop
      refine ⟨f', ?_, hq'⟩
      have hne := mt (empty_iff h).mp (List.cons_ne_nil b q)
      simp only [if_neg hne, hread, hflag, Option.bind_eq_bind, Option.bind_some, hf',
        List.take_succ_cons, List.length_cons, Nat.add_sub_add_right]
      rfl

theorem bkSpiSlaveGetRxFifo_eq {f : SpiRxFifo} {q : List Byte} (h : Holds f q) :
    bkSpiSlaveGetRxFifo f = q.length := h.ring.length_eq.symm

/-! ## The FIFO and the stream -/

/-- The FIFO holds what the stream says. -/
structure Follows (f : SpiRxFifo) (s : Stream) : Prop where
  holds : Holds f s.held
  taken : s.taken ≤ s.received.length

theorem Stream.held_append {s : Stream} (h : s.taken ≤ s.received.length) (rx : List Byte) :
    Stream.held { s with received := s.received ++ rx } =
      newest (spiSlaveRxFifoLen - 1) (s.held ++ rx) := by
  rw [held, held, newest_append_newest, unread, unread, List.drop_append_of_le_length h]

theorem newest_length_le (k : Nat) (l : List Byte) : (newest k l).length ≤ k := by
  rw [newest, List.length_drop]
  omega

/-- A suffix of a list is its end of that length. -/
theorem drop_of_suffix {l xs : List Byte} (h : xs <:+ l) : l.drop (l.length - xs.length) = xs := by
  obtain ⟨ys, rfl⟩ := h
  rw [List.length_append, Nat.add_sub_cancel, List.drop_left]

theorem Stream.held_suffix (s : Stream) : s.held <:+ s.received :=
  (List.drop_suffix _ _).trans (List.drop_suffix _ _)

theorem Stream.held_length_le (s : Stream) : s.held.length ≤ spiSlaveRxFifoLen - 1 := by
  rw [held]
  exact newest_length_le _ _

/-- A read takes the oldest bytes held, and the others are held. -/
theorem Stream.held_read {s : Stream} (h : s.taken ≤ s.received.length) (len : Nat) :
    (s.read len).held = s.held.drop len ∧ (s.read len).taken ≤ (s.read len).received.length := by
  rw [read]
  by_cases hnone : s.held.take len = []
  · rw [if_pos hnone]
    refine ⟨?_, h⟩
    rcases List.take_eq_nil_iff.mp hnone with rfl | hheld
    · rw [List.drop_zero]
    · rw [hheld, List.drop_nil]
  · rw [if_neg hnone]
    have hsuffix := (List.drop_suffix len s.held).trans s.held_suffix
    have hle : (s.held.drop len).length ≤ spiSlaveRxFifoLen - 1 := by
      rw [List.length_drop]
      exact Nat.le_trans (Nat.sub_le s.held.length len) s.held_length_le
    refine ⟨?_, Nat.sub_le _ _⟩
    rw [held, unread, drop_of_suffix hsuffix, newest_of_le hle]

/-- Every call returns what the stream says. -/
theorem rxFifo_step {f : SpiRxFifo} {s : Stream} (h : Follows f s) (call : Call) :
    ∃ f', rxFifo f call = some (f', (stream s call).2) ∧ Follows f' (stream s call).1 := by
  cases call with
  | rxCallback rx =>
    obtain ⟨f', hf', hq⟩ := bkSpiSlaveSpiRxCallback_holds h.holds rx
    refine ⟨f', ?_, ?_, ?_⟩
    · rw [rxFifo, hf']
      rfl
    · rwa [← Stream.held_append h.taken] at hq
    · exact h.taken.trans (by simp [stream])
  | getRxData rxBufNull len =>
    cases rxBufNull with
    | true => exact ⟨f, rfl, h⟩
    | false =>
      obtain ⟨f', hf', hq⟩ := getRxLoop_holds h.holds len
      obtain ⟨hheld, htaken⟩ := Stream.held_read h.taken len
      refine ⟨f', ?_, ⟨hheld ▸ hq, htaken⟩⟩
      have hret : len - (len - s.held.length) = min s.held.length len := by omega
      simp only [rxFifo, bkSpiSlaveGetRxData, hf', stream, Option.bind_eq_bind, Option.bind_some,
        Bool.false_eq_true, if_false, ← hret]
      rfl
  | getRxFifo =>
    refine ⟨f, ?_, h⟩
    rw [rxFifo, bkSpiSlaveGetRxFifo_eq h.holds]
    rfl

/-- In every run of interrupts and calls the replies are those of the stream; at the end the FIFO
holds the most recent unread bytes, and its indices are inside of the ring. -/
theorem rxFifo_follows (calls : List Call) :
    ∃ f s replies, Machine.run rxFifo .init calls = some (f, replies) ∧
      Machine.run (fun s call => some (stream s call)) ⟨[], 0⟩ calls = some (s, replies) ∧
      Holds f s.held ∧ bkSpiSlaveGetRxFifo f = s.held.length ∧
      f.putIndex < spiSlaveRxFifoLen ∧ f.getIndex < spiSlaveRxFifoLen := by
  have hinit : Follows .init ⟨[], 0⟩ :=
    ⟨⟨Ring.Holds.nil _ (by decide), fun hfull => by cases hfull⟩, le_refl 0⟩
  obtain ⟨f, s, replies, hf, hs, h⟩ := Machine.run_simulates (R := Follows)
    (fun _ _ call h _ => rxFifo_step h call) hinit (Machine.legal_true SpiRxFifo.init calls)
  exact ⟨f, s, replies, hf, hs, h.holds, bkSpiSlaveGetRxFifo_eq h.holds, h.holds.ring.inn_lt,
    h.holds.ring.out_lt⟩

end TuyaSdk.SpiSlave
