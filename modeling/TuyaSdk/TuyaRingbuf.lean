import TuyaSdk.Lib.Bytes
import TuyaSdk.Lib.Machine
import TuyaSdk.Lib.Ring

/-!
# The ring buffer (`tuya_ringbuf.c`)

A buffer of `len` bytes is a FIFO of at most `len - 1` bytes. The functions compute with
16-bit lengths and positions; here each subtraction, addition and copy is checked, and
`none` stands for an arithmetic that wraps or an access outside `buff[0..len)`. That a call
returns therefore says that neither happens. `Fifo` is the queue that the buffer stands for.
-/

namespace TuyaSdk.TuyaRingbuf

open Lib

/-- The results of the functions that return an `OPERATE_RET`. -/
inductive OperateRet where
  | ok
  | invalidParm
  | mallocFailed
  | notSupported
  deriving DecidableEq, Repr

/-- `RINGBUFF_TYPE_E` -/
inductive RingbuffType where
  | overflowStop
  | overflowCoverage
  deriving DecidableEq, Repr

/-- `__RINGBUFF_T`; `inPos` and `outPos` are its fields `in` and `out`. -/
structure RingBuff where
  type : RingbuffType
  inPos : Nat
  outPos : Nat
  len : Nat
  buff : Mem

/-! ## Checked arithmetic and accesses -/

/-- `a - b` as a `UINT16_T`. -/
def sub16 (a b : Nat) : Option Nat := if b ≤ a then some (a - b) else none

/-- `a + b` as a `UINT16_T`. -/
def add16 (a b : Nat) : Option Nat := if a + b < 2 ^ 16 then some (a + b) else none

/-- `memcpy(&buff[pos], &pdata[s], n)` -/
def RingBuff.copyIn (rbuff : RingBuff) (pos : Nat) (pdata : Mem) (s n : Nat) : Option RingBuff :=
  if pos + n ≤ rbuff.len then some { rbuff with buff := copyTo rbuff.buff pos pdata s n } else none

/-- `memcpy(&pdata[d], &buff[pos], n)` -/
def RingBuff.copyOut (rbuff : RingBuff) (pdata : Mem) (d pos n : Nat) : Option Mem :=
  if pos + n ≤ rbuff.len then some (copyTo pdata d rbuff.buff pos n) else none

theorem sub16_of_le {a b : Nat} (h : b ≤ a) : sub16 a b = some (a - b) := if_pos h

theorem add16_of_lt {a b : Nat} (h : a + b < 2 ^ 16) : add16 a b = some (a + b) := if_pos h

theorem RingBuff.copyIn_of_le {rbuff : RingBuff} {pos s n : Nat} {pdata : Mem}
    (h : pos + n ≤ rbuff.len) : rbuff.copyIn pos pdata s n =
      some { rbuff with buff := copyTo rbuff.buff pos pdata s n } := if_pos h

theorem RingBuff.copyOut_of_le {rbuff : RingBuff} {d pos n : Nat} {pdata : Mem}
    (h : pos + n ≤ rbuff.len) : rbuff.copyOut pdata d pos n =
      some (copyTo pdata d rbuff.buff pos n) := if_pos h

/-! ## The functions -/

/-- `__ringbuff_init` -/
def ringbuffInit (rbuff : RingBuff) (len : Nat) : RingBuff :=
  { rbuff with inPos := 0, outPos := 0, len := len }

/-- `tuya_ring_buff_create`, storing to `*ringbuff` unless `ringbuff` is `NULL`; `malloc` is
the fresh object, or `none` when there is no memory. -/
def tuyaRingBuffCreate (len : Nat) (type : RingbuffType) (ringbuffNull : Bool)
    (malloc : Option RingBuff) : OperateRet × Option RingBuff :=
  if type = .overflowCoverage then (.notSupported, none)
  else if ringbuffNull || len = 0 then (.invalidParm, none)
  else
    match malloc with
    | none => (.mallocFailed, none)
    | some rbuff => (.ok, some (ringbuffInit { rbuff with type := type } len))

/-- `tuya_ring_buff_reset` -/
def tuyaRingBuffReset (rbuff : RingBuff) : RingBuff := ringbuffInit rbuff rbuff.len

/-- `tuya_ring_buff_free_size_get` -/
def tuyaRingBuffFreeSizeGet (rbuff : RingBuff) : Option Nat := do
  let size ← (
    if rbuff.inPos = rbuff.outPos then some rbuff.len
    else if rbuff.inPos < rbuff.outPos then sub16 rbuff.outPos rbuff.inPos
    else do sub16 rbuff.len (← sub16 rbuff.inPos rbuff.outPos))
  sub16 size 1

/-- `tuya_ring_buff_used_size_get` -/
def tuyaRingBuffUsedSizeGet (rbuff : RingBuff) : Option Nat :=
  if rbuff.inPos = rbuff.outPos then some 0
  else if rbuff.outPos < rbuff.inPos then sub16 rbuff.inPos rbuff.outPos
  else do sub16 rbuff.len (← sub16 rbuff.outPos rbuff.inPos)

/-- `tuya_ring_buff_write`; `data` is `none` for `NULL`, else the memory it points to. -/
def tuyaRingBuffWrite (rbuff : RingBuff) (data : Option Mem) (len : Nat) :
    Option (RingBuff × Nat) :=
  match data with
  | none => some (rbuff, 0)
  | some pdata =>
    if len = 0 then some (rbuff, 0)
    else do
      let freeLen ← tuyaRingBuffFreeSizeGet rbuff
      let len := min freeLen len
      if len = 0 then some (rbuff, 0)
      else do
        -- write data to remaining buff
        let tmpLen := min (← sub16 rbuff.len rbuff.inPos) len
        let rbuff ← rbuff.copyIn rbuff.inPos pdata 0 tmpLen
        let inPos ← add16 rbuff.inPos tmpLen
        let len ← sub16 len tmpLen
        -- write remaining data to beginning of buffer
        let rbuff ← (if 0 < len then rbuff.copyIn 0 pdata tmpLen len else some rbuff)
        let inPos := if 0 < len then len else inPos
        -- buff loopback check
        let inPos := if rbuff.len ≤ inPos then 0 else inPos
        let ret ← add16 tmpLen len
        some ({ rbuff with inPos := inPos }, ret)

/-- The two copies of `tuya_ring_buff_read` and `tuya_ring_buff_peek` to `pdata`. -/
def readData (rbuff : RingBuff) (pdata : Mem) (tmpLen len : Nat) : Option Mem := do
  let pdata ← rbuff.copyOut pdata 0 rbuff.outPos tmpLen
  if 0 < len then rbuff.copyOut pdata tmpLen 0 len else some pdata

/-- `tuya_ring_buff_read`: the number returned and what `data` points to afterwards. -/
def tuyaRingBuffRead (rbuff : RingBuff) (data : Option Mem) (len : Nat) :
    Option (RingBuff × Nat × Option Mem) :=
  match data with
  | none => some (rbuff, 0, none)
  | some pdata =>
    if len = 0 then some (rbuff, 0, some pdata)
    else do
      let usedLen ← tuyaRingBuffUsedSizeGet rbuff
      let len := min usedLen len
      if len = 0 then some (rbuff, 0, some pdata)
      else do
        let tmpLen := min (← sub16 rbuff.len rbuff.outPos) len
        let rest ← sub16 len tmpLen
        let pdata ← readData rbuff pdata tmpLen rest
        let outPos ← add16 rbuff.outPos tmpLen
        let outPos := if 0 < rest then rest else outPos
        -- check end of buffer
        let outPos := if rbuff.len ≤ outPos then 0 else outPos
        let ret ← add16 tmpLen rest
        some ({ rbuff with outPos := outPos }, ret, some pdata)

/-- `tuya_ring_buff_peek` -/
def tuyaRingBuffPeek (rbuff : RingBuff) (data : Option Mem) (len : Nat) :
    Option (Nat × Option Mem) :=
  match data with
  | none => some (0, none)
  | some pdata =>
    if len = 0 then some (0, some pdata)
    else do
      let usedLen ← tuyaRingBuffUsedSizeGet rbuff
      let len := min len usedLen
      if len = 0 then some (0, some pdata)
      else do
        let tmpLen := min (← sub16 rbuff.len rbuff.outPos) len
        let rest ← sub16 len tmpLen
        let pdata ← readData rbuff pdata tmpLen rest
        let ret ← add16 tmpLen rest
        some (ret, some pdata)

/-! ## The FIFO -/

/-- A call on a ring buffer, with its arguments. -/
inductive Call where
  | write (data : Option Mem) (len : UInt16)
  | read (data : Option Mem) (len : UInt16)
  | peek (data : Option Mem) (len : UInt16)
  | reset
  | freeSizeGet
  | usedSizeGet

/-- What a call returns: `stored` also gives the memory behind `data` after it. -/
inductive Reply where
  | status (ret : OperateRet)
  | size (ret : Nat)
  | stored (ret : Nat) (data : Option Mem)

/-- One call on a ring buffer. -/
def step (rbuff : RingBuff) : Call → Option (RingBuff × Reply)
  | .write data len => (tuyaRingBuffWrite rbuff data len.toNat).map fun r => (r.1, .size r.2)
  | .read data len =>
    (tuyaRingBuffRead rbuff data len.toNat).map fun r => (r.1, .stored r.2.1 r.2.2)
  | .peek data len =>
    (tuyaRingBuffPeek rbuff data len.toNat).map fun r => (rbuff, .stored r.1 r.2)
  | .reset => some (tuyaRingBuffReset rbuff, .status .ok)
  | .freeSizeGet => (tuyaRingBuffFreeSizeGet rbuff).map fun n => (rbuff, .size n)
  | .usedSizeGet => (tuyaRingBuffUsedSizeGet rbuff).map fun n => (rbuff, .size n)

/-- One call on a FIFO of at most `cap` bytes. -/
def fifoStep (cap : Nat) (q : List Byte) : Call → List Byte × Reply
  | .write none _ => (q, .size 0)
  | .write (some pdata) len =>
    (q ++ readBytes pdata 0 (min (cap - q.length) len.toNat),
      .size (min (cap - q.length) len.toNat))
  | .read none _ => (q, .stored 0 none)
  | .read (some pdata) len =>
    (q.drop (min q.length len.toNat), .stored (min q.length len.toNat)
      (some (storeBytes pdata (q.take (min q.length len.toNat)))))
  | .peek none _ => (q, .stored 0 none)
  | .peek (some pdata) len =>
    (q, .stored (min q.length len.toNat)
      (some (storeBytes pdata (q.take (min q.length len.toNat)))))
  | .reset => ([], .status .ok)
  | .freeSizeGet => (q, .size (cap - q.length))
  | .usedSizeGet => (q, .size q.length)

/-- The ring buffer stands for the queue `q`. -/
structure Represents (rbuff : RingBuff) (q : List Byte) : Prop where
  len_lt : rbuff.len < 2 ^ 16
  holds : Ring.Holds rbuff.len rbuff.buff rbuff.outPos rbuff.inPos q

namespace Represents

variable {rbuff : RingBuff} {q : List Byte}

theorem inPos_lt (h : Represents rbuff q) : rbuff.inPos < rbuff.len := h.holds.inn_lt

theorem outPos_lt (h : Represents rbuff q) : rbuff.outPos < rbuff.len := h.holds.out_lt

theorem length_lt (h : Represents rbuff q) : q.length < rbuff.len := h.holds.length_lt

theorem usedSizeGet (h : Represents rbuff q) : tuyaRingBuffUsedSizeGet rbuff = some q.length := by
  have hin := h.inPos_lt
  have hout := h.outPos_lt
  rw [h.holds.length_eq]
  unfold tuyaRingBuffUsedSizeGet distance
  split
  · next heq => rw [if_pos heq.ge, heq, Nat.sub_self]
  · split
    · next hlt => rw [sub16_of_le hlt.le, if_pos hlt.le]
    · next hne hge =>
      rw [sub16_of_le (by omega), if_neg (by omega)]
      exact sub16_of_le (by omega)

theorem freeSizeGet (h : Represents rbuff q) :
    tuyaRingBuffFreeSizeGet rbuff = some (rbuff.len - 1 - q.length) := by
  have hin := h.inPos_lt
  have hout := h.outPos_lt
  have hlen := h.length_lt
  have hd := h.holds.length_eq
  have hsize : (if rbuff.inPos = rbuff.outPos then some rbuff.len
      else if rbuff.inPos < rbuff.outPos then sub16 rbuff.outPos rbuff.inPos
      else do sub16 rbuff.len (← sub16 rbuff.inPos rbuff.outPos)) =
        some (rbuff.len - q.length) := by
    unfold distance at hd
    split
    · next heq =>
      rw [if_pos heq.ge, heq, Nat.sub_self] at hd
      rw [hd, Nat.sub_zero]
    · split
      · next hlt =>
        rw [if_neg (by omega)] at hd
        rw [sub16_of_le hlt.le]
        congr 1
        omega
      · next hne hge =>
        rw [if_pos (by omega)] at hd
        rw [sub16_of_le (by omega), hd]
        exact sub16_of_le (by omega)
  unfold tuyaRingBuffFreeSizeGet
  simp only [hsize]
  refine (sub16_of_le (by omega)).trans ?_
  rw [Nat.sub_right_comm]

/-- `tuya_ring_buff_write` stores the bytes that fit behind `in`, in two copies. -/
theorem write_eq (h : Represents rbuff q) (pdata : Mem) {n k : Nat}
    (hk : min (rbuff.len - 1 - q.length) n = k) (hpos : 0 < k) :
    tuyaRingBuffWrite rbuff (some pdata) n = some ({ rbuff with
      inPos := slot rbuff.len rbuff.inPos k
      buff := copyTo (copyTo rbuff.buff rbuff.inPos pdata 0 (min (rbuff.len - rbuff.inPos) k)) 0
        pdata (min (rbuff.len - rbuff.inPos) k) (k - min (rbuff.len - rbuff.inPos) k) }, k) := by
  have hin := h.inPos_lt
  have hlen := h.len_lt
  have hklt : k < rbuff.len := by omega
  have hn : n ≠ 0 := by omega
  have hk0 : k ≠ 0 := by omega
  generalize htmp : min (rbuff.len - rbuff.inPos) k = tmp
  have htk : tmp ≤ k := htmp ▸ Nat.min_le_right _ _
  have htl : tmp ≤ rbuff.len - rbuff.inPos := htmp ▸ Nat.min_le_left _ _
  have hend := slot_eq_transfer hin hklt
  rw [htmp] at hend
  have hfirst : rbuff.copyIn rbuff.inPos pdata 0 tmp = _ := RingBuff.copyIn_of_le (by omega)
  have hadd : add16 rbuff.inPos tmp = some (rbuff.inPos + tmp) := add16_of_lt (by omega)
  have hret : add16 tmp (k - tmp) = some k := by
    rw [add16_of_lt (by omega), Nat.add_sub_cancel' htk]
  simp only [tuyaRingBuffWrite, h.freeSizeGet, if_neg hn, Option.bind_eq_bind, Option.bind_some, hk,
    if_neg hk0, sub16_of_le hin.le, htmp, sub16_of_le htk, hfirst, hadd, hret]
  by_cases hrest : 0 < k - tmp
  · have hsecond : RingBuff.copyIn { rbuff with buff := copyTo rbuff.buff rbuff.inPos pdata 0 tmp }
        0 pdata tmp (k - tmp) = _ := RingBuff.copyIn_of_le (by simp only [Nat.zero_add]; omega)
    simp only [if_pos hrest] at hend ⊢
    simp only [hsecond, Option.bind_some, hend]
  · have hzero : k - tmp = 0 := by omega
    simp only [if_neg hrest, Option.bind_some] at hend ⊢
    rw [hzero, copyTo_zero]
    simp only [hend]

/-- Writing nothing: no byte asked for, or none free. -/
theorem write_zero (h : Represents rbuff q) (pdata : Mem) {n : Nat}
    (hk : min (rbuff.len - 1 - q.length) n = 0) :
    tuyaRingBuffWrite rbuff (some pdata) n = some (rbuff, 0) := by
  unfold tuyaRingBuffWrite
  split
  · contradiction
  · next pdata' heq =>
    by_cases hn : n = 0
    · rw [if_pos hn]
    · simp only [if_neg hn, h.freeSizeGet, Option.bind_eq_bind, Option.bind_some, hk, if_true]

theorem write (h : Represents rbuff q) (pdata : Mem) {n k : Nat}
    (hk : min (rbuff.len - 1 - q.length) n = k) :
    ∃ rbuff', tuyaRingBuffWrite rbuff (some pdata) n = some (rbuff', k) ∧
      rbuff'.len = rbuff.len ∧ Represents rbuff' (q ++ readBytes pdata 0 k) := by
  rcases Nat.eq_zero_or_pos k with rfl | hpos
  · refine ⟨rbuff, h.write_zero pdata hk, rfl, ?_⟩
    rw [show readBytes pdata 0 0 = [] from rfl, List.append_nil]
    exact h
  · refine ⟨_, h.write_eq pdata hk hpos, rfl, h.len_lt, ?_⟩
    have hlt := h.length_lt
    apply h.holds.append (length_readBytes pdata 0 k) (by omega)
    · intro j hj
      rw [length_readBytes] at hj
      rw [getElem_readBytes, Nat.zero_add]
      exact copyTo_in h.inPos_lt (by omega) hj
    · intro x hx
      exact copyTo_in_apply h.inPos_lt hx

/-- The two copies of a read or peek give the oldest bytes in order. -/
theorem readData_eq (h : Represents rbuff q) (pdata : Mem) {k : Nat} (hk : k ≤ q.length) :
    readData rbuff pdata (min (rbuff.len - rbuff.outPos) k)
      (k - min (rbuff.len - rbuff.outPos) k) = some (storeBytes pdata (q.take k)) := by
  have hout := h.outPos_lt
  have hlen := h.length_lt
  have hall := @copyTo_out _ pdata rbuff.buff _ _ k h.outPos_lt
  have hstore : (fun x => if x < k then rbuff.buff (slot rbuff.len rbuff.outPos x) else pdata x) =
      storeBytes pdata (q.take k) := by
    funext x
    unfold storeBytes
    split
    · next hx =>
      have hlt : x < (q.take k).length := by
        rw [List.length_take]
        omega
      rw [h.holds.cell x (by omega), List.getD_eq_getElem _ _ hlt, List.getElem_take]
    · next hx =>
      rw [List.getD_eq_default]
      rw [List.length_take]
      omega
  rw [← hstore, ← hall]
  unfold readData
  generalize htmp : min (rbuff.len - rbuff.outPos) k = tmp
  have htl : tmp ≤ rbuff.len - rbuff.outPos := htmp ▸ Nat.min_le_left _ _
  rw [RingBuff.copyOut_of_le (by omega)]
  simp only [Option.bind_eq_bind, Option.bind_some]
  by_cases hrest : 0 < k - tmp
  · rw [if_pos hrest, RingBuff.copyOut_of_le (by omega)]
  · have hzero : k - tmp = 0 := by omega
    rw [if_neg hrest, hzero, copyTo_zero]

/-- The lengths of a read or peek of `k > 0` bytes. -/
theorem lengths (h : Represents rbuff q) {k : Nat} (hk : k ≤ q.length) :
    sub16 rbuff.len rbuff.outPos = some (rbuff.len - rbuff.outPos) ∧
      sub16 k (min (rbuff.len - rbuff.outPos) k) =
        some (k - min (rbuff.len - rbuff.outPos) k) ∧
      add16 rbuff.outPos (min (rbuff.len - rbuff.outPos) k) =
        some (rbuff.outPos + min (rbuff.len - rbuff.outPos) k) ∧
      add16 (min (rbuff.len - rbuff.outPos) k) (k - min (rbuff.len - rbuff.outPos) k) =
        some k := by
  have hout := h.outPos_lt
  have hlen := h.length_lt
  have hlt := h.len_lt
  refine ⟨sub16_of_le hout.le, sub16_of_le (Nat.min_le_right _ _), add16_of_lt (by omega), ?_⟩
  rw [add16_of_lt (by omega), Nat.add_sub_cancel' (Nat.min_le_right _ _)]

theorem peek (h : Represents rbuff q) (pdata : Mem) {n k : Nat} (hk : min q.length n = k) :
    tuyaRingBuffPeek rbuff (some pdata) n = some (k, some (storeBytes pdata (q.take k))) := by
  have hle : k ≤ q.length := hk ▸ Nat.min_le_left _ _
  obtain ⟨hlin, hrest, -, hret⟩ := h.lengths hle
  simp only [tuyaRingBuffPeek, h.usedSizeGet, Option.bind_eq_bind, Option.bind_some,
    Nat.min_comm n, hk, hlin, hrest, hret, h.readData_eq pdata hle]
  by_cases hn : n = 0
  · have hk0 : k = 0 := by omega
    rw [if_pos hn, hk0]
    rfl
  · rw [if_neg hn]
    by_cases hk0 : k = 0
    · rw [if_pos hk0, hk0]
      rfl
    · rw [if_neg hk0]

theorem read (h : Represents rbuff q) (pdata : Mem) {n k : Nat} (hk : min q.length n = k) :
    ∃ rbuff', tuyaRingBuffRead rbuff (some pdata) n =
        some (rbuff', k, some (storeBytes pdata (q.take k))) ∧
      rbuff'.len = rbuff.len ∧ Represents rbuff' (q.drop k) := by
  have hle : k ≤ q.length := hk ▸ Nat.min_le_left _ _
  have hlen := h.length_lt
  obtain ⟨hlin, hrest, hadd, hret⟩ := h.lengths hle
  have hend := slot_eq_transfer h.outPos_lt (Nat.lt_of_le_of_lt hle hlen)
  simp only [tuyaRingBuffRead, h.usedSizeGet, Option.bind_eq_bind, Option.bind_some, hk, hlin,
    hrest, hadd, hret, h.readData_eq pdata hle, ← hend]
  by_cases hn : n = 0
  · have hk0 : k = 0 := by omega
    rw [if_pos hn, hk0]
    exact ⟨rbuff, rfl, rfl, h⟩
  · rw [if_neg hn]
    by_cases hk0 : k = 0
    · rw [if_pos hk0, hk0]
      exact ⟨rbuff, rfl, rfl, h⟩
    · rw [if_neg hk0]
      exact ⟨_, rfl, rfl, h.len_lt, h.holds.drop hle⟩

/-- Each call on a ring buffer is the call on the FIFO it stands for. -/
theorem step (h : Represents rbuff q) (call : Call) :
    ∃ rbuff', TuyaRingbuf.step rbuff call = some (rbuff', (fifoStep (rbuff.len - 1) q call).2) ∧
      rbuff'.len = rbuff.len ∧ Represents rbuff' (fifoStep (rbuff.len - 1) q call).1 := by
  cases call with
  | write data len =>
    cases data with
    | none => exact ⟨rbuff, rfl, rfl, h⟩
    | some pdata =>
      obtain ⟨rbuff', hw, hlen, h'⟩ := h.write pdata (n := len.toNat) rfl
      exact ⟨rbuff', congrArg (Option.map _) hw, hlen, h'⟩
  | read data len =>
    cases data with
    | none => exact ⟨rbuff, rfl, rfl, h⟩
    | some pdata =>
      obtain ⟨rbuff', hr, hlen, h'⟩ := h.read pdata (n := len.toNat) rfl
      exact ⟨rbuff', congrArg (Option.map _) hr, hlen, h'⟩
  | peek data len =>
    cases data with
    | none => exact ⟨rbuff, rfl, rfl, h⟩
    | some pdata => exact ⟨rbuff, congrArg (Option.map _) (h.peek pdata rfl), rfl, h⟩
  | reset =>
    refine ⟨_, rfl, rfl, h.len_lt, ?_⟩
    exact Ring.Holds.nil _ (Nat.lt_of_le_of_lt (Nat.zero_le _) h.outPos_lt)
  | freeSizeGet => exact ⟨rbuff, congrArg (Option.map _) h.freeSizeGet, rfl, h⟩
  | usedSizeGet => exact ⟨rbuff, congrArg (Option.map _) h.usedSizeGet, rfl, h⟩

end Represents

/-- A fresh buffer of `len > 0` bytes stands for the empty queue. -/
theorem represents_create {len : UInt16} (hlen : 0 < len) (mem : RingBuff) :
    Represents (ringbuffInit mem len.toNat) [] where
  len_lt := len.toNat_lt
  holds := Ring.Holds.nil _ hlen

/-- After any calls on a fresh buffer of `len` bytes, every reply was that of the FIFO of
`len - 1` bytes, the positions are in the buffer, and used and free sizes add up. -/
theorem ringBuff_refines (len : UInt16) (hlen : 0 < len) (mem : RingBuff) (calls : List Call) :
    ∃ rbuff₀ rbuff q replies,
      tuyaRingBuffCreate len.toNat .overflowStop false (some mem) = (.ok, some rbuff₀) ∧
      Machine.run step rbuff₀ calls = some (rbuff, replies) ∧
      Machine.run (fun q call => some (fifoStep (len.toNat - 1) q call)) [] calls =
        some (q, replies) ∧
      rbuff.inPos < len.toNat ∧ rbuff.outPos < len.toNat ∧
      ∃ used free, tuyaRingBuffUsedSizeGet rbuff = some used ∧
        tuyaRingBuffFreeSizeGet rbuff = some free ∧ used = q.length ∧
        used + free = len.toNat - 1 := by
  have hcreate : tuyaRingBuffCreate len.toNat .overflowStop false (some mem) =
      (.ok, some (ringbuffInit { mem with type := .overflowStop } len.toNat)) := by
    have hne : len.toNat ≠ 0 := Nat.ne_of_gt hlen
    simp [tuyaRingBuffCreate, hne]
  have hstep : ∀ (r : RingBuff) (q : List Byte) (call : Call),
      (r.len = len.toNat ∧ Represents r q) → True →
      ∃ r', step r call = some (r', (fifoStep (len.toNat - 1) q call).2) ∧
        r'.len = len.toNat ∧ Represents r' (fifoStep (len.toNat - 1) q call).1 := by
    intro r q call hr _
    obtain ⟨r', hs, hl, h'⟩ := hr.2.step call
    rw [hr.1] at hs hl h'
    exact ⟨r', hs, hl, h'⟩
  obtain ⟨rbuff, q, replies, hrun, habs, hl, hR⟩ := Machine.run_simulates hstep
    ⟨rfl, represents_create hlen { mem with type := .overflowStop }⟩ (Machine.legal_true _ calls)
  have hin := hR.inPos_lt
  have hout := hR.outPos_lt
  have hlen := hR.length_lt
  refine ⟨_, rbuff, q, replies, hcreate, hrun, habs, hl ▸ hin, hl ▸ hout, _, _, hR.usedSizeGet,
    hR.freeSizeGet, rfl, ?_⟩
  rw [hl] at hlen ⊢
  omega

/-- A buffer of 4 bytes that wraps: 3 bytes in, 2 out, 2 in. -/
theorem ringBuff_refines_wrap : ∃ rbuff₀ rbuff q replies,
    tuyaRingBuffCreate (4 : UInt16).toNat .overflowStop false
      (some ⟨.overflowStop, 0, 0, 0, fun _ => 0⟩) = (.ok, some rbuff₀) ∧
    Machine.run step rbuff₀ [.write (some fun x => BitVec.ofNat 8 x) 9,
      .read (some fun _ => 0) 2, .write (some fun _ => 7) 2] = some (rbuff, replies) ∧
    Machine.run (fun q call => some (fifoStep ((4 : UInt16).toNat - 1) q call)) []
      [.write (some fun x => BitVec.ofNat 8 x) 9, .read (some fun _ => 0) 2,
        .write (some fun _ => 7) 2] = some (q, replies) ∧
    rbuff.inPos < (4 : UInt16).toNat ∧ rbuff.outPos < (4 : UInt16).toNat ∧
    ∃ used free, tuyaRingBuffUsedSizeGet rbuff = some used ∧
      tuyaRingBuffFreeSizeGet rbuff = some free ∧ used = q.length ∧
      used + free = (4 : UInt16).toNat - 1 :=
  ringBuff_refines 4 (by decide) _ _

end TuyaSdk.TuyaRingbuf
