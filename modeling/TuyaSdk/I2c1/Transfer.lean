import TuyaSdk.I2c1.Defs

/-!
# A transfer byte by byte

A transfer is at one of a few stages, each with its address flag, its registers and the part of
the bus sequence that has passed. A byte that is acknowledged, or received, takes it to the next
stage or ends it; a byte that is not acknowledged ends it with the error set, but for the slave
address of the repeated start.
-/

namespace TuyaSdk.I2c1
open TuyaSdk.Lib

variable {c : Call} {s : State}

/-! ## The sequence of a call -/

/-- Slave address and write. -/
def Call.slaveW (c : Call) : Byte := (c.salveId &&& 0x7f) <<< 1

/-- Slave address and read. -/
def Call.slaveR (c : Call) : Byte := c.salveId <<< 1 ||| 0x01

/-- The register address, high byte first. -/
def Call.addrBytes (c : Call) : List Byte :=
  if c.addrWidth = ADDR_WIDTH_16 then [(c.opAddr >>> 8).setWidth 8, c.opAddr.setWidth 8]
  else [c.opAddr.setWidth 8]

/-- Bytes sent and acknowledged. -/
def sentItems (bs : List Byte) : List BusItem := bs.map (.sent · true)

/-- Bytes received, and acknowledged but for the last. -/
def receivedItems (bs : List Byte) : List BusItem :=
  bs.dropLast.map (.received · true) ++ bs.getLast?.toList.map (.received · false)

/-- The start, the slave address and the register address. -/
def Call.head (c : Call) : List BusItem := .start :: sentItems (c.slaveW :: c.addrBytes)

/-- The repeated start of a read. -/
def Call.again (c : Call) : List BusItem := c.head ++ [.start, .sent c.slaveR true]

/-- What the bus carries for a call of the data. -/
def Call.trace (c : Call) (data : List Byte) : List BusItem :=
  if c.txMode = true then c.head ++ sentItems data ++ [.stop]
  else c.again ++ receivedItems data ++ [.stop]

theorem Call.trace_write (h : c.txMode = true) (data : List Byte) :
    c.trace data = c.head ++ sentItems data ++ [.stop] := if_pos h

theorem Call.trace_read (h : c.txMode = false) (data : List Byte) :
    c.trace data = c.again ++ receivedItems data ++ [.stop] :=
  if_neg (by rw [h]; exact Bool.false_ne_true)

/-- The buffer of a call. -/
def Call.data (c : Call) (m : Mem) : List Byte := readBytes m c.userBuf c.count

/-- A part of a sequence, or a part that ends at a byte that is not acknowledged. -/
def Partial (t log : List BusItem) : Prop :=
  log <+: t ∨ ∃ before b, before ++ [.sent b true] <+: t ∧ log = before ++ [.sent b false, .stop]

theorem receivedItems_concat (bs : List Byte) (b : Byte) :
    receivedItems (bs ++ [b]) = bs.map (.received · true) ++ [.received b false] := by
  simp [receivedItems]

theorem prefix_receivedItems (bs : List Byte) {cs : List Byte} (h : cs ≠ []) :
    bs.map (.received · true) <+: receivedItems (bs ++ cs) := by
  obtain ⟨ds, d, rfl⟩ := (List.eq_nil_or_concat cs).resolve_left h
  rw [List.concat_eq_append, ← List.append_assoc, receivedItems_concat, List.map_append,
    List.append_assoc]
  exact List.prefix_append _ _

/-! ## Stages -/

/-- Which byte is on the bus: the slave address, the high byte of the register address, the low
byte in a read, the byte before the data byte `k` in a write, the slave address of the repeated
start, or the data byte `k` of a read. -/
inductive Stage where
  | slave
  | high
  | low
  | write (k : Nat)
  | again
  | read (k : Nat)

/-- The data bytes that the interrupt routine has moved. -/
def Stage.moved : Stage → Nat
  | .write k => k
  | .read k => k
  | _ => 0

/-- The controller starts before the byte. -/
def Stage.starts : Stage → Bool
  | .slave => true
  | .again => true
  | _ => false

/-- The controller sends the byte. -/
def Stage.sends : Stage → Bool
  | .read _ => false
  | _ => true

/-- The address flag. -/
def Stage.Flag : Stage → BitVec 8 → Prop
  | .slave, f => f = 0
  | .high, f => f = 0x08
  | .low, f => f = 0x0A
  | .write _, f => f = 0x13 ∨ f = 0x18
  | .again, f => f = 0x1B
  | .read _, f => f = 0x1B

/-- What has passed on the bus, and the byte in the data register. -/
def Stage.Passed (c : Call) (m : Mem) (dat : Byte) (log : List BusItem) : Stage → Prop
  | .slave => log = [] ∧ dat = c.slaveW
  | .high => c.addrWidth = ADDR_WIDTH_16 ∧ log = [.start, .sent c.slaveW true] ∧
      dat = (c.opAddr >>> 8).setWidth 8
  | .low => c.txMode = false ∧ dat = c.opAddr.setWidth 8 ∧ log ++ [.sent dat true] = c.head
  | .write k => c.txMode = true ∧
      log ++ [.sent dat true] = c.head ++ sentItems (readBytes m c.userBuf k)
  | .again => c.txMode = false ∧ log = c.head ∧ dat = c.slaveR
  | .read k => c.txMode = false ∧ k < c.count ∧
      log = c.again ++ (readBytes m c.userBuf k).map (.received · true)

/-- The transfer of a call is on the bus, at a stage. -/
structure Going (c : Call) (s : State) (st : Stage) : Prop where
  busy : s.busy = true
  transDone : s.dev.msg.transDone = false
  regAddr : s.dev.msg.regAddr = c.opAddr
  salveId : s.dev.msg.salveId = c.salveId
  addrWidth : s.dev.msg.addrWidth = c.addrWidth
  txMode : s.dev.msg.txMode = c.txMode
  remainNum : s.dev.msg.remainNum = c.count - st.moved
  pData : s.dev.msg.pData = c.userBuf + st.moved
  moved_le : st.moved ≤ c.count
  flag : st.Flag s.dev.msg.addrFlag
  sta : s.dev.config.sta = st.starts
  sends : s.dev.config.txMode = st.sends
  passed : st.Passed c s.dev.mem s.dev.dat s.log

/-- The transfer of a call has ended. -/
structure Over (c : Call) (s : State) : Prop where
  busy : s.busy = false
  carried : Partial (c.trace (c.data s.dev.mem)) s.log
  complete : s.dev.msg.errorNo = 0 → s.log = c.trace (c.data s.dev.mem)

/-- The width is one of the two, the slave address has seven bits, and the count fits the message
block. -/
structure Call.Ok (c : Call) : Prop where
  pos : 0 < c.count
  fits : c.count < 2 ^ 16
  salveId : c.salveId < 0x80
  width : c.addrWidth = ADDR_WIDTH_8 ∨ c.addrWidth = ADDR_WIDTH_16

/-- With a byte that is sent, and acknowledged, the bus still carries a part of the sequence. -/
theorem Going.sending {st : Stage} (h : Going c s st) (hsend : st.sends = true) :
    (if st.starts = true then s.log ++ [.start] else s.log) ++ [.sent s.dev.dat true] <+:
      c.trace (c.data s.dev.mem) := by
  have hpassed := h.passed
  have hhead : c.head <+: c.trace (c.data s.dev.mem) := by
    unfold Call.trace Call.again
    split_ifs
    · rw [List.append_assoc]
      exact List.prefix_append _ _
    · rw [List.append_assoc, List.append_assoc]
      exact List.prefix_append _ _
  cases st with
  | slave =>
    obtain ⟨hlog, hdat⟩ := hpassed
    rw [hlog, hdat]
    refine List.IsPrefix.trans ?_ hhead
    exact ⟨sentItems c.addrBytes, rfl⟩
  | high =>
    obtain ⟨hwidth, hlog, hdat⟩ := hpassed
    rw [hlog, hdat]
    refine List.IsPrefix.trans ?_ hhead
    unfold Call.head Call.addrBytes
    rw [if_pos hwidth]
    exact ⟨[.sent (c.opAddr.setWidth 8) true], rfl⟩
  | low =>
    obtain ⟨-, -, hlog⟩ := hpassed
    show s.log ++ _ <+: _
    rw [hlog]
    exact hhead
  | write k =>
    obtain ⟨htx, hlog⟩ := hpassed
    have hk : k + (c.count - k) = c.count := Nat.add_sub_cancel' h.moved_le
    show s.log ++ _ <+: _
    rw [hlog]
    unfold Call.data
    rw [Call.trace_write htx, ← hk, readBytes_add]
    unfold sentItems
    rw [List.map_append, ← List.append_assoc, List.append_assoc]
    exact List.prefix_append _ _
  | again =>
    obtain ⟨htx, hlog, hdat⟩ := hpassed
    show s.log ++ [.start] ++ _ <+: _
    rw [hlog, hdat, Call.trace_read htx, List.append_assoc, List.append_assoc]
    exact List.prefix_append _ _
  | read k => cases hsend

/-! ## A byte -/

/-- What the interrupt routine does to the memory: it touches bytes of the buffer only, and
changes them only in a read. -/
def Inside (c : Call) (d d' : Dev) : Prop :=
  ∃ new, d'.touched = d.touched ++ new ∧
    (∀ x ∈ new, c.userBuf ≤ x ∧ x < c.userBuf + c.count) ∧
    ∀ x, d'.mem x ≠ d.mem x → x ∈ new ∧ c.txMode = false

theorem Inside.of_same {d d' : Dev} (ht : d'.touched = d.touched) (hm : d'.mem = d.mem) :
    Inside c d d' := by
  refine ⟨[], by rw [ht, List.append_nil], fun x hx => absurd hx List.not_mem_nil, ?_⟩
  intro x hx
  rw [hm] at hx
  exact absurd rfl hx

/-- After a byte the transfer goes on, or has ended; an error that was set stays. -/
structure After (c : Call) (s s' : State) : Prop where
  goes : (∃ st, Going c s' st) ∨ Over c s' ∧ s'.dev.msg.transDone = true
  errorNo : s.dev.msg.errorNo ≠ 0 → s'.dev.msg.errorNo ≠ 0
  inside : Inside c s.dev s'.dev
  task : s'.task = s.task

variable {st : Stage}

/-- A byte that is not acknowledged. -/
theorem Going.nack (h : Going c s st) (hsend : st.sends = true) (hagain : st ≠ .again)
    (b : Byte) : After c s (s.byte false b) := by
  have hsends : s.dev.config.txMode = true := h.sends.trans hsend
  have hflag : c.txMode = false → s.dev.msg.addrFlag &&& 16#8 = 0#8 := by
    intro hread
    have hf := h.flag
    cases st with
    | slave => rw [show s.dev.msg.addrFlag = 0 from hf]; rfl
    | high => rw [show s.dev.msg.addrFlag = 0x08 from hf]; rfl
    | low => rw [show s.dev.msg.addrFlag = 0x0A from hf]; rfl
    | write k => exact absurd (hread.symm.trans h.passed.1) Bool.false_ne_true
    | again => exact absurd rfl hagain
    | read k => cases hsend
  have hbyte : s.byte false b =
      { s with
        dev := { s.dev with
          msg := { s.dev.msg with transDone := true, errorNo := 1 }
          config := { s.dev.config with sta := false, sto := true, si := false, ackRx := false } }
        busy := false
        log := (if st.starts = true then s.log ++ [.start] else s.log) ++
          [.sent s.dev.dat false] ++ [.stop] } := by
    unfold State.byte i2c1Isr isrWrite isrRead
    cases htx : c.txMode with
    | true => simp [h.txMode, htx, hsends, h.sta, Dev.stop, Dev.done, Dev.fail]
    | false => simp [h.txMode, htx, hsends, h.sta, hflag htx, Dev.stop, Dev.done, Dev.fail]
  rw [hbyte]
  refine ⟨Or.inr ⟨⟨rfl, Or.inr ⟨_, s.dev.dat, h.sending hsend, ?_⟩, ?_⟩, rfl⟩, ?_,
    Inside.of_same rfl rfl, rfl⟩
  · rw [List.append_assoc]
    rfl
  · intro h0
    cases h0
  · intro _ h0
    cases h0

/-- The device behind an interrupt that gives the next byte. -/
def Dev.served (d : Dev) (f : BitVec 8) (dat : Byte) : Dev :=
  { d with
    msg := { d.msg with addrFlag := f }
    config := { d.config with sta := false, sto := false, si := false, ackRx := true }
    dat := dat }

/-- The next byte of the register address. -/
theorem Going.address (h : Going c s st) (st' : Stage) (f : BitVec 8) (dat : Byte)
    (log : List BusItem) (hsends : st.sends = true) (hzero : st.moved = 0) (hmoved : st'.moved = 0)
    (hflag : st'.Flag f) (hsta : st'.starts = false) (hsends' : st'.sends = true)
    (hpassed : st'.Passed c s.dev.mem dat log) {b : Byte}
    (hbyte : s.byte true b = { s with dev := s.dev.served f dat, log := log }) :
    After c s (s.byte true b) := by
  have hremain := h.remainNum
  have hdata := h.pData
  rw [hzero] at hremain hdata
  rw [hbyte]
  refine ⟨Or.inl ⟨st', h.busy, h.transDone, h.regAddr, h.salveId, h.addrWidth, h.txMode,
    ?_, ?_, ?_, hflag, hsta.symm, ?_, hpassed⟩, id, Inside.of_same rfl rfl, rfl⟩
  · rw [hmoved]
    exact hremain
  · rw [hmoved]
    exact hdata
  · rw [hmoved]
    exact Nat.zero_le _
  · rw [hsends']
    exact h.sends.trans hsends

/-- The slave address is acknowledged. -/
theorem Going.slave_ack (hok : c.Ok) (h : Going c s .slave) (b : Byte) :
    After c s (s.byte true b) := by
  obtain ⟨hlog, hdat⟩ := h.passed
  have hflag : s.dev.msg.addrFlag = 0#8 := h.flag
  have hsta : s.dev.config.sta = true := h.sta
  have hsends : s.dev.config.txMode = true := h.sends
  rcases hok.width with hw | hw
  · have hlow : [.start, .sent s.dev.dat true] ++ [.sent (c.opAddr.setWidth 8) true] = c.head := by
      simp [Call.head, Call.addrBytes, hw, ADDR_WIDTH_8, ADDR_WIDTH_16, sentItems, hdat]
    cases htx : c.txMode with
    | true =>
      refine h.address (.write 0) 0x13 (c.opAddr.setWidth 8)
        [.start, .sent s.dev.dat true] rfl rfl rfl (Or.inl rfl) rfl rfl ⟨htx, ?_⟩ ?_
      · exact hlow.trans (List.append_nil _).symm
      · unfold State.byte i2c1Isr isrWrite
        simp [h.txMode, htx, hsends, hsta, hflag, h.addrWidth, hw, hlog, Dev.sendAddr, Msg.low,
          h.regAddr, Dev.served]
    | false =>
      refine h.address .low 0x0A (c.opAddr.setWidth 8)
        [.start, .sent s.dev.dat true] rfl rfl rfl rfl rfl rfl ⟨htx, rfl, hlow⟩ ?_
      unfold State.byte i2c1Isr isrRead
      simp [h.txMode, htx, hsends, hsta, hflag, h.addrWidth, hw, hlog, Dev.sendAddr, Msg.low,
        h.regAddr, Dev.served]
  · refine h.address .high 0x08 ((c.opAddr >>> 8).setWidth 8)
      [.start, .sent s.dev.dat true] rfl rfl rfl rfl rfl rfl ⟨hw, by rw [hdat], rfl⟩ ?_
    unfold State.byte i2c1Isr isrWrite isrRead
    cases htx : c.txMode with
    | true =>
      simp [h.txMode, htx, hsends, hsta, hflag, h.addrWidth, hw, hlog, Dev.sendAddr, Msg.high,
        h.regAddr, Dev.served]
    | false =>
      simp [h.txMode, htx, hsends, hsta, hflag, h.addrWidth, hw, hlog, Dev.sendAddr, Msg.high,
        h.regAddr, Dev.served]

/-- The high byte of the register address is acknowledged. -/
theorem Going.high_ack (h : Going c s .high) (b : Byte) : After c s (s.byte true b) := by
  obtain ⟨hw, hlog, hdat⟩ := h.passed
  have hflag : s.dev.msg.addrFlag = 8#8 := h.flag
  have hsta : s.dev.config.sta = false := h.sta
  have hsends : s.dev.config.txMode = true := h.sends
  have hlow : s.log ++ [.sent s.dev.dat true] ++ [.sent (c.opAddr.setWidth 8) true] = c.head := by
    simp [Call.head, Call.addrBytes, hw, sentItems, hdat, hlog]
  cases htx : c.txMode with
  | true =>
    refine h.address (.write 0) 0x18 (c.opAddr.setWidth 8)
      (s.log ++ [.sent s.dev.dat true]) rfl rfl rfl (Or.inr rfl) rfl rfl ⟨htx, ?_⟩ ?_
    · exact hlow.trans (List.append_nil _).symm
    · unfold State.byte i2c1Isr isrWrite
      simp [h.txMode, htx, hsends, hsta, hflag, Dev.sendAddr, Msg.low, h.regAddr, Dev.served]
  | false =>
    refine h.address .low 0x0A (c.opAddr.setWidth 8)
      (s.log ++ [.sent s.dev.dat true]) rfl rfl rfl rfl rfl rfl ⟨htx, rfl, hlow⟩ ?_
    unfold State.byte i2c1Isr isrRead
    simp [h.txMode, htx, hsends, hsta, hflag, Dev.sendAddr, Msg.low, h.regAddr, Dev.served]

/-- The register address of a read is acknowledged: the bus is started again. -/
theorem Going.low_ack (h : Going c s .low) (b : Byte) : After c s (s.byte true b) := by
  obtain ⟨htx, hdat, hlog⟩ := h.passed
  have hflag : s.dev.msg.addrFlag = 10#8 := h.flag
  have hsta : s.dev.config.sta = false := h.sta
  have hsends : s.dev.config.txMode = true := h.sends
  have hbyte : s.byte true b =
      { s with
        dev := { s.dev with
          msg := { s.dev.msg with addrFlag := 0x1B }
          config := { s.dev.config with sta := true, sto := false, si := false, ackRx := true }
          dat := c.slaveR }
        log := c.head } := by
    unfold State.byte i2c1Isr isrRead
    simp [h.txMode, htx, hsends, hsta, hflag, Dev.sendAddr, h.salveId, Call.slaveR, hlog]
  rw [hbyte]
  exact ⟨Or.inl ⟨.again, h.busy, h.transDone, h.regAddr, h.salveId, h.addrWidth, h.txMode,
    h.remainNum, h.pData, Nat.zero_le _, rfl, rfl, hsends, htx, rfl, rfl⟩, id,
    Inside.of_same rfl rfl, rfl⟩

/-- The slave address of the repeated start is acknowledged: the controller receives. -/
theorem Going.again_ack (hok : c.Ok) (h : Going c s .again) (b : Byte) :
    After c s (s.byte true b) := by
  obtain ⟨htx, hlog, hdat⟩ := h.passed
  have hflag : s.dev.msg.addrFlag = 27#8 := h.flag
  have hsta : s.dev.config.sta = true := h.sta
  have hsends : s.dev.config.txMode = true := h.sends
  have hbyte : s.byte true b =
      { s with
        dev := { s.dev with
          config := { s.dev.config with
            sta := false, sto := false, ackTx := true, txMode := false, si := false,
            ackRx := true } }
        log := s.log ++ [.start, .sent s.dev.dat true] } := by
    unfold State.byte i2c1Isr isrRead
    simp [h.txMode, htx, hsends, hsta, hflag, Dev.answer]
  rw [hbyte]
  refine ⟨Or.inl ⟨.read 0, h.busy, h.transDone, h.regAddr, h.salveId, h.addrWidth, h.txMode,
    h.remainNum, h.pData, Nat.zero_le _, h.flag, rfl, rfl, htx, hok.pos, ?_⟩, id,
    Inside.of_same rfl rfl, rfl⟩
  rw [hlog, hdat]
  exact (List.append_nil _).symm

theorem dec16_of_pos {n : Nat} (hpos : 0 < n) (hlt : n < 2 ^ 16) : dec16 n = n - 1 := by
  unfold dec16
  omega

/-- A byte of a write is acknowledged, or the last of its register address. -/
theorem Going.write_ack (hok : c.Ok) {k : Nat} (h : Going c s (.write k)) (b : Byte) :
    After c s (s.byte true b) := by
  obtain ⟨htx, hlog⟩ := h.passed
  have hflag : s.dev.msg.addrFlag &&& 16#8 ≠ 0#8 := by
    rcases h.flag with hf | hf
    · rw [hf]
      decide
    · rw [hf]
      decide
  have hsta : s.dev.config.sta = false := h.sta
  have hsends : s.dev.config.txMode = true := h.sends
  have hremain : s.dev.msg.remainNum = c.count - k := h.remainNum
  have hdata : s.dev.msg.pData = c.userBuf + k := h.pData
  have hfits := hok.fits
  rcases Nat.lt_or_eq_of_le (show k ≤ c.count from h.moved_le) with hlt | rfl
  · have hne : c.count - k ≠ 0 := by omega
    have hbyte : s.byte true b =
        { s with
          dev := { s.dev with
            msg := { s.dev.msg with pData := c.userBuf + k + 1, remainNum := c.count - (k + 1) }
            config := { s.dev.config with sta := false, sto := false, si := false, ackRx := true }
            dat := s.dev.mem (c.userBuf + k)
            touched := s.dev.touched ++ [c.userBuf + k] }
          log := s.log ++ [.sent s.dev.dat true] } := by
      unfold State.byte i2c1Isr isrWrite
      simp [h.txMode, htx, hsends, hsta, hflag, hremain, hne, hdata,
        dec16_of_pos (show 0 < c.count - k by omega) (by omega), Nat.sub_sub]
    rw [hbyte]
    refine ⟨Or.inl ⟨.write (k + 1), h.busy, h.transDone, h.regAddr, h.salveId, h.addrWidth,
      h.txMode, rfl, Nat.add_assoc _ _ _, hlt, h.flag, rfl, hsends, htx, ?_⟩, id,
      ⟨[c.userBuf + k], rfl, ?_, fun x hx => absurd rfl hx⟩, rfl⟩
    · show s.log ++ _ ++ _ = _ ++ sentItems (readBytes s.dev.mem c.userBuf (k + 1))
      rw [hlog, readBytes_concat]
      unfold sentItems
      rw [List.map_append, ← List.append_assoc]
      rfl
    · intro x hx
      rw [List.mem_singleton.mp hx]
      omega
  · have hbyte : s.byte true b =
        { s with
          dev := { s.dev with
            msg := { s.dev.msg with transDone := true }
            config := { s.dev.config with sta := false, sto := true, si := false, ackRx := true } }
          busy := false
          log := s.log ++ [.sent s.dev.dat true] ++ [.stop] } := by
      unfold State.byte i2c1Isr isrWrite
      simp [h.txMode, htx, hsends, hsta, hflag, hremain, Dev.stop, Dev.done]
    have htrace : s.log ++ [.sent s.dev.dat true] ++ [.stop] = c.trace (c.data s.dev.mem) := by
      rw [Call.trace_write htx, hlog]
      rfl
    rw [hbyte]
    exact ⟨Or.inr ⟨⟨rfl, Or.inl (htrace ▸ List.prefix_refl _), fun _ => htrace⟩, rfl⟩, id,
      Inside.of_same rfl rfl, rfl⟩

/-- A byte of a read. -/
theorem Going.receive (hok : c.Ok) {k : Nat} (h : Going c s (.read k)) (ack : Bool) (b : Byte) :
    After c s (s.byte ack b) := by
  obtain ⟨htx, hk, hlog⟩ := h.passed
  have hflag : s.dev.msg.addrFlag = 27#8 := h.flag
  have hsta : s.dev.config.sta = false := h.sta
  have hsends : s.dev.config.txMode = false := h.sends
  have hremain : s.dev.msg.remainNum = c.count - k := h.remainNum
  have hdata : s.dev.msg.pData = c.userBuf + k := h.pData
  have hfits := hok.fits
  have hdec : dec16 (c.count - k) = c.count - (k + 1) := by
    rw [dec16_of_pos (by omega) (by omega), Nat.sub_sub]
  have hinside : ∀ d' : Dev, d'.touched = s.dev.touched ++ [c.userBuf + k] →
      d'.mem = write8 s.dev.mem (c.userBuf + k) b → Inside c s.dev d' := by
    intro d' ht hm
    refine ⟨[c.userBuf + k], ht, ?_, ?_⟩
    · intro x hx
      rw [List.mem_singleton.mp hx]
      omega
    · intro x hx
      rw [hm] at hx
      by_contra hno
      exact hx (write8_apply fun heq => hno ⟨List.mem_singleton.mpr heq, htx⟩)
  have hbefore : readBytes (write8 s.dev.mem (c.userBuf + k) b) c.userBuf k =
      readBytes s.dev.mem c.userBuf k :=
    readBytes_congr fun x hx => write8_apply (Nat.ne_of_lt hx.2)
  have hbytes : readBytes (write8 s.dev.mem (c.userBuf + k) b) c.userBuf (k + 1) =
      readBytes s.dev.mem c.userBuf k ++ [b] := by
    rw [readBytes_concat, hbefore, write8_same]
  rcases Nat.lt_or_eq_of_le (show k + 1 ≤ c.count from hk) with hlt | hlast
  · have hne : c.count - (k + 1) ≠ 0 := by omega
    have hbyte : s.byte ack b =
        { s with
          dev := { s.dev with
            msg := { s.dev.msg with pData := c.userBuf + k + 1, remainNum := c.count - (k + 1) }
            config := { s.dev.config with
              sta := false, sto := false, ackTx := true, txMode := false, si := false,
              ackRx := ack }
            dat := b
            mem := write8 s.dev.mem (c.userBuf + k) b
            touched := s.dev.touched ++ [c.userBuf + k] }
          log := s.log ++ [.received b true] } := by
      unfold State.byte i2c1Isr isrRead
      simp [h.txMode, htx, hsends, hsta, hflag, hremain, hne, hdata, hdec, Dev.take, Dev.answer]
    rw [hbyte]
    refine ⟨Or.inl ⟨.read (k + 1), h.busy, h.transDone, h.regAddr, h.salveId, h.addrWidth,
      h.txMode, rfl, Nat.add_assoc _ _ _, hk, h.flag, rfl, rfl, htx, hlt, ?_⟩, id,
      hinside _ rfl rfl, rfl⟩
    show s.log ++ _ = _ ++ List.map _ (readBytes (write8 s.dev.mem (c.userBuf + k) b) _ _)
    rw [hbytes, hlog, List.map_append, ← List.append_assoc]
    rfl
  · have hzero : c.count - (k + 1) = 0 := by omega
    have hbyte : s.byte ack b =
        { s with
          dev := { s.dev with
            msg := { s.dev.msg with
              pData := c.userBuf + k + 1, remainNum := c.count - (k + 1), transDone := true }
            config := { s.dev.config with
              sta := false, sto := true, ackTx := false, txMode := false, si := false,
              ackRx := ack }
            dat := b
            mem := write8 s.dev.mem (c.userBuf + k) b
            touched := s.dev.touched ++ [c.userBuf + k] }
          busy := false
          log := s.log ++ [.received b false] ++ [.stop] } := by
      unfold State.byte i2c1Isr isrRead
      simp [h.txMode, htx, hsends, hsta, hflag, hremain, hzero, hdata, hdec, Dev.take, Dev.answer,
        Dev.stop, Dev.done]
    have htrace : s.log ++ [.received b false] ++ [.stop] =
        c.trace (c.data (write8 s.dev.mem (c.userBuf + k) b)) := by
      unfold Call.data
      rw [Call.trace_read htx, ← hlast, hbytes, receivedItems_concat, hlog]
      simp only [List.append_assoc]
    rw [hbyte]
    exact ⟨Or.inr ⟨⟨rfl, Or.inl (htrace ▸ List.prefix_refl _), fun _ => htrace⟩, rfl⟩, id,
      hinside _ rfl rfl, rfl⟩

/-- A byte on the bus takes the transfer on, unless it is the slave address of the repeated start
and not acknowledged. -/
theorem Going.byte (hok : c.Ok) (h : Going c s st) (ack : Bool) (b : Byte)
    (hagain : st = .again → ack = true) : After c s (s.byte ack b) := by
  cases hst : st.sends with
  | false =>
    cases st with
    | read k => exact h.receive hok ack b
    | _ => cases hst
  | true =>
    cases ack with
    | false => exact h.nack hst (fun heq => Bool.false_ne_true (hagain heq)) b
    | true =>
      cases st with
      | slave => exact h.slave_ack hok b
      | high => exact h.high_ack b
      | low => exact h.low_ack b
      | write k => exact h.write_ack hok b
      | again => exact h.again_ack hok b
      | read k => cases hst

end TuyaSdk.I2c1
