import TuyaSdk.SpiMaster.Transfers

/-!
# The invariant of the transfers

While a call with one source runs, one direction is used. Its chunks tile what was moved so far,
and of its interrupts and the semaphore exactly one completion is under way between the enabling
and the wait.
-/

namespace TuyaSdk.SpiMaster

open TuyaSdk.Lib

/-! ## Lengths in registers -/

theorem intOf_of_le {n : UInt32} (h : n.toNat ≤ maxInt) : intOf n = n.toNat :=
  if_pos (Nat.lt_of_le_of_lt h (by decide))

/-- The length of the next chunk. -/
theorem chunkLen_toNat {len : Int} (h : 0 < len) :
    (chunkLen len).toNat = min len.toNat maxLenOnce := by
  unfold chunkLen maxLenOnce
  split
  · simp
    omega
  · have hlt : len.toNat < 2 ^ 32 := by omega
    rw [UInt32.toNat_ofNat_of_lt' hlt]
    omega

theorem gdmaLenField_add_one {len : UInt32} (hpos : 0 < len.toNat) (h : len.toNat ≤ 2 ^ 16) :
    gdmaLenField len + 1 = len := by
  have hsub : (len - 1).toNat = len.toNat - 1 := by
    rw [UInt32.toNat_sub_of_le]
    · rfl
    · exact UInt32.le_iff_toNat_le.mpr hpos
  apply UInt32.toNat.inj
  have hfield : (gdmaLenField len).toNat = len.toNat - 1 := by
    have hmask : (0xFFFF : UInt32).toNat = 2 ^ 16 - 1 := rfl
    rw [gdmaLenField, UInt32.toNat_and, hsub, hmask, Nat.and_two_pow_sub_one_eq_mod]
    omega
  rw [UInt32.toNat_add, hfield]
  have hone : (1 : UInt32).toNat = 1 := rfl
  omega

theorem transLenField_of_le {val : UInt32} (h : val.toNat ≤ maxLenOnce) :
    transLenField val = val := by
  apply UInt32.toNat.inj
  have hmask : (0xFFF : UInt32).toNat = 2 ^ 12 - 1 := rfl
  unfold maxLenOnce at h
  rw [transLenField, UInt32.toNat_and, hmask, Nat.and_two_pow_sub_one_eq_mod]
  omega

/-! ## The states of a direction -/

/-- The transfer is programmed and not enabled. -/
structure Engine.Ready (e : Engine) : Prop where
  programmed : e.programmed = true
  spiPending : e.spiPending = false
  dmaPending : e.dmaPending = false

/-- The transfer was enabled: one interrupt will come, or it came and gave the semaphore. -/
structure Engine.OneLeft (e : Engine) (sem : Bool) : Prop where
  programmed : e.programmed = false
  one : e.spiPending.toNat + e.dmaPending.toNat + sem.toNat = 1

theorem Engine.OneLeft.quiet {e : Engine} (h : e.OneLeft true) : e.Quiet := by
  have hone := h.one
  refine ⟨h.programmed, ?_, ?_⟩
  · cases hs : e.spiPending
    · rfl
    · simp [hs] at hone
  · cases hd : e.dmaPending
    · rfl
    · simp [hd] at hone

/-- After the interrupt the semaphore is there. -/
theorem Engine.OneLeft.spiFinish {e : Engine} {sem : Bool} (h : e.OneLeft sem)
    (hp : e.spiPending = true) : ({ e with spiPending := false } : Engine).OneLeft true := by
  have hone := h.one
  refine ⟨h.programmed, ?_⟩
  cases hd : e.dmaPending <;> cases hs : sem <;> simp [hp, hd, hs] at hone ⊢

theorem Engine.OneLeft.dmaFinish {e : Engine} {sem : Bool} (h : e.OneLeft sem)
    (hp : e.dmaPending = true) : ({ e with dmaPending := false } : Engine).OneLeft true := by
  have hone := h.one
  refine ⟨h.programmed, ?_⟩
  cases hd : e.spiPending <;> cases hs : sem <;> simp [hp, hd, hs] at hone ⊢

/-- One source is left when the length of the SPI transfer is 0 exactly if the DMA has a handler. -/
theorem Engine.oneLeft_enable {e : Engine} {handler : Bool}
    (hone : e.transLen = 0 ↔ handler = true) : (e.enable handler).OneLeft false := by
  refine ⟨rfl, ?_⟩
  by_cases hz : e.transLen = 0
  · have hh : handler = true := hone.mp hz
    simp [Engine.enable, hz, hh]
  · have hh : handler = false := by
      cases handler
      · rfl
      · exact absurd (hone.mpr rfl) hz
    simp [Engine.enable, hz, hh]

/-- A chunk that is programmed when the one before has finished, with the lengths it means. -/
theorem Chunk.ok_of_program {flag : Bool} {e : Engine} {addr len transLen : UInt32}
    (hq : e.Quiet) (hpos : 0 < len.toNat) (hlen : len.toNat ≤ 2 ^ 16)
    (ht : flag = true ∧ transLen = 0 ∨ transLen = len ∧ len.toNat ≤ maxLenOnce) :
    Chunk.Ok flag ⟨addr, len, transLenField transLen, gdmaLenField len + 1, decide e.Quiet⟩ := by
  refine ⟨decide_eq_true hq, gdmaLenField_add_one hpos hlen, ?_⟩
  rcases ht with ⟨hf, rfl⟩ | ⟨rfl, hle⟩
  · exact .inl ⟨hf, rfl⟩
  · exact .inr ⟨transLenField_of_le hle, hle⟩

/-! ## The invariant -/

/-- The function that runs, with its message, uses the one direction. -/
inductive Uses (s : State) (a : Active) : Side → Prop where
  | spci (kind : a.kind = .spci) (flag : s.spciFlag = true) (offset : a.offset = 0)
      (len : a.msg.sendLen = s.job.sendLen) (pos : 0 < a.len)
      (once : s.job.sendLen.toNat ≤ 2 ^ 16) : Uses s a .tx
  | send (kind : a.kind = .send) (flag : s.spciFlag = false) : Uses s a .tx
  | recv (kind : a.kind = .recv) : Uses s a .rx
  | xferTx (kind : a.kind = .xfer) (flag : s.spciFlag = false) (recvBuf : a.msg.recvBuf = 0)
      (recvLen : a.msg.recvLen = 0) (sendBuf : a.msg.sendBuf ≠ 0) : Uses s a .tx
  | xferRx (kind : a.kind = .xfer) (sendBuf : a.msg.sendBuf = 0) (sendLen : a.msg.sendLen = 0)
      (recvBuf : a.msg.recvBuf ≠ 0) : Uses s a .rx

/-- The call that runs moves `job` in the direction `d`, and is `a.offset` bytes on. -/
structure Runs (s : State) (a : Active) (d : Side) : Prop where
  ret : s.ret = none
  uses : Uses s a d
  buf : a.msg.buf d = s.job.buf d
  other : s.job.len d.other = 0 ∧ (s.engine d.other).chunks = [] ∧ (s.engine d.other).Quiet
  chunks : ∀ c ∈ (s.engine d).chunks, c.Ok s.spciFlag
  nonneg : 0 ≤ a.len
  left : a.offset + a.len.toNat = (s.job.len d).toNat
  long : a.offset = 0 ∨ a.len = 0 ∨ maxLenOnce < (s.job.len d).toNat

/-- Between two chunks. -/
structure AtLoop (s : State) (a : Active) (d : Side) : Prop extends Runs s a d where
  quiet : (s.engine d).Quiet
  noSem : s.finishSem = false
  tiles : Tiles (s.job.buf d) (s.engine d).chunks a.offset
  busy : a.offset = 0 → s.busyFlag = true

/-- A chunk was programmed. -/
structure InChunk (s : State) (a : Active) (d : Side) : Prop extends Runs s a d where
  pos : 0 < (a.msg.len d).toNat
  le : (a.msg.len d).toNat ≤ a.len.toNat
  tiles : Tiles (s.job.buf d) (s.engine d).chunks (a.offset + (a.msg.len d).toNat)
  last : (a.msg.len d).toNat = a.len.toNat ∨
    maxLenOnce < (s.job.len d).toNat ∧ a.kind ≠ .spci

/-- The chunk is not enabled yet. -/
structure AtEnable (s : State) (a : Active) (d : Side) : Prop extends InChunk s a d where
  ready : (s.engine d).Ready
  source : (s.engine d).transLen = 0 ↔ a.kind = .spci
  noSem : s.finishSem = false
  busy : a.offset = 0 → s.busyFlag = true

/-- The chunk is on its way, or has finished. -/
structure UnderWay (s : State) (a : Active) (d : Side) : Prop extends InChunk s a d where
  oneLeft : (s.engine d).OneLeft s.finishSem
  busy : s.finishSem = false → a.offset = 0 → s.busyFlag = true

/-- A full duplex call without lengths, or one without buffers. -/
structure Empty (s : State) (a : Active) : Prop where
  ret : s.ret = none
  kind : a.kind = .xfer
  len : a.len = 0
  engines : ∀ d, s.job.len d = 0 ∧ (s.engine d).chunks = [] ∧ (s.engine d).Quiet
  noSem : s.finishSem = false
  busy : s.busyFlag = true

/-- No call runs. -/
structure Rests (s : State) : Prop where
  ret : s.ret ≠ none
  transfers : s.TransfersOk

/-- The invariant, by where the task is. -/
def Inv (s : State) : Prop :=
  match s.pc with
  | .idle => Rests s
  | .loop a => Empty s a ∨ ∃ d, AtLoop s a d
  | .txEnable a => ∃ d, AtEnable s a d
  | .rxEnable a => UnderWay s a .tx ∨ AtEnable s a .rx
  | .wait a => ∃ d, UnderWay s a d

/-! ## What the invariant gives -/

theorem Runs.moved_other {s : State} {a : Active} {d : Side} (h : Runs s a d) :
    s.Moved d.other := by
  obtain ⟨hlen, hchunks, hquiet⟩ := h.other
  refine ⟨?_, hquiet⟩
  rw [hlen, hchunks]
  exact Tiles.nil _

/-- While a call runs, the chunks tile a part of the buffer. -/
theorem Runs.transfersOk {s : State} {a : Active} {d : Side} (h : Runs s a d) {n : Nat}
    (hn : n ≤ (s.job.len d).toNat) (ht : Tiles (s.job.buf d) (s.engine d).chunks n) :
    s.TransfersOk where
  tiles := d.both ⟨n, hn, ht⟩ ⟨_, Nat.le_refl _, h.moved_other.1⟩
  chunks := by
    refine d.both h.chunks fun c hc => ?_
    rw [h.other.2.1] at hc
    exact absurd hc List.not_mem_nil
  complete := fun hret => by
    rw [h.ret] at hret
    cases hret
  nothingLeft := fun hret => absurd h.ret hret

theorem AtLoop.transfersOk {s : State} {a : Active} {d : Side} (h : AtLoop s a d) :
    s.TransfersOk :=
  h.toRuns.transfersOk (by have := h.left; omega) h.tiles

theorem InChunk.transfersOk {s : State} {a : Active} {d : Side} (h : InChunk s a d) :
    s.TransfersOk :=
  h.toRuns.transfersOk (by have := h.left; have := h.le; omega) h.tiles

theorem Empty.moved {s : State} {a : Active} (h : Empty s a) (d : Side) : s.Moved d := by
  obtain ⟨hlen, hchunks, hquiet⟩ := h.engines d
  refine ⟨?_, hquiet⟩
  rw [hlen, hchunks]
  exact Tiles.nil _

theorem Empty.transfersOk {s : State} {a : Active} (h : Empty s a) : s.TransfersOk where
  tiles := fun d => ⟨_, Nat.le_refl _, (h.moved d).1⟩
  chunks := fun d c hc => by
    rw [(h.engines d).2.1] at hc
    exact absurd hc List.not_mem_nil
  complete := fun _ => h.moved
  nothingLeft := fun hret => absurd h.ret hret

theorem Inv.transfersOk {s : State} (h : Inv s) : s.TransfersOk := by
  unfold Inv at h
  cases hpc : s.pc with
  | idle =>
    rw [hpc] at h
    exact h.transfers
  | loop a =>
    rw [hpc] at h
    rcases h with h | ⟨d, h⟩
    · exact h.transfersOk
    · exact h.transfersOk
  | txEnable a =>
    rw [hpc] at h
    obtain ⟨d, h⟩ := h
    exact h.toInChunk.transfersOk
  | rxEnable a =>
    rw [hpc] at h
    rcases h with h | h
    · exact h.toInChunk.transfersOk
    · exact h.toInChunk.transfersOk
  | wait a =>
    rw [hpc] at h
    obtain ⟨d, h⟩ := h
    exact h.toInChunk.transfersOk

/-- The call that runs has no more than one chunk. -/
def Short (s : State) (a : Active) : Prop :=
  a.kind = .spci ∨ ∀ d, (s.job.len d).toNat ≤ maxLenOnce

theorem AtLoop.statusOk {s : State} {a : Active} {d : Side} (h : AtLoop s a d) (hs : Short s a) :
    s.StatusOk := by
  intro _ hmoved
  rcases h.long with hzero | hdone | hlong
  · exact h.busy hzero
  · refine absurd (d.both ⟨?_, h.quiet⟩ h.moved_other) hmoved
    have hleft := h.left
    have hall : a.offset = (s.job.len d).toNat := by omega
    rw [← hall]
    exact h.tiles
  · rcases hs with hspci | hshort
    · rcases h.uses with ⟨_, _, hoff, _, _, _⟩ | ⟨hk, _⟩ | hk | ⟨hk, _, _, _, _⟩ | ⟨hk, _, _, _⟩
      · exact h.busy hoff
      all_goals
        rw [hk] at hspci
        cases hspci
    · have := hshort d
      omega

/-- Until it has finished, the only chunk of a call is its first one. -/
theorem InChunk.offset_zero {s : State} {a : Active} {d : Side} (h : InChunk s a d)
    (hs : Short s a) : a.offset = 0 := by
  rcases h.long with hzero | hdone | hlong
  · exact hzero
  · have hpos := h.pos
    have hle := h.le
    omega
  · rcases hs with hspci | hshort
    · rcases h.uses with ⟨_, _, hoff, _, _, _⟩ | ⟨hk, _⟩ | hk | ⟨hk, _, _, _, _⟩ | ⟨hk, _, _, _⟩
      · exact hoff
      all_goals
        rw [hk] at hspci
        cases hspci
    · have := hshort d
      omega

theorem InChunk.last_of_short {s : State} {a : Active} {d : Side} (h : InChunk s a d)
    (hs : Short s a) : (a.msg.len d).toNat = a.len.toNat := by
  rcases h.last with hlast | ⟨hlong, hkind⟩
  · exact hlast
  · rcases hs with hspci | hshort
    · exact absurd hspci hkind
    · have := hshort d
      omega

theorem AtEnable.statusOk {s : State} {a : Active} {d : Side} (h : AtEnable s a d)
    (hs : Short s a) : s.StatusOk :=
  fun _ _ => h.busy (h.toInChunk.offset_zero hs)

theorem UnderWay.statusOk {s : State} {a : Active} {d : Side} (h : UnderWay s a d)
    (hs : Short s a) : s.StatusOk := by
  intro _ hmoved
  cases hsem : s.finishSem with
  | false => exact h.busy hsem (h.toInChunk.offset_zero hs)
  | true =>
    have hone := h.oneLeft
    rw [hsem] at hone
    refine absurd (d.both ⟨?_, hone.quiet⟩ h.moved_other) hmoved
    have hleft := h.left
    rw [← hleft, ← h.toInChunk.last_of_short hs]
    exact h.tiles

/-- The function that runs and its message. -/
def Pc.active : Pc → Option Active
  | .idle => none
  | .loop a | .txEnable a | .rxEnable a | .wait a => some a

theorem Inv.statusOk {s : State} (h : Inv s) (hs : ∀ a, s.pc.active = some a → Short s a) :
    s.StatusOk := by
  unfold Inv at h
  cases hpc : s.pc with
  | idle =>
    rw [hpc] at h
    exact fun hret => absurd hret h.ret
  | loop a =>
    rw [hpc] at h hs
    rcases h with h | ⟨d, h⟩
    · exact fun _ _ => h.busy
    · exact h.statusOk (hs a rfl)
  | txEnable a =>
    rw [hpc] at h hs
    obtain ⟨d, h⟩ := h
    exact h.statusOk (hs a rfl)
  | rxEnable a =>
    rw [hpc] at h hs
    rcases h with h | h
    · exact h.statusOk (hs a rfl)
    · exact h.statusOk (hs a rfl)
  | wait a =>
    rw [hpc] at h hs
    obtain ⟨d, h⟩ := h
    exact h.statusOk (hs a rfl)

end TuyaSdk.SpiMaster
