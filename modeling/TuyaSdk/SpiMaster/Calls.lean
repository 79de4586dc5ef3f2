import TuyaSdk.SpiMaster.Steps

/-!
# The interrupts and the calls of the SPI master

An interrupt that comes gives the semaphore of the chunk in use; a call that is accepted starts at
its loop with nothing left over from the call before.
-/

namespace TuyaSdk.SpiMaster

open TuyaSdk.Lib

/-! ## Interrupts -/

/-- An interrupt that is pending comes from the direction in use, after its enabling. -/
theorem Inv.underWay {s : State} (h : Inv s) {d : Side}
    (hp : (s.engine d).spiPending = true ∨ (s.engine d).dmaPending = true) :
    ∃ a, UnderWay s a d ∧ (s.pc = .wait a ∨ s.pc = .rxEnable a ∧ d = .tx) := by
  have hquiet : ¬(s.engine d).Quiet := by
    rintro ⟨_, hs, hd⟩
    rcases hp with hp | hp
    · rw [hs] at hp
      cases hp
    · rw [hd] at hp
      cases hp
  have hready : ¬(s.engine d).Ready := by
    rintro ⟨_, hs, hd⟩
    rcases hp with hp | hp
    · rw [hs] at hp
      cases hp
    · rw [hd] at hp
      cases hp
  have hother : ∀ {a e}, Runs s a e → d = e := by
    intro a e hr
    rcases e.eq_or_other d with hd | hd
    · exact hd
    · rw [hd] at hquiet
      exact absurd hr.other.2.2 hquiet
  unfold Inv at h
  cases hpc : s.pc with
  | idle =>
    rw [hpc] at h
    exact absurd ((h.transfers.nothingLeft h.ret).1 d) hquiet
  | loop a =>
    rw [hpc] at h
    rcases h with h | ⟨e, h⟩
    · exact absurd (h.engines d).2.2 hquiet
    · rw [hother h.toRuns] at hquiet
      exact absurd h.quiet hquiet
  | txEnable a =>
    rw [hpc] at h
    obtain ⟨e, h⟩ := h
    rw [hother h.toRuns] at hready
    exact absurd h.ready hready
  | rxEnable a =>
    rw [hpc] at h
    rcases h with h | h
    · have hd := hother h.toRuns
      exact ⟨a, hd ▸ h, .inr ⟨rfl, hd⟩⟩
    · rw [hother h.toRuns] at hready
      exact absurd h.ready hready
  | wait a =>
    rw [hpc] at h
    obtain ⟨e, h⟩ := h
    have hd := hother h.toRuns
    exact ⟨a, hd ▸ h, .inl rfl⟩

/-- A state that differs only in the flags of one direction, the status, the semaphore and where
the task is. -/
structure SameRun (s s' : State) (d : Side) : Prop where
  spciFlag : s'.spciFlag = s.spciFlag
  job : s'.job = s.job
  ret : s'.ret = s.ret
  chunks : (s'.engine d).chunks = (s.engine d).chunks
  other : s'.engine d.other = s.engine d.other

theorem Uses.congr {s s' : State} {a : Active} {d : Side} (h : Uses s a d)
    (hflag : s'.spciFlag = s.spciFlag) (hjob : s'.job = s.job) : Uses s' a d := by
  rcases h with ⟨hk, hf, ho, hl, hp, honce⟩ | ⟨hk, hf⟩ | hk | ⟨hk, hf, hr, hrl, hs⟩ |
    ⟨hk, hs, hsl, hr⟩
  · exact .spci hk (hflag.trans hf) ho (by rw [hl, hjob]) hp (by rw [hjob]; exact honce)
  · exact .send hk (hflag.trans hf)
  · exact .recv hk
  · exact .xferTx hk (hflag.trans hf) hr hrl hs
  · exact .xferRx hk hs hsl hr

theorem Runs.congr {s s' : State} {a : Active} {d : Side} (h : Runs s a d) (hs : SameRun s s' d) :
    Runs s' a d where
  ret := hs.ret.trans h.ret
  uses := h.uses.congr hs.spciFlag hs.job
  buf := by rw [hs.job]; exact h.buf
  other := by rw [hs.job, hs.other]; exact h.other
  chunks := by rw [hs.chunks, hs.spciFlag]; exact h.chunks
  nonneg := h.nonneg
  left := by rw [hs.job]; exact h.left
  long := by rw [hs.job]; exact h.long

theorem InChunk.congr {s s' : State} {a : Active} {d : Side} (h : InChunk s a d)
    (hs : SameRun s s' d) : InChunk s' a d where
  toRuns := h.toRuns.congr hs
  pos := h.pos
  le := h.le
  tiles := by rw [hs.job, hs.chunks]; exact h.tiles
  last := by rw [hs.job]; exact h.last

/-- The interrupt of the direction in use comes. -/
theorem Inv.finish {s s' : State} (h : Inv s) {d : Side}
    (hp : (s.engine d).spiPending = true ∨ (s.engine d).dmaPending = true) (hs : SameRun s s' d)
    (hpc' : s'.pc = s.pc) (hsem : s'.finishSem = true)
    (hone : (s.engine d).OneLeft s.finishSem → (s'.engine d).OneLeft true) : Inv s' := by
  obtain ⟨a, hway, hpc⟩ := h.underWay hp
  have hway' : UnderWay s' a d :=
    { toInChunk := hway.toInChunk.congr hs
      oneLeft := by rw [hsem]; exact hone hway.oneLeft
      busy := fun hno => by rw [hsem] at hno; cases hno }
  unfold Inv
  rw [hpc']
  rcases hpc with hpc | ⟨hpc, rfl⟩
  · rw [hpc]
    exact ⟨d, hway'⟩
  · rw [hpc]
    exact .inl hway'

/-! ## Calls -/

theorem Inv.fail {s : State} (h : Inv s) (hpc : s.pc = .idle) : Inv s.fail := by
  unfold Inv at h ⊢
  rw [hpc] at h
  have hpc' : s.fail.pc = .idle := hpc
  rw [hpc']
  have hret : s.fail.ret = some (-1) := rfl
  refine ⟨by rw [hret]; exact Option.some_ne_none _, h.transfers.tiles, h.transfers.chunks, ?_, ?_⟩
  · intro hzero
    rw [hret] at hzero
    cases hzero
  · intro _
    exact h.transfers.nothingLeft h.ret

/-- A call that uses one direction is accepted. -/
theorem Inv.accept {s : State} (h : Inv s) (hpc : s.pc = .idle) {job : Message} {a : Active}
    {d : Side} (huses : Uses (s.accept job a) a d) (hbuf : a.msg.buf d = job.buf d)
    (hother : job.len d.other = 0) (hlen : a.len = (job.len d).toNat) (hoff : a.offset = 0) :
    Inv (s.accept job a) := by
  unfold Inv at h ⊢
  rw [hpc] at h
  obtain ⟨hquiet, hsem⟩ := h.transfers.nothingLeft h.ret
  have hempty : ∀ e, ((s.accept job a).engine e).chunks = [] := by
    intro e
    cases e <;> rfl
  have hquiet' : ∀ e, ((s.accept job a).engine e).Quiet := by
    intro e
    cases e
    · exact hquiet .tx
    · exact hquiet .rx
  refine .inr ⟨d, ?_⟩
  exact
    { ret := rfl
      uses := huses
      buf := hbuf
      other := ⟨hother, hempty _, hquiet' _⟩
      chunks := fun c hc => by
        rw [hempty] at hc
        exact absurd hc List.not_mem_nil
      nonneg := by omega
      left := by
        show a.offset + a.len.toNat = (job.len d).toNat
        omega
      long := .inl hoff
      quiet := hquiet' d
      noSem := hsem
      tiles := by
        rw [hempty, hoff]
        exact Tiles.nil _
      busy := fun _ => rfl }

/-- A call that has nothing to move is accepted. -/
theorem Inv.acceptEmpty {s : State} (h : Inv s) (hpc : s.pc = .idle) {job : Message} {a : Active}
    (hkind : a.kind = .xfer) (hlen : a.len = 0) (hjob : ∀ d, job.len d = 0) :
    Inv (s.accept job a) := by
  unfold Inv at h ⊢
  rw [hpc] at h
  obtain ⟨hquiet, hsem⟩ := h.transfers.nothingLeft h.ret
  refine .inl ⟨rfl, hkind, hlen, fun d => ⟨hjob d, ?_, ?_⟩, hsem, rfl⟩
  · cases d <;> rfl
  · cases d
    · exact hquiet .tx
    · exact hquiet .rx

theorem Inv.bkSpiMasterDmaSend {s : State} (h : Inv s) (hpc : s.pc = .idle) {m : Option Message}
    (hone : (Call.send m).OneSource s.spciFlag maxInt) : Inv (s.bkSpiMasterDmaSend m) := by
  cases m with
  | none => exact h.fail hpc
  | some m =>
    show Inv (if m.sendBuf = 0 ∨ m.sendLen = 0 then s.fail else _)
    split
    · exact h.fail hpc
    · rename_i hno
      rw [not_or] at hno
      have hpos : 0 < m.sendLen.toNat := Nat.pos_of_ne_zero fun hz => hno.2 (UInt32.toNat.inj hz)
      have hlen : m.sendLen.toNat ≤ if s.spciFlag then 2 ^ 16 else maxInt :=
        (hone.resolve_left hno.1).resolve_left hno.2
      cases hflag : s.spciFlag with
      | true =>
        rw [hflag, if_pos rfl] at hlen
        have hint := intOf_of_le (n := m.sendLen) (by unfold maxInt; omega)
        refine h.accept hpc (d := .tx) ?_ rfl rfl hint rfl
        exact .spci rfl hflag rfl rfl (by show 0 < intOf m.sendLen; omega) hlen
      | false =>
        rw [hflag, if_neg Bool.false_ne_true] at hlen
        exact h.accept hpc (.send rfl hflag) rfl rfl (intOf_of_le hlen) rfl

theorem Inv.bkSpiMasterDmaRecv {s : State} (h : Inv s) (hpc : s.pc = .idle) {m : Option Message}
    (hone : (Call.recv m).OneSource s.spciFlag maxInt) : Inv (s.bkSpiMasterDmaRecv m) := by
  cases m with
  | none => exact h.fail hpc
  | some m =>
    show Inv (if m.recvBuf = 0 ∨ m.recvLen = 0 then s.fail else _)
    split
    · exact h.fail hpc
    · rename_i hno
      rw [not_or] at hno
      exact h.accept hpc (.recv rfl) rfl rfl (intOf_of_le (hone.resolve_left hno.1)) rfl

theorem Inv.bkSpiMasterDmaXfer {s : State} (h : Inv s) (hpc : s.pc = .idle) {m : Option Message}
    (hone : (Call.xfer m).OneSource s.spciFlag maxInt) : Inv (s.bkSpiMasterDmaXfer m) := by
  cases m with
  | none => exact h.fail hpc
  | some m =>
    change if m.recvBuf ≠ 0 ∧ m.sendBuf ≠ 0 then m.recvLen ≠ m.sendLen ∨ m.recvLen = 0
      else if m.recvBuf ≠ 0 then m.recvLen.toNat ≤ maxInt
      else m.sendBuf = 0 ∨ m.sendLen = 0 ∨ s.spciFlag = false ∧ m.sendLen.toNat ≤ maxInt at hone
    show Inv (if (State.zeroNull m).recvBuf ≠ 0 ∧ (State.zeroNull m).sendBuf ≠ 0 ∧
      (State.zeroNull m).recvLen ≠ (State.zeroNull m).sendLen then s.fail else _)
    by_cases hr : m.recvBuf = 0
    · rw [if_neg fun hno => hno.1 hr, if_neg fun hno => hno hr] at hone
      have hz : (State.zeroNull m).recvLen = 0 := if_pos hr
      rw [if_neg fun hno => hno.1 hr]
      by_cases hs : m.sendBuf = 0 ∨ m.sendLen = 0
      · have hzs : (State.zeroNull m).sendLen = 0 := by
          unfold State.zeroNull
          rcases hs with hs | hs <;> simp [hs]
        refine h.acceptEmpty hpc rfl ?_ fun d => ?_
        · simp only [hz, hzs]
          rfl
        · cases d
          · exact hzs
          · exact hz
      · rw [not_or] at hs
        obtain ⟨hflag, hlen⟩ := (hone.resolve_left hs.1).resolve_left hs.2
        have hzs : (State.zeroNull m).sendLen = m.sendLen := if_neg hs.1
        refine h.accept hpc (d := .tx) ?_ rfl hz ?_ rfl
        · exact .xferTx rfl hflag hr hz hs.1
        · have hz' : ¬0 < (State.zeroNull m).recvLen := by
            rw [hz]
            exact UInt32.lt_irrefl 0
          have hlen' : (State.zeroNull m).len .tx = m.sendLen := hzs
          rw [if_neg hz', hzs, hlen']
          exact intOf_of_le hlen
    · have hzr : (State.zeroNull m).recvLen = m.recvLen := if_neg hr
      by_cases hs : m.sendBuf = 0
      · rw [if_neg fun hno => hno.2 hs, if_pos hr] at hone
        have hzs : (State.zeroNull m).sendLen = 0 := if_pos hs
        rw [if_neg fun hno => hno.2.1 hs]
        refine h.accept hpc (d := .rx) ?_ rfl hzs ?_ rfl
        · exact .xferRx rfl hs hzs hr
        · show intOf (if 0 < (State.zeroNull m).recvLen then _ else _) = _
          have hlen' : (State.zeroNull m).len .rx = m.recvLen := hzr
          rw [hlen']
          by_cases hpos : 0 < m.recvLen
          · rw [hzr, if_pos hpos]
            exact intOf_of_le hone
          · have hzero : m.recvLen = 0 := by
              apply UInt32.toNat.inj
              have hnot : ¬0 < m.recvLen.toNat := fun hlt => hpos (UInt32.lt_iff_toNat_lt.mpr hlt)
              show m.recvLen.toNat = 0
              omega
            rw [hzr, if_neg hpos, hzs]
            rw [hzero]
            rfl
      · have hzs : (State.zeroNull m).sendLen = m.sendLen := if_neg hs
        rw [if_pos ⟨hr, hs⟩] at hone
        split
        · exact h.fail hpc
        · rename_i hno
          have hsame : m.recvLen = m.sendLen := by
            by_contra hne
            exact hno ⟨hr, hs, by rw [hzr, hzs]; exact hne⟩
          have hzero : m.recvLen = 0 := hone.resolve_left fun hne => hne hsame
          have hzero' : m.sendLen = 0 := hsame ▸ hzero
          refine h.acceptEmpty hpc rfl ?_ fun d => ?_
          · simp only [hzr, hzs, hzero, hzero']
            rfl
          · cases d
            · exact hzs.trans hzero'
            · exact hzr.trans hzero

end TuyaSdk.SpiMaster
