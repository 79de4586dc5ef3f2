import TuyaSdk.SpiMaster.Calls

/-!
# The task that makes a transfer

The steps from the loop condition over the programming and the enabling to the wait, each with the
part of the invariant that it needs and leaves.
-/

namespace TuyaSdk.SpiMaster

open TuyaSdk.Lib

/-- A chunk is programmed in the direction in use. -/
theorem AtLoop.program {s s' : State} {a a' : Active} {d : Side} (h : AtLoop s a d)
    (transLen : UInt32) {len : UInt32} (hflag : s'.spciFlag = s.spciFlag) (hjob : s'.job = s.job)
    (hret : s'.ret = s.ret) (hsem : s'.finishSem = s.finishSem)
    (hbusy : s.busyFlag = true → s'.busyFlag = true)
    (hengine : s'.engine d =
      (s.engine d).program transLen (a.msg.buf d + UInt32.ofNat a.offset) len)
    (hother : s'.engine d.other = s.engine d.other) (huses : Uses s a' d)
    (hbuf : a'.msg.buf d = a.msg.buf d) (hlen : a'.msg.len d = len) (halen : a'.len = a.len)
    (hoff : a'.offset = a.offset) (hpos : 0 < len.toNat) (hle : len.toNat ≤ a.len.toNat)
    (hlong : len.toNat ≤ 2 ^ 16)
    (ht : s.spciFlag = true ∧ transLen = 0 ∨ transLen = len ∧ len.toNat ≤ maxLenOnce)
    (hsource : transLenField transLen = 0 ↔ a'.kind = .spci)
    (hlast : len.toNat = a.len.toNat ∨
      maxLenOnce < (s.job.len d).toNat ∧ a'.kind ≠ .spci) : AtEnable s' a' d := by
  have hchunks : (s'.engine d).chunks = (s.engine d).chunks ++
      [⟨a.msg.buf d + UInt32.ofNat a.offset, len, transLenField transLen, gdmaLenField len + 1,
        decide (s.engine d).Quiet⟩] := by
    rw [hengine]
    rfl
  obtain ⟨hprog, hspi, hdma⟩ := h.quiet
  exact
    { ret := hret.trans h.ret
      uses := huses.congr hflag hjob
      buf := by rw [hbuf, hjob]; exact h.buf
      other := by rw [hjob, hother]; exact h.other
      chunks := fun c hc => by
        rw [hchunks, List.mem_append] at hc
        rw [hflag]
        rcases hc with hc | hc
        · exact h.chunks c hc
        · rw [List.mem_singleton.mp hc]
          exact Chunk.ok_of_program h.quiet hpos hlong ht
      nonneg := by rw [halen]; exact h.nonneg
      left := by rw [halen, hoff, hjob]; exact h.left
      long := by rw [halen, hoff, hjob]; exact h.long
      pos := by rw [hlen]; exact hpos
      le := by rw [hlen, halen]; exact hle
      tiles := by
        rw [hchunks, hlen, hoff, hjob]
        refine h.tiles.append ?_ hpos
        rw [h.buf]
      last := by rw [hlen, halen, hjob]; exact hlast
      ready := by
        rw [hengine]
        exact ⟨rfl, hspi, hdma⟩
      source := by
        rw [hengine]
        exact hsource
      noSem := hsem.trans h.noSem
      busy := fun hz => hbusy (h.busy (hoff ▸ hz)) }

/-- The length field of a chunk of the loop is not 0. -/
theorem transLenField_chunkLen {len : Int} (h : 0 < len) :
    transLenField (chunkLen len) ≠ 0 := by
  have hlen := chunkLen_toNat h
  have hle : (chunkLen len).toNat ≤ maxLenOnce := by omega
  rw [transLenField_of_le hle]
  intro hz
  rw [hz] at hlen
  have hzero : (0 : UInt32).toNat = 0 := rfl
  unfold maxLenOnce at hlen
  omega

/-- The next chunk of a loop is programmed. -/
theorem AtLoop.programChunk {s s' : State} {a a' : Active} {d : Side} (h : AtLoop s a d)
    (hlen0 : 0 < a.len) (hkind : a.kind ≠ .spci) (hflag : s'.spciFlag = s.spciFlag)
    (hjob : s'.job = s.job) (hret : s'.ret = s.ret) (hsem : s'.finishSem = s.finishSem)
    (hbusy : s'.busyFlag = s.busyFlag)
    (hengine : s'.engine d = (s.engine d).program (chunkLen a.len)
      (a.msg.buf d + UInt32.ofNat a.offset) (chunkLen a.len))
    (hother : s'.engine d.other = s.engine d.other) (huses : Uses s a' d)
    (hkind' : a'.kind = a.kind) (hbuf : a'.msg.buf d = a.msg.buf d)
    (hlen : a'.msg.len d = chunkLen a.len) (halen : a'.len = a.len)
    (hoff : a'.offset = a.offset) : AtEnable s' a' d := by
  have hmin := chunkLen_toNat hlen0
  have hleft := h.left
  have hmax : maxLenOnce = 4095 := rfl
  have hspci : a'.kind ≠ .spci := by
    rw [hkind']
    exact hkind
  refine h.program _ hflag hjob hret hsem (fun hb => hbusy.trans hb) hengine hother huses hbuf hlen
    halen hoff ?_ ?_ ?_ (.inr ⟨rfl, ?_⟩) ?_ ?_
  · omega
  · omega
  · omega
  · omega
  · exact iff_of_false (transLenField_chunkLen hlen0) hspci
  · by_cases hcut : maxLenOnce < a.len.toNat
    · exact .inr ⟨by omega, hspci⟩
    · exact .inl (by omega)

/-- The loop has ended, or there was nothing to do. -/
theorem Inv.done {s : State} (hmoved : ∀ d, s.Moved d)
    (hchunks : ∀ d, ∀ c ∈ (s.engine d).chunks, c.Ok s.spciFlag) (hsem : s.finishSem = false) :
    Inv s.done := by
  refine ⟨Option.some_ne_none _, ?_, ?_, ?_, ?_⟩
  · exact fun d => ⟨_, Nat.le_refl _, (hmoved d).1⟩
  · exact hchunks
  · exact fun _ => hmoved
  · exact fun _ => ⟨fun d => (hmoved d).2, hsem⟩

theorem AtLoop.done {s : State} {a : Active} {d : Side} (h : AtLoop s a d) (hlen : ¬0 < a.len) :
    Inv s.done := by
  have hleft := h.left
  have hall : a.offset = (s.job.len d).toNat := by
    have := h.nonneg
    omega
  refine Inv.done (d.both ⟨?_, h.quiet⟩ h.moved_other) h.transfersOk.chunks h.noSem
  rw [← hall]
  exact h.tiles

theorem Empty.loopStep {s : State} {a : Active} (h : Empty s a) : Inv (s.loopStep a) := by
  have hstep : s.loopStep a = s.done := by
    unfold State.loopStep
    rw [h.kind, h.len]
    rfl
  rw [hstep]
  exact Inv.done h.moved h.transfersOk.chunks h.noSem

theorem AtLoop.loopStep {s : State} {a : Active} {d : Side} (h : AtLoop s a d) :
    Inv (s.loopStep a) := by
  rcases h.uses with ⟨hk, hf, ho, hl, hp, honce⟩ | ⟨hk, hf⟩ | hk | ⟨hk, hf, hr, hrl, hs⟩ |
    ⟨hk, hs, hsl, hr⟩
  · have hstep : s.loopStep a =
        { s with
          busyFlag := true
          tx := s.tx.program 0 (a.msg.sendBuf + UInt32.ofNat a.offset) a.msg.sendLen
          pc := .txEnable a } := by
      unfold State.loopStep
      rw [hk]
    rw [hstep]
    have hleft := h.left
    have hsend : (s.job.len .tx).toNat = a.msg.sendLen.toNat := by
      rw [hl]
      rfl
    refine ⟨.tx, h.program 0 rfl rfl rfl rfl (fun _ => rfl) rfl rfl h.uses rfl rfl
      rfl rfl ?_ ?_ ?_ (.inl ⟨hf, rfl⟩) (iff_of_true rfl hk) (.inl ?_)⟩
    · omega
    · omega
    · rw [hl]
      exact honce
    · omega
  · by_cases hlen : 0 < a.len
    · have hstep : s.loopStep a =
          { (s.programTx a).1 with pc := .txEnable (s.programTx a).2 } := by
        unfold State.loopStep
        rw [hk]
        exact if_pos hlen
      rw [hstep]
      exact ⟨.tx, h.programChunk hlen (by rw [hk]; decide) rfl rfl rfl rfl rfl rfl rfl
        (.send hk hf) rfl rfl rfl rfl rfl⟩
    · have hstep : s.loopStep a = s.done := by
        unfold State.loopStep
        rw [hk]
        exact if_neg hlen
      rw [hstep]
      exact h.done hlen
  · by_cases hlen : 0 < a.len
    · have hstep : s.loopStep a =
          { (s.programRx a).1 with pc := .txEnable (s.programRx a).2 } := by
        unfold State.loopStep
        rw [hk]
        exact if_pos hlen
      rw [hstep]
      exact ⟨.rx, h.programChunk hlen (by rw [hk]; decide) rfl rfl rfl rfl rfl rfl rfl
        (.recv hk) rfl rfl rfl rfl rfl⟩
    · have hstep : s.loopStep a = s.done := by
        unfold State.loopStep
        rw [hk]
        exact if_neg hlen
      rw [hstep]
      exact h.done hlen
  · by_cases hlen : 0 < a.len
    · have hstep : s.loopStep a =
          { (s.programTx a).1 with pc := .txEnable (s.programTx a).2 } := by
        unfold State.loopStep
        rw [hk]
        simp [hlen, hr, hs]
      rw [hstep]
      exact ⟨.tx, h.programChunk hlen (by rw [hk]; decide) rfl rfl rfl rfl rfl rfl rfl
        (.xferTx hk hf hr hrl hs) rfl rfl rfl rfl rfl⟩
    · have hstep : s.loopStep a = s.done := by
        unfold State.loopStep
        rw [hk]
        exact if_neg hlen
      rw [hstep]
      exact h.done hlen
  · by_cases hlen : 0 < a.len
    · have hstep : s.loopStep a =
          { (s.programRx a).1 with pc := .txEnable (s.programRx a).2 } := by
        unfold State.loopStep
        rw [hk]
        simp [hlen, hr, hs]
      rw [hstep]
      exact ⟨.rx, h.programChunk hlen (by rw [hk]; decide) rfl rfl rfl rfl rfl rfl rfl
        (.xferRx hk hs hsl hr) rfl rfl rfl rfl rfl⟩
    · have hstep : s.loopStep a = s.done := by
        unfold State.loopStep
        rw [hk]
        exact if_neg hlen
      rw [hstep]
      exact h.done hlen

/-- The function enables the direction in use and no other. -/
theorem InChunk.enables {s : State} {a : Active} {d : Side} (h : InChunk s a d) :
    State.sends a = decide (d = .tx) ∧ State.receives a = decide (d = .rx) := by
  have hpos := h.pos
  unfold State.sends State.receives
  rcases h.uses with ⟨hk, _, _, _, _, _⟩ | ⟨hk, _⟩ | hk | ⟨hk, _, hr, _, hs⟩ | ⟨hk, hs, _, hr⟩
  · rw [hk]
    exact ⟨rfl, rfl⟩
  · rw [hk]
    exact ⟨rfl, rfl⟩
  · rw [hk]
    exact ⟨rfl, rfl⟩
  · have hlt : 0 < a.msg.sendLen := UInt32.lt_iff_toNat_lt.mpr hpos
    rw [hk]
    simp [hr, hs, hlt]
  · have hlt : 0 < a.msg.recvLen := UInt32.lt_iff_toNat_lt.mpr hpos
    rw [hk]
    simp [hr, hs, hlt]

/-- The length by which the function goes on is that of the chunk. -/
theorem InChunk.advance {s : State} {a : Active} {d : Side} (h : InChunk s a d) :
    State.advance a = (a.msg.len d).toNat := by
  have hpos := h.pos
  unfold State.advance
  rcases h.uses with ⟨hk, _, _, _, _, _⟩ | ⟨hk, _⟩ | hk | ⟨hk, _, _, hrl, _⟩ | ⟨hk, _, _, _⟩
  · rw [hk]
    rfl
  · rw [hk]
    rfl
  · rw [hk]
    rfl
  · rw [hk, hrl]
    rfl
  · have hlt : 0 < a.msg.recvLen := UInt32.lt_iff_toNat_lt.mpr hpos
    rw [hk]
    exact if_pos hlt

theorem AtEnable.congr {s s' : State} {a : Active} {d : Side} (h : AtEnable s a d)
    (hs : SameRun s s' d) (hengine : s'.engine d = s.engine d)
    (hsem : s'.finishSem = s.finishSem) (hbusy : s'.busyFlag = s.busyFlag) : AtEnable s' a d where
  toInChunk := h.toInChunk.congr hs
  ready := by rw [hengine]; exact h.ready
  source := by rw [hengine]; exact h.source
  noSem := hsem.trans h.noSem
  busy := fun hz => hbusy.trans (h.busy hz)

theorem UnderWay.congr {s s' : State} {a : Active} {d : Side} (h : UnderWay s a d)
    (hs : SameRun s s' d) (hengine : s'.engine d = s.engine d)
    (hsem : s'.finishSem = s.finishSem) (hbusy : s'.busyFlag = s.busyFlag) : UnderWay s' a d where
  toInChunk := h.toInChunk.congr hs
  oneLeft := by rw [hengine, hsem]; exact h.oneLeft
  busy := fun hno hz => hbusy.trans (h.busy (hsem ▸ hno) hz)

/-- The DMA of the direction in use has a handler only for a send with one DMA transfer. -/
theorem AtEnable.enable {s s' : State} {a : Active} {d : Side} (h : AtEnable s a d)
    (hs : SameRun s s' d) (handler : Bool) (hengine : s'.engine d = (s.engine d).enable handler)
    (hhandler : a.kind = .spci ↔ handler = true) (hsem : s'.finishSem = s.finishSem)
    (hbusy : s'.busyFlag = s.busyFlag) : UnderWay s' a d where
  toInChunk := h.toInChunk.congr hs
  oneLeft := by
    rw [hengine, hsem, h.noSem]
    exact Engine.oneLeft_enable (h.source.trans hhandler)
  busy := fun _ hz => hbusy.trans (h.busy hz)

theorem UnderWay.woken {s : State} {a : Active} {d : Side} (h : UnderWay s a d)
    (hsem : s.finishSem = true) : Inv (State.woken { s with finishSem := false } a) := by
  have hone := h.oneLeft
  rw [hsem] at hone
  have hquiet := hone.quiet
  have hleft := h.left
  have hle := h.le
  have hpos := h.pos
  unfold State.woken
  split
  · rename_i hspci
    have hlast : (a.msg.len d).toNat = a.len.toNat := by
      rcases h.last with hlast | ⟨_, hno⟩
      · exact hlast
      · exact absurd hspci hno
    refine Inv.done (d.both ⟨?_, ?_⟩ ?_) ?_ rfl
    · have hall : a.offset + (a.msg.len d).toNat = (s.job.len d).toNat := by omega
      have htiles := h.tiles
      rw [hall] at htiles
      cases d <;> exact htiles
    · cases d <;> exact hquiet
    · cases d <;> exact h.moved_other
    · intro e
      cases e
      · exact h.toInChunk.transfersOk.chunks .tx
      · exact h.toInChunk.transfersOk.chunks .rx
  · rename_i hspci
    rw [h.toInChunk.advance]
    have hrun := h.toRuns
    have hengine : ∀ (pc : Pc) (e : Side),
        ({ s with finishSem := false, pc := pc } : State).engine e = s.engine e := by
      intro pc e
      cases e <;> rfl
    refine .inr ⟨d, ?_⟩
    exact
      { ret := hrun.ret
        uses := by
          rcases hrun.uses with ⟨hk, _, _, _, _, _⟩ | ⟨hk, hf⟩ | hk | ⟨hk, hf, hr, hrl, hs⟩ |
            ⟨hk, hs, hsl, hr⟩
          · exact absurd hk hspci
          · exact .send hk hf
          · exact .recv hk
          · exact .xferTx hk hf hr hrl hs
          · exact .xferRx hk hs hsl hr
        buf := hrun.buf
        other := by
          rw [hengine]
          exact hrun.other
        chunks := by
          rw [hengine]
          exact hrun.chunks
        nonneg := by
          show 0 ≤ a.len - ((a.msg.len d).toNat : Int)
          omega
        left := by
          show a.offset + (a.msg.len d).toNat + (a.len - ((a.msg.len d).toNat : Int)).toNat =
            (s.job.len d).toNat
          omega
        long := by
          rcases h.last with hlast | ⟨hlong, _⟩
          · refine .inr (.inl ?_)
            show a.len - ((a.msg.len d).toNat : Int) = 0
            omega
          · exact .inr (.inr hlong)
        quiet := by
          rw [hengine]
          exact hquiet
        noSem := rfl
        tiles := by
          rw [hengine]
          exact h.tiles
        busy := fun hz => by
          have hz' : a.offset + (a.msg.len d).toNat = 0 := hz
          omega }

theorem Inv.taskStep {s : State} (h : Inv s) : Inv s.taskStep := by
  have hinv := h
  unfold Inv at h
  unfold State.taskStep
  cases hpc : s.pc with
  | idle => exact hinv
  | loop a =>
    rw [hpc] at h
    rcases h with h | ⟨d, h⟩
    · exact h.loopStep
    · exact h.loopStep
  | txEnable a =>
    rw [hpc] at h
    obtain ⟨d, h⟩ := h
    have hsends := h.toInChunk.enables.1
    cases d with
    | tx =>
      refine .inl (h.enable ⟨rfl, rfl, rfl, ?_, rfl⟩ s.spciFlag ?_ ?_ rfl rfl)
      · show (if State.sends a then s.tx.enable s.spciFlag else s.tx).chunks = s.tx.chunks
        rw [hsends]
        rfl
      · show (if State.sends a then s.tx.enable s.spciFlag else s.tx) = s.tx.enable s.spciFlag
        rw [hsends]
        rfl
      · rcases h.uses with ⟨hk, hf, _, _, _, _⟩ | ⟨hk, hf⟩ | _ | ⟨hk, hf, _, _, _⟩ | _
        · exact iff_of_true hk hf
        · rw [hk, hf]
          decide
        · rw [hk, hf]
          decide
    | rx =>
      have hoff : (if State.sends a then s.tx.enable s.spciFlag else s.tx) = s.tx := by
        rw [hsends]
        rfl
      refine .inr (h.congr ⟨rfl, rfl, rfl, rfl, ?_⟩ rfl rfl rfl)
      exact hoff
  | rxEnable a =>
    rw [hpc] at h
    rcases h with h | h
    · have hreceives := h.toInChunk.enables.2
      refine ⟨.tx, h.congr ⟨rfl, rfl, rfl, rfl, ?_⟩ rfl rfl rfl⟩
      show (if State.receives a then s.rx.enable false else s.rx) = s.rx
      rw [hreceives]
      rfl
    · have hreceives := h.toInChunk.enables.2
      refine ⟨.rx, h.enable ⟨rfl, rfl, rfl, ?_, rfl⟩ false ?_ ?_ rfl rfl⟩
      · show (if State.receives a then s.rx.enable false else s.rx).chunks = s.rx.chunks
        rw [hreceives]
        rfl
      · show (if State.receives a then s.rx.enable false else s.rx) = s.rx.enable false
        rw [hreceives]
        rfl
      · rcases h.uses with _ | _ | hk | _ | ⟨hk, _, _, _⟩
        · rw [hk]
          decide
        · rw [hk]
          decide
  | wait a =>
    rw [hpc] at h
    obtain ⟨d, h⟩ := h
    cases hsem : s.finishSem with
    | false => exact hinv
    | true => exact h.woken hsem

end TuyaSdk.SpiMaster
