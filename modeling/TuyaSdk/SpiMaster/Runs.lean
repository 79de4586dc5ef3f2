import TuyaSdk.SpiMaster.Task

/-!
# The runs of the SPI master

Each step keeps the invariant, when the calls have one source each. A call of one chunk moreover
keeps the status busy until the chunk has finished.
-/

namespace TuyaSdk.SpiMaster

open TuyaSdk.Lib

theorem Inv.init (flag : UInt32) : Inv (bkSpiMasterDmaInit flag) := by
  have hquiet : ∀ d, ((bkSpiMasterDmaInit flag).engine d).Quiet := by
    intro d
    cases d <;> exact ⟨rfl, rfl, rfl⟩
  refine ⟨Option.some_ne_none _, ?_, ?_, ?_, fun _ => ⟨hquiet, rfl⟩⟩
  · intro d
    refine ⟨0, Nat.zero_le _, ?_⟩
    cases d <;> exact Tiles.nil _
  · intro d c hc
    cases d <;> exact absurd hc List.not_mem_nil
  · intro hret
    cases hret

theorem Inv.step {s s' : State} {input : Input} {o : Unit} (h : Inv s)
    (hok : OneSourceCalls maxInt s input) (hs : step s input = some (s', o)) : Inv s' := by
  cases input with
  | call c =>
    cases hs
    show Inv (if s.pc = .idle then _ else s)
    split
    · rename_i hpc
      cases c with
      | send m => exact h.bkSpiMasterDmaSend hpc (hok hpc)
      | recv m => exact h.bkSpiMasterDmaRecv hpc (hok hpc)
      | xfer m => exact h.bkSpiMasterDmaXfer hpc (hok hpc)
    · exact h
  | task =>
    cases hs
    exact h.taskStep
  | txFinish =>
    cases hs
    show Inv (if s.tx.spiPending = true then _ else s)
    split
    · rename_i hp
      exact h.finish (d := .tx) (.inl hp) ⟨rfl, rfl, rfl, rfl, rfl⟩ rfl rfl
        fun hone => hone.spiFinish hp
    · exact h
  | rxFinish =>
    cases hs
    show Inv (if s.rx.spiPending = true then _ else s)
    split
    · rename_i hp
      exact h.finish (d := .rx) (.inl hp) ⟨rfl, rfl, rfl, rfl, rfl⟩ rfl rfl
        fun hone => hone.spiFinish hp
    · exact h
  | dmaFinish =>
    cases hs
    show Inv (if s.tx.dmaPending = true then _ else s)
    split
    · rename_i hp
      exact h.finish (d := .tx) (.inr hp) ⟨rfl, rfl, rfl, rfl, rfl⟩ rfl rfl
        fun hone => hone.dmaFinish hp
    · exact h

/-- The call that runs, if any, has no more than one chunk. -/
def ShortRun (s : State) : Prop := ∀ a, s.pc.active = some a → Short s a

/-- A step that goes on with the same call. -/
theorem ShortRun.congr {s s' : State} (h : ShortRun s) (hjob : s'.job = s.job)
    (hkind : ∀ a', s'.pc.active = some a' → ∃ a, s.pc.active = some a ∧ a'.kind = a.kind) :
    ShortRun s' := by
  intro a' ha'
  obtain ⟨a, ha, hk⟩ := hkind a' ha'
  rcases h a ha with hs | hs
  · exact .inl (hk.trans hs)
  · refine .inr fun d => ?_
    rw [hjob]
    exact hs d

theorem ShortRun.idle {s : State} (h : s.pc = .idle) : ShortRun s := by
  intro a ha
  rw [h] at ha
  cases ha

theorem ShortRun.accept {s : State} {job : Message} {a : Active}
    (h : a.kind = .spci ∨ ∀ d, (job.len d).toNat ≤ maxLenOnce) : ShortRun (s.accept job a) := by
  intro a' ha'
  cases ha'
  exact h

theorem ShortRun.loopStep {s : State} {a : Active} (h : ShortRun s) (hpc : s.pc = .loop a) :
    ShortRun (s.loopStep a) := by
  have hdone : ShortRun s.done := .idle rfl
  have hgo : ∀ {s' : State} {a' : Active}, s'.job = s.job → s'.pc = .txEnable a' →
      a'.kind = a.kind → ShortRun s' := by
    intro s' a' hjob hpc' hk
    refine h.congr hjob fun b hb => ⟨a, by rw [hpc]; rfl, ?_⟩
    rw [hpc'] at hb
    cases hb
    exact hk
  unfold State.loopStep
  cases hk : a.kind with
  | spci => exact hgo rfl rfl rfl
  | send =>
    dsimp only
    split
    · exact hgo rfl rfl rfl
    · exact hdone
  | recv =>
    dsimp only
    split
    · exact hgo rfl rfl rfl
    · exact hdone
  | xfer =>
    dsimp only
    split
    · refine hgo ?_ rfl ?_
      · split <;> split <;> rfl
      · split <;> split <;> rfl
    · exact hdone

theorem ShortRun.taskStep {s : State} (h : ShortRun s) : ShortRun s.taskStep := by
  have hgo : ∀ {s' : State} {a a' : Active}, s.pc.active = some a → s'.job = s.job →
      s'.pc.active = some a' → a'.kind = a.kind → ShortRun s' := by
    intro s' a a' ha hjob ha' hk
    refine h.congr hjob fun b hb => ⟨a, ha, ?_⟩
    rw [ha'] at hb
    cases hb
    exact hk
  unfold State.taskStep
  cases hpc : s.pc with
  | idle => exact h
  | loop a => exact h.loopStep hpc
  | txEnable a => exact hgo (a := a) (by rw [hpc]; rfl) rfl rfl rfl
  | rxEnable a => exact hgo (a := a) (by rw [hpc]; rfl) rfl rfl rfl
  | wait a =>
    dsimp only
    split
    · unfold State.woken
      split
      · exact .idle rfl
      · exact hgo (a := a) (by rw [hpc]; rfl) rfl rfl rfl
    · exact h

theorem ShortRun.call {s : State} {c : Call} (hpc : s.pc = .idle)
    (hone : c.OneSource s.spciFlag maxLenOnce) : ShortRun (s.call c) := by
  have hfail : ShortRun s.fail := .idle hpc
  have hzero : (0 : UInt32).toNat ≤ maxLenOnce := Nat.zero_le _
  cases c with
  | send m =>
    cases m with
    | none => exact hfail
    | some m =>
      show ShortRun (if m.sendBuf = 0 ∨ m.sendLen = 0 then s.fail else _)
      split
      · exact hfail
      · rename_i hno
        rw [not_or] at hno
        refine .accept ?_
        have hlen := (hone.resolve_left hno.1).resolve_left hno.2
        cases hf : s.spciFlag with
        | true => exact .inl rfl
        | false =>
          rw [hf] at hlen
          exact .inr (Side.both .tx hlen hzero)
  | recv m =>
    cases m with
    | none => exact hfail
    | some m =>
      show ShortRun (if m.recvBuf = 0 ∨ m.recvLen = 0 then s.fail else _)
      split
      · exact hfail
      · rename_i hno
        rw [not_or] at hno
        exact .accept (.inr (Side.both .rx (hone.resolve_left hno.1) hzero))
  | xfer m =>
    cases m with
    | none => exact hfail
    | some m =>
      change if m.recvBuf ≠ 0 ∧ m.sendBuf ≠ 0 then m.recvLen ≠ m.sendLen ∨ m.recvLen = 0
        else if m.recvBuf ≠ 0 then m.recvLen.toNat ≤ maxLenOnce
        else m.sendBuf = 0 ∨ m.sendLen = 0 ∨ s.spciFlag = false ∧ m.sendLen.toNat ≤ maxLenOnce
        at hone
      show ShortRun (if (State.zeroNull m).recvBuf ≠ 0 ∧ (State.zeroNull m).sendBuf ≠ 0 ∧
        (State.zeroNull m).recvLen ≠ (State.zeroNull m).sendLen then s.fail else _)
      split
      · exact hfail
      · rename_i hno
        have hlens : m.recvBuf ≠ 0 → m.sendBuf ≠ 0 → m.recvLen = m.sendLen := by
          intro hr hs
          by_contra hne
          refine hno ⟨hr, hs, ?_⟩
          have hzr : (State.zeroNull m).recvLen = m.recvLen := if_neg hr
          have hzs : (State.zeroNull m).sendLen = m.sendLen := if_neg hs
          rw [hzr, hzs]
          exact hne
        refine .accept (.inr (Side.both .tx ?_ ?_))
        · show (if m.sendBuf = 0 then 0 else m.sendLen).toNat ≤ maxLenOnce
          split
          · exact hzero
          · rename_i hs
            by_cases hr : m.recvBuf = 0
            · rw [if_neg fun h => h.1 hr, if_neg fun h => h hr] at hone
              rcases hone.resolve_left hs with hz | ⟨_, hlen⟩
              · rw [hz]
                exact hzero
              · exact hlen
            · rw [if_pos ⟨hr, hs⟩] at hone
              rw [← hlens hr hs, hone.resolve_left fun hne => hne (hlens hr hs)]
              exact hzero
        · show (if m.recvBuf = 0 then 0 else m.recvLen).toNat ≤ maxLenOnce
          split
          · exact hzero
          · rename_i hr
            by_cases hs : m.sendBuf = 0
            · rw [if_neg fun h => h.2 hs, if_pos hr] at hone
              exact hone
            · rw [if_pos ⟨hr, hs⟩] at hone
              rw [hone.resolve_left fun hne => hne (hlens hr hs)]
              exact hzero

theorem ShortRun.step {s s' : State} {input : Input} {o : Unit} (h : ShortRun s)
    (hok : OneSourceCalls maxLenOnce s input) (hs : step s input = some (s', o)) :
    ShortRun s' := by
  have hsame : ∀ {s' : State}, s'.job = s.job → s'.pc = s.pc → ShortRun s' := by
    intro s' hjob hpc
    exact h.congr hjob fun a ha => ⟨a, by rw [← hpc]; exact ha, rfl⟩
  cases input with
  | call c =>
    cases hs
    show ShortRun (if s.pc = .idle then _ else s)
    split
    · rename_i hpc
      exact .call hpc (hok hpc)
    · exact h
  | task =>
    cases hs
    exact h.taskStep
  | txFinish =>
    cases hs
    show ShortRun (if s.tx.spiPending = true then _ else s)
    split
    · exact hsame rfl rfl
    · exact h
  | rxFinish =>
    cases hs
    show ShortRun (if s.rx.spiPending = true then _ else s)
    split
    · exact hsame rfl rfl
    · exact h
  | dmaFinish =>
    cases hs
    show ShortRun (if s.tx.dmaPending = true then _ else s)
    split
    · exact hsame rfl rfl
    · exact h

/-- When every call has one source, the chunks of all calls tile their buffers, whatever the
lengths, and no completion is left over. -/
theorem transfersOk_of_oneSource {flag : UInt32} {inputs : List Input}
    (h : Machine.Legal step (OneSourceCalls maxInt) (bkSpiMasterDmaInit flag) inputs) (n : Nat)
    {s : State} {os : List Unit}
    (hr : Machine.run step (bkSpiMasterDmaInit flag) (inputs.take n) = some (s, os)) :
    s.TransfersOk := by
  have hinv : Inv s :=
    Machine.always_of_legal (fun _ _ _ _ hi hok hs => hi.step hok hs) (Inv.init flag) h n hr
  exact hinv.transfersOk

/-- When every call moreover has no more than one chunk, the status is busy as it should be. -/
theorem spiOk_of_oneChunk (flag : UInt32) (inputs : List Input)
    (h : Machine.Legal step (OneSourceCalls maxLenOnce) (bkSpiMasterDmaInit flag) inputs) :
    ∀ n s os, Machine.run step (bkSpiMasterDmaInit flag) (inputs.take n) = some (s, os) →
      s.SpiOk := by
  intro n s os hr
  have hstep : ∀ (s : State) (input : Input) (s' : State) (o : Unit), Inv s ∧ ShortRun s →
      OneSourceCalls maxLenOnce s input → step s input = some (s', o) → Inv s' ∧ ShortRun s' := by
    intro s input s' o hi hok hs
    exact ⟨hi.1.step (hok.mono (by decide)) hs, hi.2.step hok hs⟩
  obtain ⟨hinv, hshort⟩ : Inv s ∧ ShortRun s :=
    Machine.always_of_legal hstep ⟨Inv.init flag, .idle rfl⟩ h n hr
  exact ⟨hinv.transfersOk, hinv.statusOk hshort⟩

/-- A send of 8 bytes, and a full duplex call without a buffer to send. -/
def sendReceive : List Input :=
  [.call (.send (some ⟨0x1000, 8, 0, 0⟩)), .task, .task, .txFinish, .task, .task, .task,
    .call (.xfer (some ⟨0, 16, 0x2000, 4095⟩)), .task, .task, .task, .rxFinish, .task, .task]

theorem spiOk_send_receive :
    ∃ s os, Machine.run step (bkSpiMasterDmaInit 0) sendReceive = some (s, os) ∧ s.SpiOk := by
  have hsome : (Machine.run step (bkSpiMasterDmaInit 0) sendReceive).isSome = true := by
    decide +kernel
  obtain ⟨⟨s, os⟩, hr⟩ := Option.isSome_iff_exists.mp hsome
  exact ⟨s, os, hr, spiOk_of_oneChunk 0 sendReceive (by decide +kernel) 14 s os hr⟩

/-- A send of 4096 bytes takes two chunks. When the first has finished, the status is no longer
busy: the test for the last chunk is made after the length was cut. -/
theorem not_forall_spiOk :
    ¬∀ (flag : UInt32) (inputs : List Input) (n : Nat) (s : State) (os : List Unit),
      Machine.run step (bkSpiMasterDmaInit flag) (inputs.take n) = some (s, os) → s.SpiOk := by
  intro h
  have hrun : (Machine.run step (bkSpiMasterDmaInit 0)
      [.call (.send (some ⟨0x1000, 4096, 0, 0⟩)), .task, .task, .task, .txFinish]).any (fun r =>
        r.1.ret = none ∧ r.1.bkSpiGetStatus = false ∧
          ¬Tiles (r.1.job.buf .tx) (r.1.engine .tx).chunks (r.1.job.len .tx).toNat) = true := by
    decide +kernel
  obtain ⟨⟨s, os⟩, hs, hbad⟩ := (Option.any_eq_true _ _).mp hrun
  obtain ⟨hret, hstatus, htiles⟩ := of_decide_eq_true hbad
  have hok := h 0 [.call (.send (some ⟨0x1000, 4096, 0, 0⟩)), .task, .task, .task, .txFinish] 5 s os
    hs
  have hbusy := hok.status hret fun hmoved => htiles (hmoved .tx).1
  rw [hstatus] at hbusy
  cases hbusy

end TuyaSdk.SpiMaster
