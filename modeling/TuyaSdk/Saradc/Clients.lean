import TuyaSdk.Saradc.Invariant

/-!
# The steps of the clients

The temperature clients open in one step, and the third client goes through `ddev_open` and
`ddev_close` step by step. Each step keeps the invariant, the opens of the temperature clients
where the third client is outside its calls.
-/

namespace TuyaSdk.Saradc
open TuyaSdk.Lib TuyaSdk.DrvModel

variable {s : State} {c : Client}

/-! ## The temperature detection -/

theorem ThirdPc.handles_le (pc : ThirdPc) : pc.handles ≤ 1 := by
  cases pc <;> simp [ThirdPc.handles]

/-- What the slot is like when a temperature client opens. -/
theorem Inv.slot_outside (h : Inv s) (hq : s.third.outside = true) :
    s.dev = counted 0 ∧ s.held = 0 ∧ s.third = .idle ∨
      ∃ n, s.dev = ⟨.opened, n + 1⟩ ∧ s.held + s.third.handles = n + 1 ∧ n < 3 := by
  have hdev := (slotOk_outside hq).mp h.slot
  have hle := held_le s
  have hone := s.third.handles_le
  cases hn : s.held + s.third.handles with
  | zero =>
    rw [hn] at hdev
    obtain ⟨hheld, hthird⟩ := Nat.add_eq_zero_iff.mp hn
    refine .inl ⟨hdev, hheld, ?_⟩
    cases hpc : s.third with
    | idle => rfl
    | checking =>
      rw [hpc] at hthird
      exact absurd hthird Nat.one_ne_zero
    | holding =>
      rw [hpc] at hthird
      exact absurd hthird Nat.one_ne_zero
    | _ =>
      rw [hpc] at hq
      cases hq
  | succ n => exact .inr ⟨n, hdev.trans (by rw [hn]; rfl), rfl, by omega⟩

/-- An open of a device that is closed. -/
theorem ddevOpen_closed (hstate : s.dev.state = .closed) (hrefused : (s.desc c).refused = false)
    (hbusy : s.saradcIsBusy = false) :
    ddevOpen s c = some ({ saradcStart s c with dev := ⟨.opened, 1⟩ }, true) := by
  have hopen : saradcOpen s c = (saradcStart s c, true) := by
    rw [saradcOpen, hrefused, hbusy]
    rfl
  rw [ddevOpen, hstate, hopen]
  rfl

/-- An open of a device that has handles, and the close of the handle that it gave. -/
theorem ddevOpen_opened {n : Nat} (hdev : s.dev = ⟨.opened, n + 1⟩) (hn : n < 3) :
    ddevOpen s c = some ({ s with dev := ⟨.opened, n + 2⟩ }, false) := by
  rw [ddevOpen, hdev]
  simp only [u32_of_lt (show n + 1 + 1 < 2 ^ 32 by omega)]

theorem ddevClose_succ {n : Nat} (hdev : s.dev = ⟨.opened, n + 2⟩) (hn : n < 3) :
    ddevClose s c = { s with dev := ⟨.opened, n + 1⟩, log := s.log ++ [.released c] } := by
  have hsub : sub32 (n + 2) 1 = n + 1 := sub32_of_le (by omega) (by omega)
  simp only [ddevClose, hdev, hsub, if_neg (Nat.succ_ne_zero n)]

theorem tempDetectOpen_keeps (h : Inv s) (hpc : s.detect = .prepared)
    (hq : s.third.outside = true) : ∃ s', tempDetectOpen s = some s' ∧ Inv s' := by
  have hhdl : s.tmpDetectHdl = false := h.detectHdl (by rw [hpc]; exact DetectPc.noConfusion)
  rcases h.slot_outside hq with ⟨hdev, hheld, hidle⟩ | ⟨n, hdev, hcount, hn⟩
  · obtain ⟨hbusy, -⟩ := h.off hheld (by rw [hidle]; rfl) (by rw [hidle]; rfl)
    have hgrants := h.grants.grant (c := .detect) (grants_none hheld (by rw [hidle]; rfl))
    have hopen : tempDetectOpen s = some
        { saradcStart s .detect with
          dev := ⟨.opened, 1⟩
          tmpDetectHdl := true
          detect := .idle } := by
      rw [tempDetectOpen, ddevOpen_closed (by rw [hdev]; rfl) h.detectDesc.refused hbusy]
      rfl
    refine ⟨_, hopen,
      { h with
        grants := hgrants.congr fun c => by cases c <;> rfl
        on := fun _ => ⟨.detect, rfl, h.detectDesc.refused, .inl rfl⟩
        slot := ?_
        detectDesc := ⟨h.detectDesc.refused, h.detectDesc.mode, h.detectDesc.handler⟩
        thirdTested := fun ht => absurd (hidle.symm.trans ht) ThirdPc.noConfusion
        detectHdl := fun hne => absurd rfl hne }⟩
    have hsingle := (held_zero.mp hheld).2
    simp only [State.held, hsingle, saradcStart, State.setDesc, hidle]
    rfl
  · have hopen : tempDetectOpen s = some
        { s with
          log := s.log ++ [.released .detect]
          detect := .idle } := by
      rw [tempDetectOpen, ddevOpen_opened hdev hn, Option.map_some]
      simp only [Bool.false_eq_true, if_false]
      rw [ddevClose_succ (n := n) rfl hn]
      simp only [hdev, hhdl]
    refine ⟨_, hopen,
      { h with
        grants := h.grants.release.congr fun c => ?_
        detectHdl := fun hne => absurd rfl hne }⟩
    cases c with
    | detect => exact hhdl
    | _ => rfl

/-- `temp_detect_enable` keeps the invariant, if it opens outside the calls of the third client. -/
theorem tempDetectEnable_keeps (h : Inv s)
    (hcalm : s.detect = .prepared → s.third.outside = true) :
    ∃ s', tempDetectEnable s = some s' ∧ Inv s' := by
  cases hpc : s.detect with
  | idle =>
    cases hhdl : s.tmpDetectHdl with
    | true => exact ⟨s, by rw [tempDetectEnable, hpc, hhdl]; rfl, h⟩
    | false =>
      refine ⟨{ s with detect := .waiting }, by rw [tempDetectEnable, hpc, hhdl]; rfl, ?_⟩
      exact { h with detectHdl := fun _ => hhdl }
  | waiting =>
    cases hhdl : s.tmpSingleHdl with
    | true => exact ⟨s, by rw [tempDetectEnable, hpc, hhdl]; rfl, h⟩
    | false =>
      refine ⟨_, by rw [tempDetectEnable, hpc, hhdl], ?_⟩
      exact
        { h with
          on := fun hon => (h.on hon).imp fun c hc => hc.setDesc fun _ => h.detectDesc.refused
          detectDesc := ⟨h.detectDesc.refused, h.detectDesc.mode, h.detectDesc.handler⟩
          detectHdl := fun _ => h.detectHdl (by rw [hpc]; exact DetectPc.noConfusion) }
  | prepared =>
    obtain ⟨s', hopen, h'⟩ := tempDetectOpen_keeps h hpc (hcalm hpc)
    exact ⟨s', by rw [tempDetectEnable, hpc]; exact hopen, h'⟩

/-! ## The single shot -/

/-- The open of a device that is closed, with the interrupts off. -/
theorem singleOpen_keeps {v : SingleVars} (h : Inv s) (hpc : s.single = .prepared v)
    (hq : s.third.outside = true) (hstate : s.dev.state = .closed) :
    ∃ s', tempSingleGetCurrentTemperature s false = some s' ∧ Inv s' := by
  rcases h.slot_outside hq with ⟨hdev, hheld, hidle⟩ | ⟨n, hdev, -, -⟩
  swap
  · rw [hdev] at hstate
    cases hstate
  obtain ⟨hbusy, -⟩ := h.off hheld (by rw [hidle]; rfl) (by rw [hidle]; rfl)
  have hdesc := h.singleDesc (.inl (by rw [hpc]; rfl))
  have hgrants := h.grants.grant (c := .single) (grants_none hheld (by rw [hidle]; rfl))
  have hopen : tempSingleGetCurrentTemperature s false = some
      { saradcStart s .single with
        dev := ⟨.opened, 1⟩
        tmpSingleHdl := true
        single := .taking v } := by
    rw [tempSingleGetCurrentTemperature, hpc]
    simp only [ddevOpen_closed hstate hdesc.refused hbusy, Option.map_some]
  refine ⟨_, hopen,
    { h with
      grants := hgrants.congr fun c => by cases c <;> rfl
      on := fun _ => ⟨.single, rfl, hdesc.refused, .inl rfl⟩
      slot := ?_
      singleDesc := fun _ => ⟨hdesc.refused, hdesc.mode, hdesc.handler⟩
      thirdTested := fun ht => absurd (hidle.symm.trans ht) ThirdPc.noConfusion
      singleHdl := SinglePc.noConfusion
      semaphore := fun _ => h.semaphore (by rw [hpc]; exact SinglePc.noConfusion) }⟩
  have hdetect := (held_zero.mp hheld).1
  simp only [State.held, hdetect, saradcStart, State.setDesc, hidle]
  rfl

/-- The loop body of the single shot begins anew. -/
theorem singleRetry_keeps (h : Inv s) (v : SingleVars) : Inv (singleRetry s v) :=
  { h with
    singleDesc := fun hr => h.singleDesc (hr.imp (fun hw => Bool.noConfusion hw) id)
    singleHdl := SinglePc.noConfusion
    semaphore := fun _ => rfl }

/-- `temp_single_get_current_temperature` keeps the invariant, if it opens a device that is closed
and returns without a handle. -/
theorem single_keeps {timeout : Bool} (h : Inv s) (hcalm : Calm s (.single timeout)) :
    ∃ s', tempSingleGetCurrentTemperature s timeout = some s' ∧ Inv s' := by
  rw [Calm] at hcalm
  cases hpc : s.single with
  | idle =>
    exact ⟨_, by rw [tempSingleGetCurrentTemperature, hpc], singleRetry_keeps h ⟨3, 0⟩⟩
  | waiting v =>
    cases hhdl : s.tmpDetectHdl with
    | true => exact ⟨s, by simp only [tempSingleGetCurrentTemperature, hpc, hhdl, if_true], h⟩
    | false =>
      refine ⟨_, by simp only [tempSingleGetCurrentTemperature, hpc, hhdl]; rfl, ?_⟩
      exact
        { h with
          on := fun hon => (h.on hon).imp fun c hc => hc.setDesc fun _ => rfl
          singleDesc := fun _ => tempDesc_ok _
          singleHdl := SinglePc.noConfusion
          semaphore := fun _ => h.semaphore (by rw [hpc]; exact SinglePc.noConfusion) }
  | prepared v =>
    rw [hpc] at hcalm
    obtain ⟨s', hopen, h'⟩ := singleOpen_keeps h hpc hcalm.1 hcalm.2
    refine ⟨s', ?_, h'⟩
    rw [tempSingleGetCurrentTemperature, hpc] at hopen ⊢
    exact hopen
  | taking v =>
    obtain ⟨count, hcount⟩ := Option.isSome_iff_exists.mp
      (h.semaphore (by rw [hpc]; exact SinglePc.noConfusion))
    have hready : s.single.ready = true := by rw [hpc]; rfl
    obtain ⟨p, hp⟩ := pData_of_refused (h.singleDesc (.inl hready)).refused
    cases count with
    | zero =>
      cases timeout with
      | false =>
        refine ⟨s, ?_, h⟩
        simp only [tempSingleGetCurrentTemperature, hpc, hcount, Bool.false_eq_true, if_false]
      | true =>
        refine ⟨{ s with single := .judging v 1 }, ?_, ?_⟩
        · simp only [tempSingleGetCurrentTemperature, hpc, hcount, if_true]
        · exact
            { h with
              singleDesc := fun _ => h.singleDesc (.inl hready)
              singleHdl := SinglePc.noConfusion
              semaphore := fun _ => by rw [hcount]; rfl }
    | succ n =>
      refine ⟨{ s with
        tmpSingleSemaphore := some n
        single := .judging { v with tempValue := (p 0).toNat } 0 }, ?_, ?_⟩
      · simp only [tempSingleGetCurrentTemperature, hpc, hcount, hp]
      · exact
          { h with
            singleDesc := fun _ => h.singleDesc (.inl hready)
            singleHdl := SinglePc.noConfusion
            semaphore := fun _ => rfl }
  | judging v ret =>
    rw [hpc] at hcalm
    cases hlast : v.last with
    | true =>
      refine ⟨_, by simp only [tempSingleGetCurrentTemperature, hpc, hlast, if_true]; rfl, ?_⟩
      exact
        { h with
          singleDesc := fun hr => h.singleDesc (hr.imp (fun hi => Bool.noConfusion hi) id)
          singleHdl := fun _ => hcalm hlast
          semaphore := fun hne => absurd rfl hne }
    | false =>
      refine ⟨_, by simp only [tempSingleGetCurrentTemperature, hpc, hlast]; rfl, ?_⟩
      exact singleRetry_keeps h _

/-! ## The third client -/

/-- While the third client has an open outstanding no temperature client has a handle. -/
theorem Inv.held_of_granted (h : Inv s) (hg : s.third.granted = true) : s.held = 0 := by
  have howner : s.saradcDesc = some .third := h.grants.owner .third hg
  refine held_zero.mpr ⟨?_, ?_⟩
  · by_contra hd
    have hdetect := h.grants.owner .detect (Bool.eq_true_of_not_eq_false hd)
    rw [howner] at hdetect
    cases hdetect
  · by_contra hs
    have hsingle := h.grants.owner .single (Bool.eq_true_of_not_eq_false hs)
    rw [howner] at hsingle
    cases hsingle

/-- The third client goes on: nothing else changes but the slot. -/
theorem Inv.thirdTo {pc : ThirdPc} {dev : Slot} (h : Inv s)
    (hgranted : pc.granted = s.third.granted)
    (hleaving : s.third.leaving = true → s.held = 0 → pc.leaving = true)
    (hslot : SlotOk dev s.held pc)
    (htested : pc = .tested → (s.desc .third).refused = false) :
    Inv { s with dev := dev, third := pc } :=
  { h with
    grants := h.grants.congr fun c => by
      cases c with
      | third => exact hgranted
      | _ => rfl
    on := fun hon => by
      obtain ⟨c, howner, hrefused, hreason⟩ := h.on hon
      refine ⟨c, howner, hrefused, ?_⟩
      rcases hreason with hg | ⟨hc, hl, hheld⟩
      · refine .inl ?_
        cases c with
        | third => exact hgranted.trans hg
        | _ => exact hg
      · exact .inr ⟨hc, hleaving hl hheld, hheld⟩
    slot := hslot
    thirdTested := htested }

/-- The third client calls `ddev_open`. -/
theorem thirdIdle_keeps (h : Inv s) (hpc : s.third = .idle) (d : SaradcDesc) :
    ∃ s', thirdClient s d = some s' ∧ Inv s' := by
  have hslot := h.slot
  rw [hpc] at hslot
  have hdesc : Inv (s.setDesc .third { d with pIntHandler := none }) :=
    { h with
      on := fun hon => by
        obtain ⟨c, hc⟩ := h.on hon
        refine ⟨c, hc.setDesc fun hthird => ?_⟩
        rcases hc.2.2 with hg | ⟨-, hl, -⟩
        · rw [hthird, State.grants, hpc] at hg
          cases hg
        · rw [hpc] at hl
          cases hl
      thirdHandler := rfl
      thirdTested := fun ht => absurd (hpc.symm.trans ht) ThirdPc.noConfusion }
  have hthird : (s.setDesc .third { d with pIntHandler := none }).third = .idle := hpc
  by_cases hheld : s.held = 0
  · have hdev : s.dev = ⟨.closed, 0⟩ := hslot.trans (by rw [hheld]; rfl)
    refine ⟨{ s.setDesc .third { d with pIntHandler := none } with third := .found }, ?_, ?_⟩
    · rw [thirdClient, hpc]
      simp only [State.setDesc, hdev]
    · exact hdesc.thirdTo (by rw [hthird]; rfl) (by rw [hthird]; exact Bool.noConfusion)
        ⟨hheld, hdev⟩ ThirdPc.noConfusion
  · have hdev : s.dev = ⟨.opened, s.held⟩ := hslot.trans (by rw [counted, if_neg hheld])
    refine ⟨{ s.setDesc .third { d with pIntHandler := none } with third := .counting false },
      ?_, ?_⟩
    · rw [thirdClient, hpc]
      simp only [State.setDesc, hdev]
    · exact hdesc.thirdTo (by rw [hthird]; rfl) (by rw [hthird]; exact Bool.noConfusion) hdev
        ThirdPc.noConfusion

/-- The third client calls `ddev_close`. -/
theorem thirdRelease_keeps (h : Inv s) (hpc : s.third = .checking false ∨ s.third = .holding)
    (d : SaradcDesc) : ∃ s', thirdClient s d = some s' ∧ Inv s' := by
  have hdev : s.dev = ⟨.opened, s.held + 1⟩ := by
    have hslot := h.slot
    rcases hpc with hpc | hpc
    · rw [hpc] at hslot
      exact hslot
    · rw [hpc] at hslot
      exact hslot
  have hsub : sub32 (s.held + 1) 1 = s.held :=
    sub32_of_le (by omega) (by have := held_le s; omega)
  have hclose : thirdClient s d = some
      { s with
        dev := ⟨.opened, s.held⟩
        third := .releasing
        log := s.log ++ [.released .third] } := by
    rcases hpc with hpc | hpc
    · simp only [thirdClient, hpc, hdev, hsub]
    · simp only [thirdClient, hpc, hdev, hsub]
  refine ⟨_, hclose,
    { h with
      grants := h.grants.release.congr fun c => by cases c <;> rfl
      on := fun hon => ?_
      slot := rfl
      thirdTested := ThirdPc.noConfusion }⟩
  obtain ⟨c, howner, hrefused, hreason⟩ := h.on hon
  refine ⟨c, howner, hrefused, ?_⟩
  rcases hreason with hg | ⟨-, hl, -⟩
  · cases c with
    | third => exact .inr ⟨rfl, rfl, h.held_of_granted hg⟩
    | _ => exact .inl hg
  · rcases hpc with hpc | hpc
    · rw [hpc] at hl
      cases hl
    · rw [hpc] at hl
      cases hl

/-- The third client closes the converter. -/
theorem thirdClosing_keeps (h : Inv s) (hpc : s.third = .closing) :
    Inv { saradcClose s .third with third := .closed } := by
  have hslot := h.slot
  rw [hpc] at hslot
  have hnone := grants_none hslot.1 (by rw [hpc]; rfl)
  exact
    { h with
      grants := (h.grants.disable fun c' _ => hnone c').congr fun c => by
        cases c with
        | third => exact (congrArg ThirdPc.granted hpc).symm
        | _ => rfl
      on := by rintro (hb | hi) <;> cases ‹_›
      slot := hslot
      thirdTested := ThirdPc.noConfusion }

/-- The third client keeps the invariant, whatever its descriptor. -/
theorem thirdClient_keeps (h : Inv s) (d : SaradcDesc) :
    ∃ s', thirdClient s d = some s' ∧ Inv s' := by
  have hslot := h.slot
  cases hpc : s.third with
  | idle => exact thirdIdle_keeps h hpc d
  | found =>
    rw [hpc] at hslot
    refine ⟨_, by rw [thirdClient, hpc], h.thirdTo ?_ ?_ ?_ ?_⟩
    · rw [hpc]
      split <;> rfl
    · rw [hpc]
      exact Bool.noConfusion
    · split <;> exact hslot
    · intro ht
      split at ht
      · cases ht
      · next hok => exact (Bool.or_eq_false_iff.mp (Bool.eq_false_of_not_eq_true hok)).1
  | tested =>
    rw [hpc] at hslot
    have hnone := grants_none hslot.1 (by rw [hpc]; rfl)
    have hstep : thirdClient s d = some { saradcStart s .third with third := .called true } := by
      rw [thirdClient, hpc]
    exact ⟨_, hstep,
      { h with
        grants := (h.grants.grant hnone).congr fun c => by cases c <;> rfl
        on := fun _ => ⟨.third, rfl, h.thirdTested hpc, .inl rfl⟩
        slot := hslot
        thirdHandler := h.thirdHandler
        thirdTested := ThirdPc.noConfusion }⟩
  | called ok =>
    rw [hpc] at hslot
    refine ⟨_, by rw [thirdClient, hpc], h.thirdTo ?_ ?_ ?_ ThirdPc.noConfusion⟩
    · rw [hpc]
      rfl
    · rw [hpc]
      exact Bool.noConfusion
    · rw [hslot.1]
      rfl
  | counting ok =>
    rw [hpc] at hslot
    have hdev : s.dev = ⟨.opened, s.held⟩ := hslot
    have hle := held_le s
    have hstep : thirdClient s d =
        some { s with dev := ⟨.opened, s.held + 1⟩, third := .checking ok } := by
      simp only [thirdClient, hpc, hdev, u32_of_lt (show s.held + 1 < 2 ^ 32 by omega)]
    refine ⟨_, hstep, h.thirdTo ?_ ?_ rfl ThirdPc.noConfusion⟩
    · rw [hpc]
      rfl
    · rw [hpc]
      exact Bool.noConfusion
  | checking ok =>
    cases ok with
    | false => exact thirdRelease_keeps h (.inl hpc) d
    | true =>
      rw [hpc] at hslot
      have hstep : thirdClient s d = some { s with third := .holding } := by
        rw [thirdClient, hpc]
      refine ⟨_, hstep, h.thirdTo ?_ ?_ hslot ThirdPc.noConfusion⟩
      · rw [hpc]
        rfl
      · rw [hpc]
        exact Bool.noConfusion
  | holding => exact thirdRelease_keeps h (.inr hpc) d
  | releasing =>
    rw [hpc] at hslot
    have hdev : s.dev = ⟨.opened, s.held⟩ := hslot
    by_cases hheld : s.held = 0
    · have hstep : thirdClient s d = some { s with third := .closing } := by
        simp only [thirdClient, hpc, hdev, if_pos hheld]
      refine ⟨_, hstep, h.thirdTo ?_ (fun _ _ => rfl) ⟨hheld, by rw [hdev, hheld]⟩
        ThirdPc.noConfusion⟩
      rw [hpc]
      rfl
    · have hstep : thirdClient s d = some { s with third := .idle } := by
        simp only [thirdClient, hpc, hdev, if_neg hheld]
      refine ⟨_, hstep, h.thirdTo ?_ (fun _ h0 => absurd h0 hheld) ?_ ThirdPc.noConfusion⟩
      · rw [hpc]
        rfl
      · exact hdev.trans (by rw [counted, if_neg hheld])
  | closing => exact ⟨_, by rw [thirdClient, hpc], thirdClosing_keeps h hpc⟩
  | closed =>
    rw [hpc] at hslot
    have hstep : thirdClient s d = some { s with dev := ⟨.closed, 0⟩, third := .idle } := by
      simp only [thirdClient, hpc, hslot.2]
    refine ⟨_, hstep, h.thirdTo ?_ ?_ ?_ ThirdPc.noConfusion⟩
    · rw [hpc]
      rfl
    · rw [hpc]
      exact Bool.noConfusion
    · rw [hslot.1]
      rfl

end TuyaSdk.Saradc
