import TuyaSdk.Saradc.Clients

/-!
# Sharing the converter

The interrupt fills the buffer of the client that the converter runs for, and closes for a
temperature client. So the invariant holds along every run of calm steps, and where all clients are
done the device is closed (`sharingOk_of_calm`).
-/

namespace TuyaSdk.Saradc
open TuyaSdk.Lib TuyaSdk.DrvModel

variable {s : State} {c : Client} {e : Event}

/-! ## The interrupt -/

/-- Data and count of a descriptor change. -/
theorem Inv.withData (h : Inv s) (hrefused : (s.desc c).refused = false) (p : Nat → UInt16)
    (n : UInt8) :
    Inv (s.setDesc c { s.desc c with pData := some p, currentSampleDataCnt := n }) := by
  have hnew : { s.desc c with pData := some p, currentSampleDataCnt := n }.refused = false := by
    obtain ⟨q, hq⟩ := pData_of_refused hrefused
    rw [SaradcDesc.refused, hq] at hrefused
    exact hrefused
  have hon := fun hon => (h.on hon).imp fun c' hc => hc.setDesc (c := c) fun _ => hnew
  cases c with
  | detect =>
    exact
      { h with
        on := hon
        detectDesc := ⟨hnew, h.detectDesc.mode, h.detectDesc.handler⟩ }
  | single =>
    exact
      { h with
        on := hon
        singleDesc := fun hr => ⟨hnew, (h.singleDesc hr).mode, (h.singleDesc hr).handler⟩ }
  | third =>
    exact
      { h with
        on := hon
        thirdHandler := h.thirdHandler
        thirdTested := fun _ => hnew }

theorem Inv.note (h : Inv s) (hg : Grants (s.log ++ [e]) s.saradcDesc s.grants) :
    Inv (s.note e) :=
  { h with grants := hg }

/-- One sample goes into the buffer of the client that the converter runs for. -/
theorem sample_keeps {p : Nat → UInt16} (dacVal : UInt16) (h : Inv s) (hc : RunsFor s c)
    (hp : (s.desc c).pData = some p)
    (hlt : (s.desc c).currentSampleDataCnt < (s.desc c).dataBuffSize) :
    ∃ s₁, (s.setDesc c { s.desc c with
        pData := some (Function.update p (s.desc c).currentSampleDataCnt.toNat dacVal)
        currentSampleDataCnt := (s.desc c).currentSampleDataCnt + 1 }).note
        (.sample c (s.desc c).currentSampleDataCnt.toNat (s.desc c).dataBuffSize.toNat) = s₁ ∧
      Inv s₁ ∧ RunsFor s₁ c ∧ s₁.third = s.third ∧
      s₁.desc c = { s.desc c with
        pData := some (Function.update p (s.desc c).currentSampleDataCnt.toNat dacVal)
        currentSampleDataCnt := (s.desc c).currentSampleDataCnt + 1 } := by
  have hg := h.grants
  rw [hc.1] at hg
  refine ⟨_, rfl, (h.withData hc.2.1 _ _).note ?_, ?_, rfl, Function.update_self ..⟩
  · change Grants _ s.saradcDesc _
    rw [hc.1]
    exact hg.sample (UInt8.lt_iff_toNat_lt.mp hlt)
  · refine RunsFor.setDesc hc fun _ => ?_
    have hrefused := hc.2.1
    rw [SaradcDesc.refused, hp] at hrefused
    exact hrefused

/-- The samples go into the buffer of the client that the converter runs for. The buffer is filled
only if there are enough of them. -/
theorem isrLoop_keeps (fifo : List UInt16) (h : Inv s) (hc : RunsFor s c) :
    ∃ s', isrLoop c fifo s = some s' ∧ Inv s' ∧ RunsFor s' c ∧ s'.third = s.third ∧
      (s'.desc c).pIntHandler = (s.desc c).pIntHandler ∧
      ((s'.desc c).dataBuffSize ≤ (s'.desc c).currentSampleDataCnt →
        (s.desc c).dataBuffSize.toNat ≤ (s.desc c).currentSampleDataCnt.toNat + fifo.length) := by
  induction fifo generalizing s with
  | nil => exact ⟨s, rfl, h, hc, rfl, rfl, UInt8.le_iff_toNat_le.mp⟩
  | cons dacVal fifo ih =>
    by_cases hlt : (s.desc c).currentSampleDataCnt < (s.desc c).dataBuffSize
    · obtain ⟨p, hp⟩ := pData_of_refused hc.2.1
      have hlt' := UInt8.lt_iff_toNat_lt.mp hlt
      obtain ⟨s₁, hs₁, h₁, hc₁, hthird, hdesc⟩ := sample_keeps dacVal h hc hp hlt
      have hnext : (s₁.desc c).currentSampleDataCnt.toNat =
          (s.desc c).currentSampleDataCnt.toNat + 1 := by
        rw [hdesc]
        have hmax := (s.desc c).dataBuffSize.toNat_lt
        simp only [UInt8.toNat_add, UInt8.toNat_one]
        omega
      have hsize : (s₁.desc c).dataBuffSize = (s.desc c).dataBuffSize := by rw [hdesc]
      have hhandler : (s₁.desc c).pIntHandler = (s.desc c).pIntHandler := by rw [hdesc]
      by_cases hfull : (s.desc c).currentSampleDataCnt + 1 = (s.desc c).dataBuffSize
      · refine ⟨s₁.note (.disabled c), ?_, h₁.note ?_, hc₁, hthird, hhandler, fun _ => ?_⟩
        · simp only [isrLoop, if_pos hlt, hp, Option.bind_some, if_pos hfull, hs₁]
        · have hg := h₁.grants
          rw [hc₁.1] at hg ⊢
          exact hg.disable hg.others
        · have hlast := congrArg UInt8.toNat hfull
          rw [hdesc] at hnext
          simp only at hnext
          rw [List.length_cons]
          omega
      · obtain ⟨s', hs', h', hc', hthird', hhandler', hcount⟩ := ih h₁ hc₁
        refine ⟨s', ?_, h', hc', hthird'.trans hthird, hhandler'.trans hhandler, fun hle => ?_⟩
        · simp only [isrLoop, if_pos hlt, hp, Option.bind_some, if_neg hfull, hs₁, hs']
        · have hcount := hcount hle
          rw [hnext, hsize] at hcount
          rw [List.length_cons]
          omega
    · refine ⟨s, ?_, h, hc, rfl, rfl, fun hle => ?_⟩
      · simp only [isrLoop, if_neg hlt]
      · exact Nat.le_add_right_of_le (UInt8.le_iff_toNat_le.mp hle)

/-- A temperature client closes its handle, and the converter with it. -/
theorem ensureClose_ddevClose {m : Nat} (hdev : s.dev = counted (m + 1)) (hm : m < 3)
    (hc : s.saradcDesc = some c) (hmode : (s.desc c).mode &&& adcConfigModeShouldOff ≠ 0)
    (hg : Grants s.log (some c) s.grants) :
    ∃ log', Grants log' (some c) (Function.update s.grants c false) ∧
      saradcEnsureClose (ddevClose s c) c = some
        { s with
          dev := counted m
          saradcIsBusy := false
          intEnabled := false
          log := log' } := by
  have hsub : sub32 (m + 1) 1 = m := sub32_of_le (by omega) (by omega)
  have hothers : ∀ c', c' ≠ c → Function.update s.grants c false c' = false := fun c' hc' =>
    (Function.update_of_ne hc' ..).trans (hg.others c' hc')
  have hdev' : s.dev = ⟨.opened, m + 1⟩ := hdev
  cases m with
  | zero =>
    refine ⟨_, ((hg.release (c := c)).disable hothers).disable hothers, ?_⟩
    simp only [ddevClose, hdev', hsub, if_true, saradcEnsureClose, saradcClose, hc, Option.map_some,
      if_pos hmode]
    rfl
  | succ m =>
    refine ⟨_, (hg.release (c := c)).disable hothers, ?_⟩
    simp only [ddevClose, hdev', hsub, if_neg (Nat.succ_ne_zero m), saradcEnsureClose, saradcClose,
      hc, Option.map_some, if_pos hmode]
    rfl

/-- The count of the handles with that of one client left out. -/
theorem Inv.counted_of_hdl (h : Inv s) (hq : s.third.outside = true) (hheld : 0 < s.held) :
    ∃ m, s.dev = counted (m + 1) ∧ m < 3 ∧ m + 1 = s.held + s.third.handles := by
  have hle := held_le s
  have hone := s.third.handles_le
  refine ⟨s.held + s.third.handles - 1, ?_, by omega, by omega⟩
  rw [Nat.sub_add_cancel (by omega)]
  exact (slotOk_outside hq).mp h.slot

theorem ensureClose_detectHdl (s : State) (b : Bool) :
    saradcEnsureClose { s with tmpDetectHdl := b } c =
      (saradcEnsureClose s c).map fun s => { s with tmpDetectHdl := b } := by
  simp only [saradcEnsureClose, Option.map_map]
  congr 1
  funext owner
  rw [Function.comp_apply]
  split <;> rfl

theorem tempDetectHandler_keeps (h : Inv s) (hc : RunsFor s .detect)
    (hq : s.third.outside = true) : ∃ s', tempDetectHandler s = some s' ∧ Inv s' := by
  have hhdl : s.tmpDetectHdl = true := by
    rcases hc.2.2 with hg | ⟨hthird, -⟩
    · exact hg
    · cases hthird
  by_cases hfull : (s.desc .detect).dataBuffSize ≤ (s.desc .detect).currentSampleDataCnt
  swap
  · exact ⟨s, by simp only [tempDetectHandler, hhdl, if_neg hfull]; rfl, h⟩
  have hheld : s.held = 1 + s.tmpSingleHdl.toNat := by rw [State.held, hhdl]; rfl
  obtain ⟨m, hdev, hm, hsum⟩ := h.counted_of_hdl hq (by omega)
  obtain ⟨log', hg, hclose⟩ :=
    ensureClose_ddevClose hdev hm hc.1 h.detectDesc.mode (hc.1 ▸ h.grants)
  obtain ⟨p, hp⟩ := pData_of_refused hc.2.1
  have hdisable : tempDetectDisable s = some
      { s with
        dev := counted m
        saradcIsBusy := false
        intEnabled := false
        tmpDetectHdl := false
        log := log' } := by
    simp only [tempDetectDisable, hhdl, if_true]
    rw [ensureClose_detectHdl, hclose]
    rfl
  have h' : Inv
      { s with
        dev := counted m
        saradcIsBusy := false
        intEnabled := false
        tmpDetectHdl := false
        log := log' } :=
    { h with
      grants := by
        change Grants log' s.saradcDesc _
        rw [hc.1]
        exact hg.congr fun c => by cases c <;> rfl
      on := by rintro (hb | hi) <;> cases ‹_›
      slot := by
        refine (slotOk_outside hq).mpr (congrArg counted ?_)
        change m = (0 + s.tmpSingleHdl.toNat) + s.third.handles
        omega
      detectHdl := fun _ => rfl }
  refine ⟨_, ?_, h'.withData (c := .detect) hc.2.1 (Function.update p 0 (detectValue p))
    (s.desc .detect).currentSampleDataCnt⟩
  simp only [tempDetectHandler, hhdl, Bool.true_eq_false, if_false, if_pos hfull, hdisable,
    Option.bind_some, storeFirst, hp, Option.map_some]

theorem Inv.setSemaphore (h : Inv s) (n : Nat) : Inv { s with tmpSingleSemaphore := some n } :=
  { h with semaphore := fun _ => rfl }

theorem tempSingleDetectHandler_keeps (h : Inv s) (hc : RunsFor s .single)
    (hq : s.third.outside = true) : ∃ s', tempSingleDetectHandler s = some s' ∧ Inv s' := by
  have hhdl : s.tmpSingleHdl = true := by
    rcases hc.2.2 with hg | ⟨hthird, -⟩
    · exact hg
    · cases hthird
  by_cases hfull : (s.desc .single).dataBuffSize ≤ (s.desc .single).currentSampleDataCnt
  swap
  · exact ⟨s, by simp only [tempSingleDetectHandler, if_neg hfull], h⟩
  have hdesc := h.singleDesc (.inr hhdl)
  have hbusy : s.single ≠ .idle := fun hidle =>
    Bool.noConfusion (hhdl.symm.trans (h.singleHdl hidle))
  have hheld : s.held = s.tmpDetectHdl.toNat + 1 := by rw [State.held, hhdl]; rfl
  obtain ⟨m, hdev, hm, hsum⟩ := h.counted_of_hdl hq (by omega)
  obtain ⟨log', hg, hclose⟩ := ensureClose_ddevClose hdev hm hc.1 hdesc.mode (hc.1 ▸ h.grants)
  obtain ⟨p, hp⟩ := pData_of_refused hc.2.1
  obtain ⟨count, hcount⟩ := Option.isSome_iff_exists.mp (h.semaphore hbusy)
  have hdisable : tempSingleGetDisable s = some
      { s with
        dev := counted m
        saradcIsBusy := false
        intEnabled := false
        tmpSingleHdl := false
        log := log' } := by
    simp only [tempSingleGetDisable, hhdl, if_true, hclose, Option.map_some]
  have h' : Inv
      { s with
        dev := counted m
        saradcIsBusy := false
        intEnabled := false
        tmpSingleHdl := false
        log := log' } :=
    { h with
      grants := by
        change Grants log' s.saradcDesc _
        rw [hc.1]
        exact hg.congr fun c => by cases c <;> rfl
      on := by rintro (hb | hi) <;> cases ‹_›
      slot := by
        refine (slotOk_outside hq).mpr (congrArg counted ?_)
        change m = (s.tmpDetectHdl.toNat + 0) + s.third.handles
        omega
      singleDesc := fun _ => hdesc
      singleHdl := fun _ => rfl }
  have hstored := h'.withData (c := .single) hc.2.1 (Function.update p 0 (singleValue p))
    (s.desc .single).currentSampleDataCnt
  refine ⟨_, ?_, hstored.setSemaphore 1⟩
  simp only [tempSingleDetectHandler, if_pos hfull, hdisable, Option.bind_eq_bind,
    Option.bind_some, storeFirst, hp, Option.map_some, State.setDesc, hcount]

/-- The interrupt keeps the invariant, if it completes a conversion of a temperature client outside
the calls of the third one. -/
theorem saradcIsr_keeps {fifo : List UInt16} (h : Inv s) (hint : s.intEnabled = true)
    (hcalm : s.completes fifo = true → s.third.outside = true) :
    ∃ s', saradcIsr s fifo = some s' ∧ Inv s' := by
  obtain ⟨c, hc⟩ := h.on (.inr hint)
  obtain ⟨s₁, hs₁, h₁, hc₁, hthird, hhandler, hcount⟩ := isrLoop_keeps fifo h hc
  by_cases hfull : (s₁.desc c).dataBuffSize ≤ (s₁.desc c).currentSampleDataCnt
  swap
  · refine ⟨s₁, ?_, h₁⟩
    simp only [saradcIsr, hc.1, Option.bind_some, hs₁, if_neg hfull]
  cases hh : (s₁.desc c).pIntHandler with
  | none =>
    refine ⟨s₁, ?_, h₁⟩
    simp only [saradcIsr, hc.1, Option.bind_some, hs₁, if_pos hfull, hh]
  | some handler =>
    have hisr : saradcIsr s fifo = handler.run s₁ := by
      simp only [saradcIsr, hc.1, Option.bind_some, hs₁, if_pos hfull, hh]
    have hcompletes : s.completes fifo = true := by
      rw [State.completes, hint, hc.1, Option.any_some, ← hhandler, hh]
      exact decide_eq_true (hcount hfull)
    have hq : s₁.third.outside = true := by
      rw [hthird]
      exact hcalm hcompletes
    rw [hisr]
    cases c with
    | detect =>
      cases h₁.detectDesc.handler.symm.trans hh
      exact tempDetectHandler_keeps h₁ hc₁ hq
    | single =>
      have hhdl : s₁.tmpSingleHdl = true := by
        rcases hc₁.2.2 with hg | ⟨hthird, -⟩
        · exact hg
        · cases hthird
      cases (h₁.singleDesc (.inr hhdl)).handler.symm.trans hh
      exact tempSingleDetectHandler_keeps h₁ hc₁ hq
    | third =>
      rw [h₁.thirdHandler] at hh
      cases hh

/-! ## Runs -/

/-- A calm step returns and keeps the invariant. -/
theorem step_keeps {input : Input} (h : Inv s) (hcalm : Calm s input) :
    ∃ s', step s input = some (s', ()) ∧ Inv s' := by
  have hmap : ∀ {r : Option State}, (∃ s', r = some s' ∧ Inv s') →
      ∃ s', r.map (·, ()) = some (s', ()) ∧ Inv s' := by
    rintro r ⟨s', rfl, h'⟩
    exact ⟨s', rfl, h'⟩
  cases input with
  | detect => exact hmap (tempDetectEnable_keeps h hcalm)
  | single timeout => exact hmap (single_keeps h hcalm)
  | third d => exact hmap (thirdClient_keeps h d)
  | isr fifo =>
    refine hmap ?_
    cases hint : s.intEnabled with
    | false => exact ⟨s, rfl, h⟩
    | true => exact saradcIsr_keeps h hint hcalm

/-- The converter is shared as it should be, in every state of the invariant. -/
theorem Inv.sharingOk (h : Inv s) : SharingOk s := by
  refine ⟨h.grants.events, fun hfin => ?_⟩
  have hdetect : s.tmpDetectHdl = false := (h.grants.outstanding .detect).symm.trans hfin.released
  have hsingle := h.singleHdl hfin.single
  have hheld : s.held = 0 := held_zero.mpr ⟨hdetect, hsingle⟩
  have hslot := h.slot
  rw [hfin.third, hheld] at hslot
  obtain ⟨hbusy, -⟩ := h.off hheld (by rw [hfin.third]; rfl) (by rw [hfin.third]; rfl)
  refine ⟨hslot, hbusy, hdetect, hsingle, fun c hc => ?_⟩
  rw [ddevOpen_closed (congrArg Slot.state hslot) hc hbusy]
  rfl

/-- Every run whose steps are calm returns, and in each of its states the converter is shared as it
should be. -/
theorem sharingOk_of_calm (inputs : List Input)
    (h : Machine.Legal step Calm State.init inputs) :
    (Machine.run step State.init inputs).isSome ∧
      ∀ n s os, Machine.run step State.init (inputs.take n) = some (s, os) → SharingOk s := by
  have hstep : ∀ (s : State) (_ : List Unit) (input : Input), Inv s → Calm s input →
      ∃ s' o, step s input = some (s', o) ∧ Inv s' := by
    intro s _ input hs hcalm
    obtain ⟨s', hs', h'⟩ := step_keeps hs hcalm
    exact ⟨s', (), hs', h'⟩
  obtain ⟨s', os, hrun, -⟩ := Machine.run_total hstep Inv.init h
  refine ⟨by rw [hrun]; rfl, fun n s os hn => ?_⟩
  have hkeep : ∀ s input s' o, Inv s → Calm s input → step s input = some (s', o) → Inv s' := by
    intro s input s' o hs hcalm hs'
    obtain ⟨t, ht, h'⟩ := step_keeps hs hcalm
    cases ht.symm.trans hs'
    exact h'
  exact (Machine.always_of_legal hkeep Inv.init h n hn).sharingOk

/-- A descriptor of the third client, for four samples. -/
def fourSamples : SaradcDesc where
  pData := some fun _ => 0
  currentSampleDataCnt := 0
  dataBuffSize := 4
  channel := 1
  mode := adcConfigModeContinue
  pIntHandler := none

/-- The third client opens the device, samples and closes it, then the single shot is made, and
then the temperature detection. -/
def oneByOne : List Input :=
  List.replicate 6 (Input.third fourSamples) ++ [Input.isr [1, 2, 3, 4]] ++
    List.replicate 4 (Input.third fourSamples) ++
    [Input.single false, Input.single false, Input.single false,
      Input.isr (List.replicate 10 1200), Input.single false, Input.single false, Input.detect,
      Input.detect, Input.detect, Input.isr (List.replicate 10 1200)]

theorem sharingOk_oneByOne :
    (Machine.run step State.init oneByOne).isSome ∧
      ∀ n s os, Machine.run step State.init (oneByOne.take n) = some (s, os) → SharingOk s :=
  sharingOk_of_calm oneByOne (Machine.legal_of_check (by decide +kernel))

/-! ## Steps that are not calm -/

theorem not_sharingOk_of_run {inputs : List Input} {wrong : State → Bool}
    (hwrong : ∀ s, wrong s = true → ¬SharingOk s)
    (h : (Machine.run step State.init inputs).any (fun r => wrong r.1) = true) :
    ∃ s os, Machine.run step State.init inputs = some (s, os) ∧ ¬SharingOk s := by
  obtain ⟨⟨s, os⟩, hr, hs⟩ := (Option.any_eq_true _ _).mp h
  exact ⟨s, os, hr, hwrong s hs⟩

/-- All clients are done, and the device has a handle. -/
def leftOpen (s : State) : Bool :=
  s.detect = .idle ∧ outstanding s.log .detect = false ∧ s.single = .idle ∧ s.third = .idle ∧
    0 < s.dev.useCnt

theorem not_sharingOk_of_leftOpen (s : State) (h : leftOpen s = true) : ¬SharingOk s := by
  intro hok
  obtain ⟨hdetect, hout, hsingle, hthird, hcnt⟩ := of_decide_eq_true h
  have hclosed := hok.finished ⟨hdetect, hout, hsingle, hthird⟩
  rw [hclosed.dev] at hcnt
  exact Nat.lt_irrefl 0 hcnt

/-- The single shot opens the device while the third client has it. The third client closes its
handle, and the three waits of the single shot time out. -/
def singleBehindThird : List Input :=
  List.replicate 6 (Input.third fourSamples) ++ List.replicate 3 (Input.single false) ++
    List.replicate 2 (Input.third fourSamples) ++ List.replicate 10 (Input.single true)

theorem not_forall_sharingOk :
    ¬∀ (inputs : List Input) (n : Nat) (s : State) (os : List Unit),
      Machine.run step State.init (inputs.take n) = some (s, os) → SharingOk s := by
  intro hall
  obtain ⟨s, os, hr, hnot⟩ : ∃ s os, Machine.run step State.init
      (singleBehindThird.take singleBehindThird.length) = some (s, os) ∧ ¬SharingOk s :=
    not_sharingOk_of_run not_sharingOk_of_leftOpen (by decide +kernel)
  exact hnot (hall _ _ s os hr)

/-- Two conversions give no temperature, and the wait for the third one times out: only the return
of the single shot is not calm. -/
theorem not_sharingOk_lastTry :
    ∃ s os, Machine.run step State.init
      (.single false ::
        ((List.replicate 2 [.single false, .single false, .isr (List.replicate 10 0),
          .single false, .single false]).flatten ++
        [.single false, .single false, .single true, .single false])) = some (s, os) ∧
      ¬SharingOk s :=
  not_sharingOk_of_run not_sharingOk_of_leftOpen (by decide +kernel)

/-- The log ends with a close by the third client under the temperature detection. -/
def closedUnderDetect (s : State) : Bool :=
  s.log = [.granted .detect, .granted .third, .released .third, .disabled .third]

theorem not_sharingOk_of_closedUnder (s : State) (h : closedUnderDetect s = true) :
    ¬SharingOk s := by
  intro hok
  have hnone := hok.events [.granted .detect, .granted .third, .released .third]
    (.disabled .third) [] (of_decide_eq_true h) .detect (by decide)
  exact absurd hnone (by decide)

/-- The temperature detection opens the device when the third client, in its `saradc_open`, has
found it free: only that open is not calm. -/
theorem not_sharingOk_race :
    ∃ s os, Machine.run step State.init
      ([.detect, .detect, .third fourSamples, .third fourSamples, .detect] ++
        List.replicate 8 (.third fourSamples)) = some (s, os) ∧ ¬SharingOk s :=
  not_sharingOk_of_run not_sharingOk_of_closedUnder (by decide +kernel)

end TuyaSdk.Saradc
