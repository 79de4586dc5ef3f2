import TuyaSdk.Saradc.Defs

/-!
# The device in the driver model

The calls of the temperature clients are those of the driver model on the device's slot, and the
steps of the third client, one behind the other, come to the same.
-/

namespace TuyaSdk.Saradc
open TuyaSdk.Lib TuyaSdk.DrvModel

variable {s s' : State} {c : Client} {ok : Bool} {tbl : DrvDevTbl} {i : Nat}

/-- `SARADC_DEV_NAME` -/
def saradcDevName : Name := [0x73, 0x61, 0x72, 0x61, 0x64, 0x63]

/-- Slot `i` of the table is that of the device, which is registered with both callbacks. -/
structure Shows (tbl : DrvDevTbl) (i : Nat) (dev : Slot) : Prop where
  found : findName tbl saradcDevName ddMaxDev 0 = some (some i)
  op : (tbl i).op = some ⟨true, true⟩
  state : (tbl i).state = dev.state
  useCnt : (tbl i).useCnt = dev.useCnt

theorem findName_congr {tbl' : DrvDevTbl} (h : ∀ j, (tbl' j).name = (tbl j).name) (devName : Name)
    (n k : Nat) : findName tbl' devName n k = findName tbl devName n k := by
  induction n generalizing k with
  | zero => rfl
  | succ n ih => rw [findName, findName, h k, ih (k + 1)]

/-- The slot of the device changes its state and its count. -/
theorem Shows.update {dev dev' : Slot} {d : DrvDev} (h : Shows tbl i dev)
    (hname : d.name = (tbl i).name) (hop : d.op = (tbl i).op) (hstate : d.state = dev'.state)
    (hcnt : d.useCnt = dev'.useCnt) : Shows (Function.update tbl i d) i dev' := by
  have hnames : ∀ j, (Function.update tbl i d j).name = (tbl j).name := by
    intro j
    by_cases hj : j = i
    · rw [hj, Function.update_self, hname]
    · rw [Function.update_of_ne hj]
  refine ⟨(findName_congr hnames _ _ _).trans h.found, ?_, ?_, ?_⟩
  · rw [Function.update_self, hop, h.op]
  · rw [Function.update_self, hstate]
  · rw [Function.update_self, hcnt]

/-- `ddev_open` of the driver model. -/
theorem ddevOpen_table (h : Shows tbl i s.dev) (hopen : ddevOpen s c = some (s', ok))
    (opFlag : Nat) :
    ∃ tbl' status callbacks,
      DrvModel.ddevOpen tbl saradcDevName false opFlag (if (saradcOpen s c).2 then 0 else 1) =
        some (tbl', ⟨(ddevMakeHandle i).toNat, some status, callbacks⟩) ∧
      Shows tbl' i s'.dev ∧ (status = 0 ↔ ok = true) := by
  have hlen : (false || decide (ddMaxNameLen < saradcDevName.length)) ≠ true := by decide
  rw [DrvModel.ddevOpen, if_neg hlen, h.found]
  simp only [h.state]
  cases hstate : s.dev.state with
  | opened =>
    simp only [ddevOpen, hstate] at hopen
    cases hopen
    refine ⟨_, drvFailure, [], rfl, ?_, iff_of_false (by decide) Bool.false_ne_true⟩
    exact h.update rfl rfl rfl (by rw [h.useCnt])
  | closed =>
    simp only [ddevOpen, hstate] at hopen
    cases hopen
    refine ⟨_, _, _, rfl, h.update rfl rfl rfl rfl, ?_⟩
    rw [h.op]
    cases (saradcOpen s c).2 <;> decide
  | _ =>
    rw [ddevOpen, hstate] at hopen
    cases hopen

/-- `ddev_close` of the driver model. -/
theorem ddevClose_table (h : Shows tbl i s.dev) (hi : i < ddMaxDev) :
    ∃ tbl' callbacks,
      DrvModel.ddevClose tbl (ddevMakeHandle i) = some (tbl', ⟨drvSuccess, none, callbacks⟩) ∧
      Shows tbl' i (ddevClose s c).dev ∧
      (callbacks = [.close i] ↔ (ddevClose s c).log = s.log ++ [.released c] ++ [.disabled c]) := by
  rw [DrvModel.ddevClose, ddevGetId_makeHandle hi]
  simp only [if_neg (Nat.not_le.mpr hi), h.useCnt, h.op]
  by_cases hz : sub32 s.dev.useCnt 1 = 0
  · refine ⟨_, _, if_pos hz, ?_, ?_⟩
    · simp only [ddevClose, if_pos hz]
      exact h.update rfl h.op.symm rfl rfl
    · simp only [ddevClose, if_pos hz]
      exact iff_of_true rfl rfl
  · refine ⟨_, _, if_neg hz, ?_, ?_⟩
    · simp only [ddevClose, if_neg hz]
      exact h.update rfl h.op.symm h.state rfl
    · simp only [ddevClose, if_neg hz]
      exact iff_of_false (fun hc => List.cons_ne_nil _ _ hc.symm) (by simp)

/-- A step of the third client before others. -/
theorem run_third {s₁ : State} {d : SaradcDesc} {n : Nat} (h : thirdClient s d = some s₁) :
    Machine.run step s (List.replicate (n + 1) (.third d)) =
      (Machine.run step s₁ (List.replicate n (.third d))).map fun r => (r.1, () :: r.2) := by
  have hstep : step s (.third d) = some (s₁, ()) := by
    simp only [step, h, Option.map_some]
  rw [List.replicate_succ, Machine.run, hstep]

/-- The open of the third client without an interruption. -/
theorem thirdClient_open (hpc : s.third = .idle) (d : SaradcDesc)
    (hopen : ddevOpen (s.setDesc .third { d with pIntHandler := none }) .third = some (s', ok)) :
    ∃ n, Machine.run step s (List.replicate n (.third d)) =
      some ({ s' with third := .checking ok }, List.replicate n ()) := by
  generalize ht : s.setDesc .third { d with pIntHandler := none } = t at hopen
  rw [ddevOpen] at hopen
  cases hstate : t.dev.state with
  | opened =>
    rw [hstate] at hopen
    cases hopen
    have hfirst : thirdClient s d = some { t with third := .counting false } := by
      simp only [thirdClient, hpc, ht, hstate]
    have hcounted : thirdClient { t with third := .counting false } d = some
        { t with dev := ⟨.opened, u32 (t.dev.useCnt + 1)⟩, third := .checking false } := by
      simp only [thirdClient, hstate]
    refine ⟨2, ?_⟩
    rw [run_third hfirst, run_third hcounted, List.replicate_zero, Machine.run_nil]
    rfl
  | closed =>
    rw [hstate] at hopen
    cases hopen
    have hfirst : thirdClient s d = some { t with third := .found } := by
      simp only [thirdClient, hpc, ht, hstate]
    by_cases hfail : ((t.desc .third).refused || t.saradcIsBusy) = true
    · have hcalled : thirdClient { t with third := .found } d =
          some { t with third := .called false } := by
        simp only [thirdClient, if_pos hfail]
      refine ⟨4, ?_⟩
      rw [run_third hfirst, run_third hcalled, run_third rfl, run_third rfl, List.replicate_zero,
        Machine.run_nil, saradcOpen, if_pos hfail]
      rfl
    · have htested : thirdClient { t with third := .found } d =
          some { t with third := .tested } := by
        simp only [thirdClient, if_neg hfail]
      refine ⟨5, ?_⟩
      rw [run_third hfirst, run_third htested, run_third rfl, run_third rfl, run_third rfl,
        List.replicate_zero, Machine.run_nil, saradcOpen, if_neg hfail]
      rfl
  | _ =>
    rw [hstate] at hopen
    cases hopen

/-- The close of the third client without an interruption. -/
theorem thirdClient_close (hpc : s.third = .checking false ∨ s.third = .holding)
    (d : SaradcDesc) :
    ∃ n, Machine.run step s (List.replicate n (.third d)) =
      some ({ ddevClose s .third with third := .idle }, List.replicate n ()) := by
  have hfirst : thirdClient s d = some
      { s with
        dev.useCnt := sub32 s.dev.useCnt 1
        third := .releasing
        log := s.log ++ [.released .third] } := by
    rcases hpc with hpc | hpc
    · rw [thirdClient, hpc]
    · rw [thirdClient, hpc]
  by_cases hz : sub32 s.dev.useCnt 1 = 0
  · have hclosing : thirdClient
        { s with
          dev.useCnt := sub32 s.dev.useCnt 1
          third := .releasing
          log := s.log ++ [.released .third] } d = some
        { s with
          dev.useCnt := sub32 s.dev.useCnt 1
          third := .closing
          log := s.log ++ [.released .third] } := by
      simp only [thirdClient, if_pos hz]
    refine ⟨4, ?_⟩
    rw [run_third hfirst, run_third hclosing, run_third rfl, run_third rfl, List.replicate_zero,
      Machine.run_nil]
    simp only [ddevClose, if_pos hz]
    rfl
  · have hidle : thirdClient
        { s with
          dev.useCnt := sub32 s.dev.useCnt 1
          third := .releasing
          log := s.log ++ [.released .third] } d = some
        { s with
          dev.useCnt := sub32 s.dev.useCnt 1
          third := .idle
          log := s.log ++ [.released .third] } := by
      simp only [thirdClient, if_neg hz]
    refine ⟨2, ?_⟩
    rw [run_third hfirst, run_third hidle, List.replicate_zero, Machine.run_nil]
    simp only [ddevClose, if_neg hz]
    rfl

end TuyaSdk.Saradc
