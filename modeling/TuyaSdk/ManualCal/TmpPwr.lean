import TuyaSdk.Lib.Bytes
import TuyaSdk.Lib.Checked
import TuyaSdk.Lib.Machine

/-!
# Temperature compensation (`manual_cal_bk7231U.c`)

A table of readings from cold to hot, one for every 5 degrees, and the index of the reading the
transmit power is set for. A hotter chip reads smaller. `manual_cal_tmp_pwr_init` lays the table out
around the reading at 25 degrees, and `manual_cal_set_tmp_pwr` moves the index to the reading it is
given, at most by 50 degrees. `none` is an access outside a table: at the hot end the index is
clamped to the length of the table.
-/

namespace TuyaSdk.ManualCal
open TuyaSdk.Lib

/-- `TMP_PWR_TAB_LEN` -/
abbrev tmpPwrTabLen : Nat := 39

/-- `ADC_TEMP_VAL_MIN` -/
abbrev adcTempValMin : Nat := 50

/-- `ADC_TEMP_VAL_MAX` -/
abbrev adcTempValMax : Nat := 700

/-- `ADC_TMEP_LSB_PER_10DEGREE * ADC_TMEP_10DEGREE_PER_DBPWR` -/
abbrev adcTmepLsbPer10degree : Nat := 20

/-- `DO_SETP` -/
abbrev doSetp : Nat := 10

/-- `temperature_type` as `manual_cal_set_tmp_pwr` uses it. -/
inductive TemperatureType where
  | low
  | normal
  | high
  deriving DecidableEq

/-- `TMP_SET_PWR_ST`, `pwr_ptr` by its index in `tmp_pwr_tab`, and `g_cur_temp_flash`. -/
structure TmpPwr where
  indx : Nat
  indxCaliBias : Nat
  indxCaliDpll : Nat
  flag : Bool
  tempTab : Vector Nat tmpPwrTabLen
  pwrPtr : Nat
  curTempFlash : BitVec 32

/-! ## `manual_cal_tmp_pwr_init` -/

/-- The loop up from entry `i`, with `n` entries to go. -/
def fillHotter (initThre : Nat) (tab : Vector Nat tmpPwrTabLen) (i : Nat) :
    Nat → Option (Vector Nat tmpPwrTabLen)
  | 0 => some tab
  | n + 1 => do
    let prev ← Checked.read tab (i - 1)
    let temp : Int := prev - initThre / 2
    let temp := if temp < adcTempValMin then adcTempValMin else temp.toNat
    let tab ← Checked.write tab i temp
    fillHotter initThre tab (i + 1) n

/-- The loop down from entry `i - 1`. -/
def fillColder (initThre : Nat) (tab : Vector Nat tmpPwrTabLen) :
    Nat → Option (Vector Nat tmpPwrTabLen)
  | 0 => some tab
  | i + 1 => do
    let prev ← Checked.read tab (i + 1)
    let temp := prev + initThre / 2
    let temp := if adcTempValMax < temp then adcTempValMax else temp
    let tab ← Checked.write tab i temp
    fillColder initThre tab i

/-- `idx` of `manual_cal_tmp_pwr_init`. -/
abbrev idx : Nat := 13

/-- The reading at 25 degrees, as the table has it. -/
def baseTemp (initTemp initDist : BitVec 16) : Nat :=
  let initTemp := (initTemp + initDist).toNat
  if adcTempValMax < initTemp then adcTempValMax else initTemp

/-- `manual_cal_tmp_pwr_init`; `isInit` is what `temp_detect_is_init` returns. -/
def manualCalTmpPwrInit (g : TmpPwr) (initTemp : BitVec 16) (initThre : Nat)
    (initDist : BitVec 16) (isInit : Bool) : Option TmpPwr :=
  if adcTempValMax ≤ initTemp.toNat then some g
  else do
    let tab := Vector.replicate tmpPwrTabLen 0
    let tab ← Checked.write tab idx (baseTemp initTemp initDist)
    let tab ← fillHotter initThre tab (idx + 1) (tmpPwrTabLen - (idx + 1))
    let tab ← fillColder initThre tab idx
    return { g with
      indx := idx
      indxCaliBias := idx
      indxCaliDpll := idx
      pwrPtr := idx
      tempTab := tab
      flag := if isInit = false then true else g.flag }

/-! ## `manual_cal_set_tmp_pwr` -/

/-- `indx` after the comparison of `cur_val` with `last_val`. -/
def newIndx (indx lastVal curVal thre : Nat) : Nat :=
  let thre2_5Degree := thre / 4 + 2
  let thre5Degree := thre / 2
  let thre50Degree := doSetp * thre5Degree
  if lastVal < curVal then
    let dist := curVal - lastVal
    if thre50Degree ≤ dist then
      if doSetp < indx then indx - doSetp else 0
    else if thre2_5Degree ≤ dist then
      let i := (dist - thre2_5Degree) / thre5Degree
      if i + 1 < indx then indx - (i + 1) else 0
    else indx
  else if curVal < lastVal then
    let dist := lastVal - curVal
    if thre50Degree ≤ dist then
      if indx + doSetp < tmpPwrTabLen then indx + doSetp else tmpPwrTabLen
    else if thre2_5Degree ≤ dist then
      let i := (dist - thre2_5Degree) / thre5Degree
      if indx + i + 1 < tmpPwrTabLen then indx + i + 1 else tmpPwrTabLen
    else indx
  else indx

/-- `new_temperature_type` -/
def newTemperatureType (curTempFlash curVal thre : Nat) : TemperatureType :=
  if 7 * thre + curVal ≤ curTempFlash then .high
  else if u32 (5 * (thre / 2) + curTempFlash) ≤ curVal then .low
  else .normal

/-- `dist_cal_dpll` and `dist_cal_bias` -/
def distCal (indx indxCali : Nat) : Nat :=
  if indxCali < indx then indx - indxCali else indxCali - indx

/-- What a call hands out that does not return `NULL`: the entry, `*last` and the temperature type
given to `bk7011_cal_vdddig_by_temperature`. -/
structure Compensation where
  pwrPtr : Nat
  last : Nat
  temperatureType : TemperatureType
  deriving DecidableEq

/-- `manual_cal_set_tmp_pwr` -/
def manualCalSetTmpPwr (g : TmpPwr) (curVal : BitVec 16) (thre : Nat) :
    Option (TmpPwr × Option Compensation) := do
  let lastVal ← Checked.read g.tempTab g.indx
  let indx := newIndx g.indx lastVal curVal.toNat thre
  if g.indx = indx then return (g, none)
  else
    let g' := { g with
      indxCaliBias := if 4 ≤ distCal indx g.indxCaliBias then indx else g.indxCaliBias
      indxCaliDpll := if 4 ≤ distCal indx g.indxCaliDpll then indx else g.indxCaliDpll
      indx := indx }
    if g.flag = true then
      let last ← Checked.read g.tempTab indx
      let type := newTemperatureType g.curTempFlash.toNat curVal.toNat thre
      return ({ g' with pwrPtr := indx }, some ⟨indx, last, type⟩)
    else return (g', none)

/-- A call with the threshold of the callers. -/
def compensate : Machine TmpPwr (BitVec 16) (Option Compensation) := fun g curVal =>
  manualCalSetTmpPwr g curVal adcTmepLsbPer10degree

/-! ## What the compensation is to keep -/

/-- Entry `i` lies on the line of the table, which a clamp leaves. -/
def TmpPwr.Unclamped (g : TmpPwr) (i : Nat) : Prop :=
  ∃ temp base, Checked.read g.tempTab i = some temp ∧ Checked.read g.tempTab idx = some base ∧
    temp + adcTmepLsbPer10degree / 2 * i = base + adcTmepLsbPer10degree / 2 * idx

/-- The index is in the table, the table falls, a hotter reading selects no smaller index, and a
small step between entries of the line is stable. -/
structure TmpPwr.Good (g : TmpPwr) : Prop where
  inBounds : g.indx < tmpPwrTabLen ∧ g.pwrPtr < tmpPwrTabLen
  falling : ∀ i j cold hot, i ≤ j → Checked.read g.tempTab i = some cold →
    Checked.read g.tempTab j = some hot → hot ≤ cold
  monotone : ∀ (hot cold : BitVec 16) lastVal, Checked.read g.tempTab g.indx = some lastVal →
    hot ≤ cold → newIndx g.indx lastVal cold.toNat adcTmepLsbPer10degree ≤
      newIndx g.indx lastVal hot.toNat adcTmepLsbPer10degree
  stable : ∀ (curVal : BitVec 16) g' r, compensate g curVal = some (g', r) →
    g'.indx < g.indx + doSetp → g.indx < g'.indx + doSetp →
    g.Unclamped g.indx → g.Unclamped g'.indx → compensate g' curVal = some (g', none)

/-- A reading is not so hot that it asks for an entry behind the table. -/
def Within (g : TmpPwr) (curVal : BitVec 16) : Prop :=
  ∀ lastVal, Checked.read g.tempTab g.indx = some lastVal → curVal.toNat < lastVal →
    (100 ≤ lastVal - curVal.toNat → g.indx + 10 < tmpPwrTabLen) ∧
      (7 ≤ lastVal - curVal.toNat → lastVal - curVal.toNat < 100 →
        g.indx + (lastVal - curVal.toNat - 7) / 10 + 1 < tmpPwrTabLen)

/-! ## The table -/

/-- Entry `i` of the table that is laid out around `base`. -/
def tempAt (base i : Nat) : Nat :=
  if i ≤ 13 then min adcTempValMax (base + 10 * (13 - i)) else max adcTempValMin (base - 10 * (i - 13))

theorem tempAt_hotter {base i : Nat} (hb : base ≤ adcTempValMax) (hi : 14 ≤ i) :
    (if (tempAt base (i - 1) : Int) - (adcTmepLsbPer10degree : Nat) / 2 < (adcTempValMin : Nat) then
        adcTempValMin
      else ((tempAt base (i - 1) : Int) - (adcTmepLsbPer10degree : Nat) / 2).toNat) =
      tempAt base i := by
  have hrest : ¬ i ≤ 13 := by omega
  simp only [tempAt, if_neg hrest, adcTempValMax, adcTempValMin, adcTmepLsbPer10degree] at *
  split_ifs <;> omega

theorem tempAt_colder {base i : Nat} (hi : i < 13) :
    (if adcTempValMax < tempAt base (i + 1) + adcTmepLsbPer10degree / 2 then adcTempValMax
      else tempAt base (i + 1) + adcTmepLsbPer10degree / 2) = tempAt base i := by
  have hle : i ≤ 13 := by omega
  have hle' : i + 1 ≤ 13 := by omega
  simp only [tempAt, if_pos hle, if_pos hle', adcTempValMax, adcTmepLsbPer10degree]
  split_ifs <;> omega

theorem tempAt_falling {base i j : Nat} (hb : 50 ≤ base ∧ base ≤ 700) (h : i ≤ j) :
    tempAt base j ≤ tempAt base i := by
  simp only [tempAt, adcTempValMax, adcTempValMin]
  split_ifs <;> omega

/-- The loop up lays out the entries from `i` on. -/
theorem fillHotter_spec {base : Nat} (hb : base ≤ adcTempValMax) {n i : Nat}
    {tab : Vector Nat tmpPwrTabLen} (hi : 14 ≤ i) (hn : i + n = tmpPwrTabLen)
    (hprev : Checked.read tab (i - 1) = some (tempAt base (i - 1))) :
    ∃ tab', fillHotter adcTmepLsbPer10degree tab i n = some tab' ∧
      (∀ j, i ≤ j → j < tmpPwrTabLen → Checked.read tab' j = some (tempAt base j)) ∧
      ∀ j, j < i → Checked.read tab' j = Checked.read tab j := by
  induction n generalizing i tab with
  | zero => exact ⟨tab, rfl, fun j hj hlt => absurd hlt (by omega), fun _ _ => rfl⟩
  | succ n ih =>
    have hw : Checked.write tab i (tempAt base i) = some _ :=
      Checked.write_eq (by omega : i < tmpPwrTabLen)
    have hread := Checked.read_write hw
    obtain ⟨tab', hfill, hset, hkept⟩ := ih (i := i + 1) (by omega) (by omega)
      (by rw [Nat.add_sub_cancel, hread, if_pos rfl])
    refine ⟨tab', ?_, fun j hj hlt => ?_, fun j hj => ?_⟩
    · rw [fillHotter, hprev]
      simp only [Option.bind_eq_bind, Option.bind_some]
      rw [tempAt_hotter hb hi, hw, Option.bind_some, hfill]
    · by_cases hji : j = i
      · rw [hkept j (by omega), hread, if_pos hji, hji]
      · exact hset j (by omega) hlt
    · rw [hkept j (by omega), hread, if_neg (by omega)]

/-- The loop down lays out the entries before `i`. -/
theorem fillColder_spec {base i : Nat} {tab : Vector Nat tmpPwrTabLen} (hi : i ≤ 13)
    (hprev : Checked.read tab i = some (tempAt base i)) :
    ∃ tab', fillColder adcTmepLsbPer10degree tab i = some tab' ∧
      (∀ j, j < i → Checked.read tab' j = some (tempAt base j)) ∧
      ∀ j, i ≤ j → Checked.read tab' j = Checked.read tab j := by
  induction i generalizing tab with
  | zero => exact ⟨tab, rfl, fun j hj => absurd hj (by omega), fun _ _ => rfl⟩
  | succ i ih =>
    have hlt : i < tmpPwrTabLen := by
      simp only [tmpPwrTabLen]
      omega
    have hw : Checked.write tab i (tempAt base i) = some _ := Checked.write_eq hlt
    have hread := Checked.read_write hw
    obtain ⟨tab', hfill, hset, hkept⟩ := @ih (tab.set i (tempAt base i) hlt) (by omega)
      (by rw [hread, if_pos rfl])
    refine ⟨tab', ?_, fun j hj => ?_, fun j hj => ?_⟩
    · rw [fillColder, hprev]
      simp only [Option.bind_eq_bind, Option.bind_some]
      rw [tempAt_colder (by omega), hw, Option.bind_some, hfill]
    · by_cases hji : j = i
      · rw [hkept j (by omega), hread, if_pos hji, hji]
      · exact hset j (by omega)
    · rw [hkept j (by omega), hread, if_neg (by omega)]

/-- The table is laid out around `base`. -/
def TmpPwr.Laid (g : TmpPwr) (base : Nat) : Prop :=
  ∀ i, i < tmpPwrTabLen → Checked.read g.tempTab i = some (tempAt base i)

theorem baseTemp_le (initTemp initDist : BitVec 16) :
    baseTemp initTemp initDist ≤ adcTempValMax := by
  simp only [baseTemp]
  split <;> omega

/-- The initialisation stays in the table and lays it out. -/
theorem manualCalTmpPwrInit_spec (g : TmpPwr) {initTemp : BitVec 16} (initDist : BitVec 16)
    (isInit : Bool) (h : initTemp.toNat < adcTempValMax) :
    ∃ g', manualCalTmpPwrInit g initTemp adcTmepLsbPer10degree initDist isInit = some g' ∧
      g'.Laid (baseTemp initTemp initDist) ∧ g'.indx = idx ∧ g'.pwrPtr = idx := by
  have hb := baseTemp_le initTemp initDist
  generalize hbase : baseTemp initTemp initDist = base at hb
  have hw : Checked.write (Vector.replicate tmpPwrTabLen 0) idx base = some _ :=
    Checked.write_eq (by decide : idx < tmpPwrTabLen)
  have hself : tempAt base idx = base := by
    simp only [tempAt, idx, adcTempValMax] at hb ⊢
    rw [if_pos (le_refl 13)]
    omega
  obtain ⟨hot, hhot, hhset, hhkept⟩ := fillHotter_spec hb (i := 14) (n := 25) (by decide) (by decide)
    (show Checked.read ((Vector.replicate tmpPwrTabLen 0).set idx base) 13 = _ by
      rw [Checked.read_write hw, if_pos rfl]
      exact congrArg some hself.symm)
  have hidx : Checked.read hot 13 = some (tempAt base 13) := by
    rw [hhkept 13 (by decide), Checked.read_write hw, if_pos rfl]
    exact congrArg some hself.symm
  obtain ⟨cold, hcold, hcset, hckept⟩ := fillColder_spec (i := 13) (by decide) hidx
  refine ⟨{ g with
    indx := idx, indxCaliBias := idx, indxCaliDpll := idx, pwrPtr := idx, tempTab := cold,
    flag := if isInit = false then true else g.flag }, ?_, fun i hi => ?_, rfl, rfl⟩
  · rw [manualCalTmpPwrInit, if_neg (by omega), hbase]
    simp only [hw, Option.bind_eq_bind, Option.bind_some]
    rw [show idx + 1 = 14 from rfl, show tmpPwrTabLen - 14 = 25 from rfl, hhot, Option.bind_some,
      hcold]
    rfl
  · change Checked.read cold i = _
    by_cases hlow : i < 13
    · exact hcset i hlow
    · rw [hckept i (by omega)]
      by_cases hmid : i = 13
      · rw [hmid, hidx]
      · exact hhset i (by omega) hi

/-! ## The index -/

/-- The entries that a reading `dist` away moves the index by. -/
def steps (dist : Nat) : Nat :=
  if 100 ≤ dist then 10 else if 7 ≤ dist then (dist - 7) / 10 + 1 else 0

theorem steps_mono {d d' : Nat} (h : d ≤ d') : steps d ≤ steps d' := by
  simp only [steps]
  split_ifs <;> omega

/-- A step lands within 3 below and 6 above the reading, unless it was cut off. -/
theorem steps_near {d : Nat} (h : steps d < 10) :
    steps d = 0 ∧ d < 7 ∨ 10 * steps d ≤ d + 3 ∧ d ≤ 10 * steps d + 6 := by
  simp only [steps] at *
  split_ifs at * <;> omega

theorem steps_eq_zero {d : Nat} : steps d = 0 ↔ d < 7 := by
  simp only [steps]
  constructor
  · intro h
    split at h
    · omega
    · split at h <;> omega
  · intro h
    rw [if_neg (by omega), if_neg (by omega)]

theorem newIndx_cold {indx lastVal curVal : Nat} (h : lastVal < curVal) :
    newIndx indx lastVal curVal adcTmepLsbPer10degree = indx - steps (curVal - lastVal) := by
  simp only [newIndx, if_pos h, adcTmepLsbPer10degree, doSetp, steps]
  split_ifs <;> omega

theorem newIndx_hot {indx lastVal curVal : Nat} (h : curVal < lastVal) :
    newIndx indx lastVal curVal adcTmepLsbPer10degree =
      if steps (lastVal - curVal) = 0 then indx
      else min (indx + steps (lastVal - curVal)) tmpPwrTabLen := by
  have hno : ¬lastVal < curVal := by omega
  simp only [newIndx, if_neg hno, if_pos h, adcTmepLsbPer10degree, doSetp, tmpPwrTabLen]
  by_cases hfar : 100 ≤ lastVal - curVal
  · have hsteps : steps (lastVal - curVal) = 10 := by rw [steps, if_pos hfar]
    rw [if_pos hfar, hsteps, if_neg (show ¬10 = 0 by decide)]
    split <;> omega
  · by_cases hstep : 7 ≤ lastVal - curVal
    · have hsteps : steps (lastVal - curVal) = (lastVal - curVal - 7) / 10 + 1 := by
        rw [steps, if_neg hfar, if_pos hstep]
      rw [if_neg hfar, if_pos hstep, hsteps, if_neg (Nat.succ_ne_zero _)]
      split <;> omega
    · have hsteps : steps (lastVal - curVal) = 0 := steps_eq_zero.mpr (by omega)
      rw [if_neg hfar, if_neg hstep, if_pos hsteps]

theorem newIndx_self {indx lastVal : Nat} :
    newIndx indx lastVal lastVal adcTmepLsbPer10degree = indx := by
  simp [newIndx]

theorem newIndx_le {indx lastVal curVal : Nat} (hindx : indx < tmpPwrTabLen) :
    newIndx indx lastVal curVal adcTmepLsbPer10degree ≤ tmpPwrTabLen := by
  rcases lt_trichotomy lastVal curVal with hc | rfl | hc
  · rw [newIndx_cold hc]
    omega
  · rw [newIndx_self]
    omega
  · rw [newIndx_hot hc]
    split <;> omega

theorem newIndx_mono {indx lastVal hot cold : Nat} (hindx : indx < tmpPwrTabLen) (h : hot ≤ cold) :
    newIndx indx lastVal cold adcTmepLsbPer10degree ≤
      newIndx indx lastVal hot adcTmepLsbPer10degree := by
  rcases lt_trichotomy lastVal cold with hc | rfl | hc
  · rw [newIndx_cold hc]
    rcases lt_trichotomy lastVal hot with hh | rfl | hh
    · have := steps_mono (by omega : hot - lastVal ≤ cold - lastVal)
      rw [newIndx_cold hh]
      omega
    · rw [newIndx_self]
      omega
    · rw [newIndx_hot hh]
      split <;> omega
  · rw [newIndx_self]
    rcases lt_or_eq_of_le h with hh | rfl
    · rw [newIndx_hot hh]
      split <;> omega
    · rw [newIndx_self]
  · have hh : hot < lastVal := by omega
    have := steps_mono (by omega : lastVal - cold ≤ lastVal - hot)
    rw [newIndx_hot hc, newIndx_hot hh]
    split <;> split <;> omega

/-- A reading close to its entry, or beyond an end of the table, asks for no step. -/
theorem newIndx_near {indx lastVal curVal : Nat}
    (h : curVal < lastVal + 7 ∨ indx = 0) (h' : lastVal < curVal + 7) :
    newIndx indx lastVal curVal adcTmepLsbPer10degree = indx := by
  rcases lt_trichotomy lastVal curVal with hc | rfl | hc
  · rw [newIndx_cold hc]
    rcases h with h | rfl
    · rw [steps_eq_zero.mpr (by omega), Nat.sub_zero]
    · exact Nat.zero_sub _
  · exact newIndx_self
  · rw [newIndx_hot hc, if_pos (steps_eq_zero.mpr (by omega))]

/-- Along the line of the table a step of fewer than ten entries ends where the reading asks for no
other step. -/
theorem newIndx_stable {indx lastVal curVal new temp : Nat}
    (hn : newIndx indx lastVal curVal adcTmepLsbPer10degree = new)
    (hline : temp + 10 * new = lastVal + 10 * indx) (hlt : new < tmpPwrTabLen)
    (hup : new < indx + 10) (hdown : indx < new + 10) :
    newIndx new temp curVal adcTmepLsbPer10degree = new := by
  rcases lt_trichotomy lastVal curVal with hc | rfl | hc
  · rw [newIndx_cold hc] at hn
    by_cases hall : indx ≤ steps (curVal - lastVal)
    · -- the index went down to 0, which may be short of the reading
      refine newIndx_near (.inr (by omega)) ?_
      have hnear : 10 * steps (curVal - lastVal) ≤ curVal - lastVal + 3 ∨
          steps (curVal - lastVal) = 0 := by
        simp only [steps]
        split_ifs <;> omega
      omega
    · have hnear := steps_near (by omega : steps (curVal - lastVal) < 10)
      exact newIndx_near (.inl (by omega)) (by omega)
  · rw [newIndx_self] at hn
    obtain rfl : temp = lastVal := by omega
    exact newIndx_self
  · rw [newIndx_hot hc] at hn
    split at hn
    · next hz =>
      have hclose := steps_eq_zero.mp hz
      exact newIndx_near (.inl (by omega)) (by omega)
    · simp only [tmpPwrTabLen] at hn hlt
      have hnear := steps_near (by omega : steps (lastVal - curVal) < 10)
      exact newIndx_near (.inl (by omega)) (by omega)

/-! ## A call -/

theorem compensate_stay {g : TmpPwr} {curVal : BitVec 16} {lastVal : Nat}
    (hr : Checked.read g.tempTab g.indx = some lastVal)
    (h : newIndx g.indx lastVal curVal.toNat adcTmepLsbPer10degree = g.indx) :
    compensate g curVal = some (g, none) := by
  simp only [compensate, manualCalSetTmpPwr, hr, Option.bind_eq_bind, Option.bind_some, h, if_true]
  rfl

/-- A call that moves the index, to an entry that is there unless the flag is clear. -/
theorem compensate_move {g : TmpPwr} {curVal : BitVec 16} {lastVal : Nat}
    (hr : Checked.read g.tempTab g.indx = some lastVal)
    (h : newIndx g.indx lastVal curVal.toNat adcTmepLsbPer10degree ≠ g.indx)
    (hin : g.flag = true →
      newIndx g.indx lastVal curVal.toNat adcTmepLsbPer10degree < tmpPwrTabLen) :
    ∃ g' r, compensate g curVal = some (g', r) ∧ g'.tempTab = g.tempTab ∧
      g'.indx = newIndx g.indx lastVal curVal.toNat adcTmepLsbPer10degree ∧
      (g'.pwrPtr = g.pwrPtr ∨ g'.pwrPtr = g'.indx) := by
  simp only [compensate, manualCalSetTmpPwr, hr, Option.bind_eq_bind, Option.bind_some,
    if_neg (Ne.symm h)]
  cases hflag : g.flag with
  | true =>
    rw [if_pos rfl, Checked.read_eq (hin hflag)]
    exact ⟨_, _, rfl, rfl, rfl, .inr rfl⟩
  | false =>
    rw [if_neg (by decide)]
    exact ⟨_, _, rfl, rfl, rfl, .inl rfl⟩

/-- A call that would move the index behind the table moves it there or does not return. -/
theorem compensate_out {g g' : TmpPwr} {curVal : BitVec 16} {lastVal : Nat}
    {r : Option Compensation} (hr : Checked.read g.tempTab g.indx = some lastVal)
    (h : newIndx g.indx lastVal curVal.toNat adcTmepLsbPer10degree = tmpPwrTabLen)
    (hg : compensate g curVal = some (g', r)) : g'.indx = tmpPwrTabLen := by
  by_cases hstay : newIndx g.indx lastVal curVal.toNat adcTmepLsbPer10degree = g.indx
  · rw [compensate_stay hr hstay] at hg
    cases hg
    rw [← hstay, h]
  · cases hflag : g.flag with
    | true =>
      have hnone : Checked.read g.tempTab tmpPwrTabLen = none := by
        simp [Checked.read]
      have hmove : ¬g.indx = tmpPwrTabLen := fun heq => hstay (h.trans heq.symm)
      simp only [compensate, manualCalSetTmpPwr, hr, Option.bind_eq_bind, Option.bind_some, h,
        if_neg hmove, hflag, if_true, hnone, Option.bind_none] at hg
      cases hg
    | false =>
      obtain ⟨g₁, r₁, hg₁, -, hindx, -⟩ :=
        compensate_move hr hstay fun h => by rw [hflag] at h; cases h
      rw [hg] at hg₁
      cases hg₁
      rw [hindx, h]

/-- The invariant: the table is as it was laid out, and the index and the pointer are in it. -/
structure TmpPwr.Inv (base : Nat) (g : TmpPwr) : Prop where
  laid : g.Laid base
  indx : g.indx < tmpPwrTabLen
  pwrPtr : g.pwrPtr < tmpPwrTabLen

theorem within_iff {base : Nat} {g : TmpPwr} (h : g.Inv base) (curVal : BitVec 16) :
    Within g curVal ↔
      newIndx g.indx (tempAt base g.indx) curVal.toNat adcTmepLsbPer10degree < tmpPwrTabLen := by
  have hr := h.laid g.indx h.indx
  have hindx := h.indx
  simp only [Within, hr, Option.some.injEq, forall_eq']
  generalize tempAt base g.indx = lastVal
  change g.indx < 39 at hindx
  change (_ → (_ → _ < 39) ∧ (_ → _ → _ < 39)) ↔ _ < 39
  rcases lt_trichotomy lastVal curVal.toNat with hc | hc | hc
  · rw [newIndx_cold hc]
    exact iff_of_true (fun h => absurd h (by omega)) (by omega)
  · rw [← hc, newIndx_self]
    exact iff_of_true (fun h => absurd h (by omega)) hindx
  · rw [newIndx_hot hc]
    by_cases hfar : 100 ≤ lastVal - curVal.toNat
    · have hsteps : steps (lastVal - curVal.toNat) = 10 := by rw [steps, if_pos hfar]
      rw [hsteps, if_neg (show ¬10 = 0 by decide), show tmpPwrTabLen = 39 from rfl]
      omega
    · by_cases hstep : 7 ≤ lastVal - curVal.toNat
      · have hsteps : steps (lastVal - curVal.toNat) = (lastVal - curVal.toNat - 7) / 10 + 1 := by
          rw [steps, if_neg hfar, if_pos hstep]
        rw [hsteps, if_neg (Nat.succ_ne_zero _), show tmpPwrTabLen = 39 from rfl]
        omega
      · rw [if_pos (steps_eq_zero.mpr (by omega))]
        omega

theorem TmpPwr.Inv.good {base : Nat} {g : TmpPwr} (hb : 50 ≤ base ∧ base ≤ adcTempValMax)
    (h : g.Inv base) : g.Good where
  inBounds := ⟨h.indx, h.pwrPtr⟩
  falling := by
    intro i j cold hot hij hi hj
    have hj' : j < tmpPwrTabLen := Checked.read_isSome.mp (by rw [hj]; rfl)
    rw [h.laid i (by omega), Option.some.injEq] at hi
    rw [h.laid j hj', Option.some.injEq] at hj
    rw [← hi, ← hj]
    exact tempAt_falling hb hij
  monotone := by
    intro hot cold lastVal _ hle
    exact newIndx_mono h.indx hle
  stable := by
    intro curVal g' r hg hup hdown hline hline'
    have hr := h.laid g.indx h.indx
    obtain ⟨lastVal, base₀, hlast, hbase, hon⟩ := hline
    obtain ⟨temp, base₁, htemp, hbase', hon'⟩ := hline'
    have hlt : g'.indx < tmpPwrTabLen := Checked.read_isSome.mp (by rw [htemp]; rfl)
    by_cases hstay : newIndx g.indx (tempAt base g.indx) curVal.toNat adcTmepLsbPer10degree =
        g.indx
    · rw [compensate_stay hr hstay] at hg
      cases hg
      exact compensate_stay hr hstay
    · by_cases hout : newIndx g.indx (tempAt base g.indx) curVal.toNat adcTmepLsbPer10degree <
          tmpPwrTabLen
      · obtain ⟨g₁, r₁, hg₁, htab, hindx, -⟩ := compensate_move hr hstay fun _ => hout
        rw [hg] at hg₁
        cases hg₁
        rw [hbase, Option.some.injEq] at hbase'
        rw [hlast, Option.some.injEq] at hr
        rw [← hr] at hindx
        have hline : temp + 10 * g'.indx = lastVal + 10 * g.indx := by
          simp only [adcTmepLsbPer10degree] at hon hon'
          omega
        rw [← htab] at htemp
        exact compensate_stay htemp (newIndx_stable hindx.symm hline hlt hup hdown)
      · have hlen : newIndx g.indx (tempAt base g.indx) curVal.toNat adcTmepLsbPer10degree =
            tmpPwrTabLen := le_antisymm (newIndx_le h.indx) (not_lt.mp hout)
        have := compensate_out hr hlen hg
        omega

theorem TmpPwr.Inv.step {base : Nat} {g : TmpPwr} (h : g.Inv base) {curVal : BitVec 16}
    (hw : Within g curVal) : ∃ g' r, compensate g curVal = some (g', r) ∧ g'.Inv base := by
  have hr := h.laid g.indx h.indx
  rw [within_iff h] at hw
  by_cases hstay : newIndx g.indx (tempAt base g.indx) curVal.toNat adcTmepLsbPer10degree = g.indx
  · exact ⟨g, none, compensate_stay hr hstay, h⟩
  · obtain ⟨g', r, hg, htab, hindx, hptr⟩ := compensate_move hr hstay fun _ => hw
    have hlt : g'.indx < tmpPwrTabLen := hindx ▸ hw
    refine ⟨g', r, hg, fun i hi => ?_, hlt, ?_⟩
    · rw [htab]
      exact h.laid i hi
    · rcases hptr with hptr | hptr <;> rw [hptr]
      · exact h.pwrPtr
      · exact hlt

theorem TmpPwr.Inv.leave {base : Nat} {g g' : TmpPwr} (h : g.Inv base) {curVal : BitVec 16}
    {r : Option Compensation} (hw : ¬Within g curVal) (hg : compensate g curVal = some (g', r)) :
    ¬g'.Good := by
  rw [within_iff h, not_lt] at hw
  have hout := compensate_out (h.laid g.indx h.indx) (le_antisymm (newIndx_le h.indx) hw) hg
  intro hgood
  have := hgood.inBounds.1
  omega

/-- A base below the minimum is colder than the entry that follows it. -/
theorem not_good_of_low {base : Nat} {g : TmpPwr} (h : g.Inv base) (hb : base < adcTempValMin) :
    ¬g.Good := by
  intro hgood
  have hfall := hgood.falling 13 14 _ _ (by decide) (h.laid 13 (by decide)) (h.laid 14 (by decide))
  simp only [tempAt, adcTempValMax, adcTempValMin] at hfall hb
  rw [if_pos (le_refl 13), if_neg (show ¬14 ≤ 13 by decide)] at hfall
  omega

/-- The initialisation stays in its table. From there the compensation stays in bounds, with a table
that falls, an index that grows with the heat, and small steps that are stable, exactly when the base
is not below the minimum and no reading asks for an entry behind the table. -/
theorem tmpPwr_iff (g : TmpPwr) (initTemp initDist : BitVec 16) (isInit : Bool)
    (readings : List (BitVec 16)) (h : initTemp.toNat < adcTempValMax) :
    ∃ g₀, manualCalTmpPwrInit g initTemp adcTmepLsbPer10degree initDist isInit = some g₀ ∧
      (((Machine.run compensate g₀ readings).isSome ∧
          ∀ n g' rs, Machine.run compensate g₀ (readings.take n) = some (g', rs) → g'.Good) ↔
        adcTempValMin ≤ baseTemp initTemp initDist ∧ Machine.Legal compensate Within g₀ readings) := by
  obtain ⟨g₀, hinit, hlaid, hindx, hptr⟩ := manualCalTmpPwrInit_spec g initDist isInit h
  have hinv : g₀.Inv (baseTemp initTemp initDist) :=
    ⟨hlaid, by rw [hindx]; decide, by rw [hptr]; decide⟩
  refine ⟨g₀, hinit, ?_⟩
  by_cases hb : adcTempValMin ≤ baseTemp initTemp initDist
  · have hbase := And.intro hb (baseTemp_le initTemp initDist)
    rw [Machine.returns_iff_legal (fun _ hI => TmpPwr.Inv.good hbase hI)
      (fun _ _ hI hw => hI.step hw) (fun _ _ hI hw _ _ hg => hI.leave hw hg) hinv]
    exact ⟨fun hl => ⟨hb, hl⟩, fun hl => hl.2⟩
  · refine iff_of_false (fun hall => ?_) fun hl => hb hl.1
    exact not_good_of_low hinv (not_le.mp hb) (hall.2 0 g₀ [] rfl)

/-- Nothing set up, with a reading of 300 at 25 degrees. -/
def TmpPwr.zero : TmpPwr := ⟨0, 0, 0, false, Vector.replicate _ 0, 0, 300⟩

/-- The state of the initialisation is good. -/
theorem tmpPwr_init :
    ∃ g₀, manualCalTmpPwrInit .zero 300 adcTmepLsbPer10degree 0 false = some g₀ ∧ g₀.Good := by
  obtain ⟨g₀, hinit, hiff⟩ := tmpPwr_iff .zero 300 0 false [] (by decide)
  exact ⟨g₀, hinit, (hiff.mpr ⟨by decide, trivial⟩).2 0 g₀ [] rfl⟩

/-- Three readings of 0, each at least 50 degrees hotter than the table, ask for entry 39. -/
theorem tmpPwr_hot :
    ¬ ∀ (g : TmpPwr) (initTemp initDist : BitVec 16) (isInit : Bool)
      (readings : List (BitVec 16)), initTemp.toNat < adcTempValMax →
      ∃ g₀, manualCalTmpPwrInit g initTemp adcTmepLsbPer10degree initDist isInit = some g₀ ∧
        (Machine.run compensate g₀ readings).isSome ∧
        ∀ n g' rs, Machine.run compensate g₀ (readings.take n) = some (g', rs) → g'.Good := by
  intro h
  obtain ⟨g₀, hinit, hsome, -⟩ := h .zero 300 0 false [0, 0, 0] (by decide)
  have hout : (manualCalTmpPwrInit .zero 300 adcTmepLsbPer10degree 0 false).bind
      (fun g₀ => Machine.run compensate g₀ [0, 0, 0]) = none := by decide +kernel
  rw [hinit, Option.bind_some] at hout
  rw [hout] at hsome
  cases hsome

end TuyaSdk.ManualCal
