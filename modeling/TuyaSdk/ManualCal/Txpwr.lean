import TuyaSdk.Lib.Checked

/-!
# The transmit power tables (`manual_cal_bk7231U.c`)

Five tables of gains, by mode and channel. An entry is a byte: seven bits of gain, and a flag that
is 0 for a calibrated gain. `manual_cal_save_txpwr` and `manual_cal_get_txpwr` find the table by the
rate, each for itself. `none` is an access outside a table: both let channel 40 of BLE through.
-/

namespace TuyaSdk.ManualCal
open TuyaSdk.Lib

/-! ## Entries -/

/-- `GAIN_MASK` -/
abbrev gainMask : BitVec 8 := 0x7f

/-- `TXPWR_ELEM_INUSED` -/
abbrev txpwrElemInused : Bool := false

/-- `TXPWR_ELEM_UNUSED` -/
abbrev txpwrElemUnused : Bool := true

/-- `GET_TXPWR_GAIN` -/
def getTxpwrGain (p : BitVec 8) : Nat := (p &&& gainMask).toNat

/-- `SET_TXPWR_GAIN` -/
def setTxpwrGain (p : BitVec 8) (gain : Nat) : BitVec 8 :=
  p &&& ~~~gainMask ||| (BitVec.ofNat 8 gain &&& gainMask)

/-- `GET_TXPWR_FLAG` -/
def getTxpwrFlag (p : BitVec 8) : Bool := p.getLsbD 7

/-- `SET_TXPWR_FLAG` -/
def setTxpwrFlag (p : BitVec 8) (flag : Bool) : BitVec 8 :=
  p &&& ~~~0x80 ||| (if flag = true then 0x80 else 0)

/-- `manual_cal_adjust_fitting`; `dist` is a `UINT16`. -/
def manualCalAdjustFitting (ptr : BitVec 8) (dist : BitVec 16) : BitVec 8 :=
  let gain := getTxpwrGain ptr
  setTxpwrGain ptr (if dist.toNat < gain then gain - dist.toNat else 0)

/-! ## Tables -/

/-- `WLAN_2_4_G_CHANNEL_NUM` -/
abbrev wlanChannelNum : Nat := 14

/-- `BLE_2_4_G_CHANNEL_NUM` -/
abbrev bleChannelNum : Nat := 40

/-- `gtxpwr_tab_b` to `gtxpwr_tab_ble`, `g_dif_g_n20`, `g_dif_g_n40` and `ble_cal_bit`. -/
structure Txpwr where
  tabB : Vector (BitVec 8) wlanChannelNum
  tabG : Vector (BitVec 8) wlanChannelNum
  tabN : Vector (BitVec 8) wlanChannelNum
  tabN40 : Vector (BitVec 8) wlanChannelNum
  tabBle : Vector (BitVec 8) bleChannelNum
  difGN20 : BitVec 32
  difGN40 : BitVec 32
  bleCalBit : BitVec 8

/-- The names of the tables. -/
inductive TxpwrTab where
  | b
  | g
  | n
  | n40
  | ble
  deriving DecidableEq

/-- The length of a table. -/
def TxpwrTab.size : TxpwrTab → Nat
  | .b | .g | .n | .n40 => wlanChannelNum
  | .ble => bleChannelNum

/-- Entry `i` of a table. -/
def Txpwr.entry (t : Txpwr) (tab : TxpwrTab) (i : Nat) : Option (BitVec 8) :=
  match tab with
  | .b => Checked.read t.tabB i
  | .g => Checked.read t.tabG i
  | .n => Checked.read t.tabN i
  | .n40 => Checked.read t.tabN40 i
  | .ble => Checked.read t.tabBle i

/-- Entry `i` of a table is changed. -/
def Txpwr.modify (t : Txpwr) (tab : TxpwrTab) (i : Nat) (f : BitVec 8 → BitVec 8) :
    Option Txpwr :=
  match tab with
  | .b => (Checked.modify t.tabB i f).map fun tabB => { t with tabB := tabB }
  | .g => (Checked.modify t.tabG i f).map fun tabG => { t with tabG := tabG }
  | .n => (Checked.modify t.tabN i f).map fun tabN => { t with tabN := tabN }
  | .n40 => (Checked.modify t.tabN40 i f).map fun tabN40 => { t with tabN40 := tabN40 }
  | .ble => (Checked.modify t.tabBle i f).map fun tabBle => { t with tabBle := tabBle }

/-! ## `manual_cal_save_txpwr` and `manual_cal_get_txpwr` -/

/-- `EVM_DEFUALT_BLE_RATE` -/
abbrev evmDefualtBleRate : BitVec 32 := 158

/-- `PHY_CHNL_BW_20` -/
abbrev phyChnlBw20 : BitVec 32 := 0

/-- `PHY_CHNL_BW_40` -/
abbrev phyChnlBw40 : BitVec 32 := 1

/-- `rate <= MAX_RATE_FOR_B_5M || rate == MAX_RATE_FOR_B` -/
abbrev IsBRate (rate : BitVec 32) : Prop := rate ≤ 5 ∨ rate = 11

/-- `rate <= MAX_RATE_FOR_G` -/
abbrev IsGRate (rate : BitVec 32) : Prop := rate ≤ 54

/-- `rate <= MAX_RATE_FOR_N && rate >= MIN_RATE_FOR_N` -/
abbrev IsNRate (rate : BitVec 32) : Prop := rate ≤ 135 ∧ 128 ≤ rate

/-- `SET_TXPWR_GAIN` and `SET_TXPWR_FLAG` of a saved gain. -/
def saved (pwrGain : BitVec 32) (e : BitVec 8) : BitVec 8 :=
  setTxpwrFlag (setTxpwrGain e pwrGain.toNat) txpwrElemInused

/-- `ble_cal_bit` after channel `channel` was saved. -/
def bleCalBitAfter (bleCalBit : BitVec 8) (channel : BitVec 32) : BitVec 8 :=
  if channel = 0 then bleCalBit ||| 0x1
  else if channel = 19 then bleCalBit ||| 0x2
  else if channel = 39 then bleCalBit ||| 0x4
  else bleCalBit

/-- `manual_cal_save_txpwr` -/
def manualCalSaveTxpwr (t : Txpwr) (rate channel pwrGain : BitVec 32) : Option Txpwr :=
  if rate = evmDefualtBleRate then
    if BitVec.ofNat 32 bleChannelNum < channel then some t
    else do
      let t ← t.modify .ble channel.toNat (saved pwrGain)
      return { t with bleCalBit := bleCalBitAfter t.bleCalBit channel }
  else if channel = 0 ∨ BitVec.ofNat 32 wlanChannelNum < channel then some t
  else
    let channel := (channel - 1).toNat
    if IsBRate rate then t.modify .b channel (saved pwrGain)
    else if IsGRate rate then do
      let t ← t.modify .g channel (saved pwrGain)
      let e ← t.entry .g channel
      let t ← t.modify .n channel fun _ => e
      t.modify .n channel fun e => manualCalAdjustFitting e (t.difGN20.setWidth 16)
    else if IsNRate rate then t.modify .n40 channel (saved pwrGain)
    else some t

/-- `manual_cal_get_txpwr`: `*pwr_gain` where it returns 1. -/
def manualCalGetTxpwr (t : Txpwr) (rate channel bandwidth : BitVec 32) : Option (Option Nat) :=
  let gain (tab : TxpwrTab) (i : Nat) : Option (Option Nat) :=
    (t.entry tab i).map fun e => some (getTxpwrGain e)
  if rate = evmDefualtBleRate then
    if BitVec.ofNat 32 bleChannelNum < channel then some none else gain .ble channel.toNat
  else if channel = 0 ∨ BitVec.ofNat 32 wlanChannelNum < channel then some none
  else if bandwidth ≠ phyChnlBw20 ∧ bandwidth ≠ phyChnlBw40 then some none
  else
    let channel := (channel - 1).toNat
    if bandwidth = phyChnlBw20 then
      if IsBRate rate then gain .b channel
      else if IsGRate rate then gain .g channel
      else if IsNRate rate then gain .n channel
      else some none
    else if IsNRate rate then gain .n40 channel
    else gain .n channel

/-! ## What a save is to do -/

/-- The entry that a rate and a channel address, if a save does not refuse them. -/
def addressed (rate channel : BitVec 32) : Option (TxpwrTab × Nat) :=
  if rate = evmDefualtBleRate then
    if BitVec.ofNat 32 bleChannelNum < channel then none else some (.ble, channel.toNat)
  else if channel = 0 ∨ BitVec.ofNat 32 wlanChannelNum < channel then none
  else if IsBRate rate then some (.b, (channel - 1).toNat)
  else if IsGRate rate then some (.g, (channel - 1).toNat)
  else if IsNRate rate then some (.n40, (channel - 1).toNat)
  else none

/-- The bandwidth under which a read finds the table. -/
def Selects (bandwidth : BitVec 32) : TxpwrTab → Prop
  | .ble => True
  | .n40 => bandwidth = phyChnlBw40
  | .b | .g | .n => bandwidth = phyChnlBw20

/-- A save stays inside the tables, changes the entry addressed only, and for a g rate that of n20,
which a read then finds. -/
def SavedRight (t : Txpwr) (rate channel pwrGain : BitVec 32) : Prop :=
  ∃ t', manualCalSaveTxpwr t rate channel pwrGain = some t' ∧
    (∀ tab i, addressed rate channel ≠ some (tab, i) →
      ¬(tab = .n ∧ addressed rate channel = some (.g, i)) → t'.entry tab i = t.entry tab i) ∧
    (addressed rate channel = none → t' = t) ∧
    ∀ tab i bandwidth, addressed rate channel = some (tab, i) → Selects bandwidth tab →
      manualCalGetTxpwr t' rate channel bandwidth =
        some (some (pwrGain &&& gainMask.setWidth 32).toNat)

/-! ## Entries -/

theorem getTxpwrGain_eq (p : BitVec 8) : getTxpwrGain p = p.toNat % 128 := by
  rw [getTxpwrGain, BitVec.toNat_and]
  exact Nat.and_two_pow_sub_one_eq_mod _ 7

theorem setTxpwrGain_eq (p : BitVec 8) (gain : Nat) :
    setTxpwrGain p gain = BitVec.ofNat 8 ((getTxpwrFlag p).toNat * 128 + gain % 128) := by
  have hflag : ∀ p : BitVec 8, p &&& ~~~gainMask = BitVec.ofNat 8 ((getTxpwrFlag p).toNat * 128) := by
    decide
  have hgain : ∀ f : Bool, ∀ q : BitVec 8,
      BitVec.ofNat 8 (f.toNat * 128) ||| (q &&& gainMask) =
        BitVec.ofNat 8 (f.toNat * 128 + q.toNat % 128) := by
    decide
  rw [setTxpwrGain, hflag, hgain, BitVec.toNat_ofNat]
  congr 2
  omega

theorem setTxpwrFlag_eq (p : BitVec 8) (flag : Bool) :
    setTxpwrFlag p flag = BitVec.ofNat 8 (flag.toNat * 128 + getTxpwrGain p) := by
  have hall : ∀ p : BitVec 8, ∀ flag : Bool,
      setTxpwrFlag p flag = BitVec.ofNat 8 (flag.toNat * 128 + getTxpwrGain p) := by
    decide
  exact hall p flag

@[simp]
theorem getTxpwrGain_setTxpwrGain (p : BitVec 8) (gain : Nat) :
    getTxpwrGain (setTxpwrGain p gain) = gain % 128 := by
  rw [getTxpwrGain_eq, setTxpwrGain_eq, BitVec.toNat_ofNat]
  omega

@[simp]
theorem getTxpwrGain_setTxpwrFlag (p : BitVec 8) (flag : Bool) :
    getTxpwrGain (setTxpwrFlag p flag) = getTxpwrGain p := by
  have hlt : getTxpwrGain p < 128 := by
    rw [getTxpwrGain_eq]
    omega
  rw [getTxpwrGain_eq, setTxpwrFlag_eq, BitVec.toNat_ofNat]
  omega

theorem getTxpwrGain_saved (pwrGain : BitVec 32) (e : BitVec 8) :
    getTxpwrGain (saved pwrGain e) = (pwrGain &&& gainMask.setWidth 32).toNat := by
  rw [saved, getTxpwrGain_setTxpwrFlag, getTxpwrGain_setTxpwrGain, BitVec.toNat_and]
  exact (Nat.and_two_pow_sub_one_eq_mod _ 7).symm

/-! ## Tables -/

theorem Txpwr.modify_isSome {t : Txpwr} {tab : TxpwrTab} {i : Nat} {f : BitVec 8 → BitVec 8} :
    (t.modify tab i f).isSome ↔ i < tab.size := by
  cases tab <;> simp only [Txpwr.modify, Option.isSome_map, Checked.modify_isSome, TxpwrTab.size]

/-- A change of one entry leaves the others. -/
theorem Txpwr.modify_entry {t t' : Txpwr} {tab : TxpwrTab} {i : Nat} {f : BitVec 8 → BitVec 8}
    (h : t.modify tab i f = some t') (tab' : TxpwrTab) (j : Nat) :
    t'.entry tab' j =
      if tab' = tab ∧ j = i then (t.entry tab' j).map f else t.entry tab' j := by
  cases tab <;> simp only [Txpwr.modify, Option.map_eq_some_iff] at h <;>
    obtain ⟨ys, hys, rfl⟩ := h <;> cases tab' <;>
    simp only [Txpwr.entry, Checked.read_modify hys, true_and, false_and,
      if_false, reduceCtorEq]

theorem Txpwr.entry_isSome {t : Txpwr} {tab : TxpwrTab} {i : Nat} :
    (t.entry tab i).isSome ↔ i < tab.size := by
  cases tab <;> simp only [Txpwr.entry, Checked.read_isSome, TxpwrTab.size]

/-! ## The entry addressed -/

/-- A save of the entry addressed. -/
def saveAt (t : Txpwr) (tab : TxpwrTab) (i : Nat) (channel pwrGain : BitVec 32) : Option Txpwr :=
  match tab with
  | .ble => do
    let t ← t.modify .ble i (saved pwrGain)
    return { t with bleCalBit := bleCalBitAfter t.bleCalBit channel }
  | .g => do
    let t ← t.modify .g i (saved pwrGain)
    let e ← t.entry .g i
    let t ← t.modify .n i fun _ => e
    t.modify .n i fun e => manualCalAdjustFitting e (t.difGN20.setWidth 16)
  | .b | .n | .n40 => t.modify tab i (saved pwrGain)

theorem manualCalSaveTxpwr_eq (t : Txpwr) (rate channel pwrGain : BitVec 32) :
    manualCalSaveTxpwr t rate channel pwrGain =
      (addressed rate channel).elim (some t) fun a => saveAt t a.1 a.2 channel pwrGain := by
  unfold manualCalSaveTxpwr addressed
  split_ifs <;> rfl

/-- A read of the entry addressed. -/
theorem manualCalGetTxpwr_eq (t : Txpwr) {rate channel bandwidth : BitVec 32} {tab : TxpwrTab}
    {i : Nat} (ha : addressed rate channel = some (tab, i)) (hs : Selects bandwidth tab) :
    manualCalGetTxpwr t rate channel bandwidth =
      (t.entry tab i).map fun e => some (getTxpwrGain e) := by
  unfold addressed at ha
  split_ifs at ha with hble hch hch hb hg hn <;> cases ha <;> simp only [manualCalGetTxpwr]
  · rw [if_pos hble, if_neg hch]
  · obtain rfl : bandwidth = phyChnlBw20 := hs
    rw [if_neg hble, if_neg hch, if_neg (by decide), if_pos rfl, if_pos hb]
  · obtain rfl : bandwidth = phyChnlBw20 := hs
    rw [if_neg hble, if_neg hch, if_neg (by decide), if_pos rfl, if_neg hb, if_pos hg]
  · obtain rfl : bandwidth = phyChnlBw40 := hs
    rw [if_neg hble, if_neg hch, if_neg (by decide), if_neg (by decide), if_pos hn]

theorem channel_index_lt {channel : BitVec 32}
    (h : ¬(channel = 0 ∨ BitVec.ofNat 32 wlanChannelNum < channel)) :
    (channel - 1).toNat < wlanChannelNum := by
  rw [not_or, BitVec.lt_def, ← BitVec.toNat_inj] at h
  have hlt := channel.isLt
  rw [BitVec.toNat_sub]
  change ¬channel.toNat = 0 ∧ ¬14 < channel.toNat at h
  change (2 ^ 32 - 1 + channel.toNat) % 2 ^ 32 < 14
  omega

/-- Only channel 40 of BLE is let through to an entry that is not there. -/
theorem addressed_lt {rate channel : BitVec 32} {tab : TxpwrTab} {i : Nat}
    (ha : addressed rate channel = some (tab, i)) :
    i < tab.size ↔ ¬(rate = evmDefualtBleRate ∧ channel = 40) := by
  unfold addressed at ha
  split_ifs at ha with hble hch hch hb hg hn <;> cases ha
  · rw [BitVec.lt_def] at hch
    simp only [hble, true_and, TxpwrTab.size, ← BitVec.toNat_inj]
    change ¬40 < channel.toNat at hch
    change channel.toNat < 40 ↔ ¬channel.toNat = 40
    omega
  all_goals exact iff_of_true (channel_index_lt hch) fun h => hble h.1

/-- A save of an entry that is there changes that entry alone, and that of n20 with one of g. -/
theorem saveAt_spec (t : Txpwr) {tab : TxpwrTab} {i : Nat} (hi : i < tab.size)
    (channel pwrGain : BitVec 32) :
    ∃ t', saveAt t tab i channel pwrGain = some t' ∧
      t'.entry tab i = (t.entry tab i).map (saved pwrGain) ∧
      ∀ tab' j, ¬(tab' = tab ∧ j = i) → ¬(tab' = .n ∧ tab = .g ∧ j = i) →
        t'.entry tab' j = t.entry tab' j := by
  obtain ⟨t₁, h₁⟩ := Option.isSome_iff_exists.mp
    (Txpwr.modify_isSome (t := t) (f := saved pwrGain) |>.mpr hi)
  have hself : t₁.entry tab i = (t.entry tab i).map (saved pwrGain) := by
    rw [Txpwr.modify_entry h₁, if_pos ⟨rfl, rfl⟩]
  have hother : ∀ tab' j, ¬(tab' = tab ∧ j = i) → t₁.entry tab' j = t.entry tab' j := by
    intro tab' j hne
    rw [Txpwr.modify_entry h₁, if_neg hne]
  cases tab with
  | ble =>
    refine ⟨{ t₁ with bleCalBit := bleCalBitAfter t₁.bleCalBit channel }, ?_, ?_, ?_⟩
    · rw [saveAt, h₁]
      rfl
    · exact hself
    · intro tab' j hne _
      exact (hother tab' j hne : t₁.entry tab' j = _)
  | g =>
    obtain ⟨e, he⟩ := Option.isSome_iff_exists.mp (Txpwr.entry_isSome (t := t₁) |>.mpr hi)
    have hn : i < TxpwrTab.n.size := hi
    obtain ⟨t₂, h₂⟩ := Option.isSome_iff_exists.mp
      (Txpwr.modify_isSome (t := t₁) (f := fun _ => e) |>.mpr hn)
    obtain ⟨t₃, h₃⟩ := Option.isSome_iff_exists.mp
      (Txpwr.modify_isSome (t := t₂)
        (f := fun e => manualCalAdjustFitting e (t₂.difGN20.setWidth 16)) |>.mpr hn)
    have hfit : ∀ tab' j, ¬(tab' = .n ∧ j = i) → t₃.entry tab' j = t₁.entry tab' j := by
      intro tab' j hne
      rw [Txpwr.modify_entry h₃, if_neg hne, Txpwr.modify_entry h₂, if_neg hne]
    refine ⟨t₃, ?_, ?_, ?_⟩
    · simp only [saveAt, h₁, he, h₂, Option.bind_eq_bind, Option.bind_some]
      exact h₃
    · rw [hfit .g i (by simp), hself]
    · intro tab' j hne hn20
      rw [hfit tab' j fun h => hn20 ⟨h.1, rfl, h.2⟩, hother tab' j hne]
  | b => exact ⟨t₁, h₁, hself, fun tab' j hne _ => hother tab' j hne⟩
  | n => exact ⟨t₁, h₁, hself, fun tab' j hne _ => hother tab' j hne⟩
  | n40 => exact ⟨t₁, h₁, hself, fun tab' j hne _ => hother tab' j hne⟩

theorem exists_selects (tab : TxpwrTab) : ∃ bandwidth, Selects bandwidth tab := by
  cases tab with
  | ble => exact ⟨0, trivial⟩
  | n40 => exact ⟨phyChnlBw40, rfl⟩
  | b => exact ⟨phyChnlBw20, rfl⟩
  | g => exact ⟨phyChnlBw20, rfl⟩
  | n => exact ⟨phyChnlBw20, rfl⟩

/-- A save is right exactly if it is not of channel 40 of BLE. -/
theorem savedRight_iff (t : Txpwr) (rate channel pwrGain : BitVec 32) :
    SavedRight t rate channel pwrGain ↔ ¬(rate = evmDefualtBleRate ∧ channel = 40) := by
  have hsave := manualCalSaveTxpwr_eq t rate channel pwrGain
  cases ha : addressed rate channel with
  | none =>
    rw [ha] at hsave
    have hno : ¬(rate = evmDefualtBleRate ∧ channel = 40) := by
      rintro ⟨rfl, rfl⟩
      revert ha
      decide
    refine iff_of_true ⟨t, hsave, fun _ _ _ _ => rfl, fun _ => rfl, ?_⟩ hno
    intro tab i bandwidth h
    rw [ha] at h
    cases h
  | some a =>
    obtain ⟨tab, i⟩ := a
    rw [ha] at hsave
    rw [← addressed_lt ha]
    constructor
    · -- a read can find the entry only if it is there
      rintro ⟨t', -, -, -, hget⟩
      obtain ⟨bandwidth, hsel⟩ := exists_selects tab
      have hread := hget tab i bandwidth ha hsel
      rw [manualCalGetTxpwr_eq t' ha hsel, Option.map_eq_some_iff] at hread
      obtain ⟨e, he, -⟩ := hread
      exact Txpwr.entry_isSome.mp (by rw [he]; rfl)
    · intro hi
      obtain ⟨t', ht', hself, hother⟩ := saveAt_spec t hi channel pwrGain
      refine ⟨t', hsave.trans ht', ?_, ?_, ?_⟩
      · intro tab' j hne hn20
        refine hother tab' j (fun h => hne ?_) fun h => hn20 ⟨h.1, ?_⟩
        · rw [ha, h.1, h.2]
        · rw [ha, h.2.1, h.2.2]
      · intro hno
        rw [ha] at hno
        cases hno
      · intro tab' j bandwidth ha' hsel
        obtain ⟨e, he⟩ := Option.isSome_iff_exists.mp (Txpwr.entry_isSome (t := t) |>.mpr hi)
        rw [ha] at ha'
        cases ha'
        rw [manualCalGetTxpwr_eq t' ha hsel, hself, he]
        simp only [Option.map_some, getTxpwrGain_saved]

/-- Tables of zeros, with the differences of the source. -/
def Txpwr.zero : Txpwr :=
  ⟨Vector.replicate _ 0, Vector.replicate _ 0, Vector.replicate _ 0, Vector.replicate _ 0,
    Vector.replicate _ 0, 4, 4, 0⟩

/-- BLE has channels 0 to 39, and channel 40 is written behind its table. -/
theorem savedRight_ble40 :
    ¬ ∀ (t : Txpwr) (rate channel pwrGain : BitVec 32), SavedRight t rate channel pwrGain := by
  intro h
  obtain ⟨t', ht', -⟩ := h .zero evmDefualtBleRate 40 16
  have hout : manualCalSaveTxpwr .zero evmDefualtBleRate 40 16 = none := by decide
  rw [hout] at ht'
  cases ht'

end TuyaSdk.ManualCal
