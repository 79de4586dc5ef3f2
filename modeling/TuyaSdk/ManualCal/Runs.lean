import TuyaSdk.ManualCal.Values

/-!
# Runs of the calibration store

`Contents` is what the store is for: the groups with their elements, as operations write them. A
run keeps the flash a picture of its contents (`runOps_stored`), except that
`manual_cal_save_txpwr_tab_to_flash` counts a table more than it lays out: the picture is exact
just as long as that save has not come behind a header.
-/

namespace TuyaSdk.ManualCal
open TuyaSdk.Lib TuyaSdk.Flash

/-! ## Operations -/

/-- An operation, with the buffers it gets and the current values. -/
inductive Op where
  | saveChipinfo (heap : Heap) (g : Globals)
  | saveTxpwr (heap : Heap) (g : Globals)
  | writeMacaddr (heap heap' : Heap) (g : Globals) (defaultTxidXtal defXtal : Nat)
      (mac : Nat → Byte)
  | setRfcaliStatus (heap heap' : Heap) (rfStatus : Nat)
  | saveCailmainTx (heap : Heap) (g : Globals)
  | saveCailmainRx (heap : Heap) (g : Globals)

/-- Elements by group. -/
abbrev Contents := List (Kind × List (Nat × List Byte))

/-- The contents with the element `t` of the group `k` set, where there is such a group. -/
def Contents.setElem (c : Contents) (k : Kind) (t : Nat) (v : List Byte) : Contents :=
  match Assoc.get c k with
  | none => c
  | some es => Assoc.put c k (Assoc.put es t v)

/-- The contents with the group `k` set, where there are any. -/
def Contents.setGroup (c : Contents) (k : Kind) (es : List (Nat × List Byte)) : Contents :=
  if c = [] then c else Assoc.put c k es

namespace Op

/-- The operation on the flash. -/
def run (dev : FlashDev) : Op → Option (Nat × FlashDev)
  | saveChipinfo heap g => manualCalSaveChipinfoTabToFlash dev heap g
  | saveTxpwr heap g => manualCalSaveTxpwrTabToFlash dev heap g
  | writeMacaddr heap heap' g defaultTxidXtal defXtal mac =>
    manualCalWriteMacaddrToFlash dev heap heap' g defaultTxidXtal defXtal mac
  | setRfcaliStatus heap heap' rfStatus => manualCalSetRfcaliStatusInflash dev heap heap' rfStatus
  | saveCailmainTx heap g => manualCalSaveCailmainTxTabToFlash dev heap g
  | saveCailmainRx heap g => manualCalSaveCailmainRxTabToFlash dev heap g

/-- What the operation does to the contents. -/
def apply (c : Contents) : Op → Contents
  | saveChipinfo _ g => Assoc.put c .txid (chipinfoElems g)
  | saveTxpwr _ g => c.setGroup .txpwrTabTab (txpwrElems g)
  | writeMacaddr _ _ g defaultTxidXtal defXtal mac =>
    let c := if c = [] then [(.txid, chipinfoElems (macGlobals g defaultTxidXtal defXtal))] else c
    Contents.setElem c .txid TXID_MAC (readBytes mac 0 6)
  | setRfcaliStatus _ _ rfStatus =>
    (c.setElem .txpwrTabTab TXPWR_TAB_CALI_STATUTS (wordBytes rfStatus)).setElem
      .txpwrTabTab TXPWR_ENABLE_ID (wordBytes (readyOf rfStatus))
  | saveCailmainTx _ g => c.setGroup .caliMainTx (cailmainTxElems g)
  | saveCailmainRx _ g => c.setGroup .caliMainRx (cailmainRxElems g)

/-- The group an operation writes. -/
def kind : Op → Kind
  | saveChipinfo _ _ => .txid
  | saveTxpwr _ _ => .txpwrTabTab
  | writeMacaddr _ _ _ _ _ _ => .txid
  | setRfcaliStatus _ _ _ => .txpwrTabTab
  | saveCailmainTx _ _ => .caliMainTx
  | saveCailmainRx _ _ => .caliMainRx

/-- The operation is `manual_cal_save_txpwr_tab_to_flash`. -/
def savesTxpwr : Op → Bool
  | saveTxpwr _ _ => true
  | _ => false

/-- There is a header after the operation. -/
def makesHeader : Op → Bool
  | saveChipinfo _ _ => true
  | writeMacaddr _ _ _ _ _ _ => true
  | _ => false

end Op

/-- The operations one after the other. -/
def runOps (dev : FlashDev) : List Op → Option FlashDev
  | [] => some dev
  | op :: ops => (op.run dev).bind fun r => runOps r.2 ops

/-- The contents after operations from an erased sector on. -/
def contents (ops : List Op) : Contents := ops.foldl Op.apply []

/-! ## Steps -/

theorem txpwrElems_layout (g : Globals) :
    ((txpwrElems g).map fun e => (e.1, e.2.length)) = Kind.txpwrTabTab.layout := by
  simp only [txpwrElems, List.map_cons, List.map_nil, length_wordBytes, length_readBytes,
    Kind.layout]

theorem cailmainTxElems_layout (g : Globals) :
    ((cailmainTxElems g).map fun e => (e.1, e.2.length)) = Kind.caliMainTx.layout := by
  rw [cailmainTxElems, List.map_map]
  rfl

theorem cailmainRxElems_layout (g : Globals) :
    ((cailmainRxElems g).map fun e => (e.1, e.2.length)) = Kind.caliMainRx.layout := rfl

/-- The elements of groups. -/
def contentsOf (gs : Groups) : Contents := Assoc.mapVal Group.elems gs

variable {dev dev' : FlashDev} {gs gs' : Groups} {k : Kind}

theorem contentsOf_eq_nil : contentsOf gs = [] ↔ gs = [] := List.map_eq_nil_iff

theorem contentsOf_setElem (gs : Groups) (k : Kind) (t : Nat) (v : List Byte) :
    contentsOf (setElem gs k t v) = (contentsOf gs).setElem k t v := by
  rw [setElem, Contents.setElem, contentsOf, contentsOf, Assoc.get_mapVal]
  cases Assoc.get gs k with
  | none => rfl
  | some g => exact Assoc.mapVal_put Group.elems gs k _

theorem setElem_ne {k' : Kind} (hk : k' ≠ k) (t : Nat) (v : List Byte) :
    Assoc.get (setElem gs k t v) k' = Assoc.get gs k' := by
  rw [setElem]
  cases Assoc.get gs k with
  | none => rfl
  | some g => exact Assoc.get_put_ne hk

/-- The flash has the contents of `op` after it, and the groups that are not its own. -/
def Steps (dev : FlashDev) (gs : Groups) (op : Op) : Prop :=
  ∃ r dev' gs', op.run dev = some (r, dev') ∧ Saved dev gs' dev' ∧
    contentsOf gs' = op.apply (contentsOf gs) ∧
    ∀ k, k ≠ op.kind → Assoc.get gs' k = Assoc.get gs k

theorem steps_saveGroup {op : Op} {heap : Heap} {es : List (Nat × List Byte)} (h : Stored dev gs)
    (hrun : op.run dev = saveGroup dev heap op.kind.type op.kind.len es)
    (happly : op.apply (contentsOf gs) = (contentsOf gs).setGroup op.kind es)
    (hes : (es.map fun e => (e.1, e.2.length)) = op.kind.layout) : Steps dev gs op := by
  by_cases hgs : gs = []
  · refine ⟨0, dev, gs, ?_, h.saved, ?_, fun _ _ => rfl⟩
    · rw [hgs] at h
      rw [hrun]
      exact saveGroup_none h _ _ _
    · rw [happly, Contents.setGroup, if_pos (contentsOf_eq_nil.mpr hgs)]
  · obtain ⟨g, dev', hsave, rfl, -, hsaved⟩ := saveGroup_spec h hgs heap hes
    refine ⟨1, dev', Assoc.put gs op.kind g, hrun.trans hsave, hsaved, ?_,
      fun k hk => Assoc.get_put_ne hk⟩
    rw [happly, Contents.setGroup, if_neg (mt contentsOf_eq_nil.mp hgs)]
    exact Assoc.mapVal_put Group.elems gs op.kind g

theorem Stored.steps (h : Stored dev gs) (op : Op) : Steps dev gs op := by
  cases op with
  | saveChipinfo heap g =>
    obtain ⟨dev', hsave, hsaved⟩ := manualCalSaveChipinfoTabToFlash_spec h heap g
    exact ⟨1, dev', _, hsave, hsaved, Assoc.mapVal_put Group.elems gs .txid _,
      fun k hk => Assoc.get_put_ne hk⟩
  | saveTxpwr heap g =>
    have hrun : (Op.saveTxpwr heap g).run dev =
        saveGroup dev heap TXPWR_TAB_TAB txpwrLen (txpwrElems g) := by
      rw [Op.run, manualCalSaveTxpwrTabToFlash]
    exact steps_saveGroup h hrun rfl (txpwrElems_layout g)
  | saveCailmainTx heap g =>
    have hrun : (Op.saveCailmainTx heap g).run dev =
        saveGroup dev heap CALI_MAIN_TX cailmainTxLen (cailmainTxElems g) := by
      rw [Op.run, manualCalSaveCailmainTxTabToFlash]
    exact steps_saveGroup h hrun rfl (cailmainTxElems_layout g)
  | saveCailmainRx heap g =>
    have hrun : (Op.saveCailmainRx heap g).run dev =
        saveGroup dev heap CALI_MAIN_RX cailmainRxLen (cailmainRxElems g) := by
      rw [Op.run, manualCalSaveCailmainRxTabToFlash]
    exact steps_saveGroup h hrun rfl (cailmainRxElems_layout g)
  | writeMacaddr heap heap' g defaultTxidXtal defXtal mac =>
    obtain ⟨dev', hwrite, hsaved⟩ :=
      manualCalWriteMacaddrToFlash_spec h heap heap' g defaultTxidXtal defXtal mac
    refine ⟨1, dev', _, hwrite, hsaved, ?_, fun k hk => ?_⟩
    · rw [contentsOf_setElem, Op.apply]
      by_cases hgs : gs = []
      · rw [if_pos hgs, if_pos (contentsOf_eq_nil.mpr hgs)]
        rfl
      · rw [if_neg hgs, if_neg (mt contentsOf_eq_nil.mp hgs)]
    · have hk : k ≠ Kind.txid := hk
      rw [setElem_ne hk]
      by_cases hgs : gs = []
      · rw [if_pos hgs, hgs]
        exact if_neg (Ne.symm hk)
      · rw [if_neg hgs]
  | setRfcaliStatus heap heap' rfStatus =>
    by_cases hk : Kind.txpwrTabTab ∈ Assoc.keys gs
    · obtain ⟨dev', hset, hsaved⟩ := manualCalSetRfcaliStatusInflash_spec h hk heap heap' rfStatus
      refine ⟨1, dev', _, hset, hsaved, ?_, fun k hk => ?_⟩
      · rw [contentsOf_setElem, contentsOf_setElem]
        rfl
      · have hk : k ≠ Kind.txpwrTabTab := hk
        rw [setElem_ne hk, setElem_ne hk]
    · refine ⟨0, dev, gs, manualCalSetRfcaliStatusInflash_none h hk heap heap' rfStatus, h.saved, ?_,
        fun _ _ => rfl⟩
      have hnone : Assoc.get (contentsOf gs) Kind.txpwrTabTab = none := by
        rw [contentsOf, Assoc.get_mapVal, Assoc.get_eq_none.mpr hk]
        rfl
      have hkeep : ∀ t v, (contentsOf gs).setElem .txpwrTabTab t v = contentsOf gs := by
        intro t v
        rw [Contents.setElem, hnone]
      rw [Op.apply, hkeep, hkeep]

/-- A run keeps the flash a picture of the contents. -/
theorem runOps_stored (h : Stored dev gs) (ops : List Op) :
    ∃ dev' gs', runOps dev ops = some dev' ∧ Saved dev gs' dev' ∧
      contentsOf gs' = ops.foldl Op.apply (contentsOf gs) := by
  induction ops generalizing dev gs with
  | nil => exact ⟨dev, gs, rfl, h.saved, rfl⟩
  | cons op ops ih =>
    obtain ⟨r, dev₁, gs₁, hrun, hsaved₁, hc₁, -⟩ := h.steps op
    obtain ⟨dev', gs', hruns, hsaved, hc⟩ := ih hsaved₁.stored
    refine ⟨dev', gs', ?_, hsaved₁.trans hsaved, ?_⟩
    · rw [runOps, hrun, Option.bind_some]
      exact hruns
    · rw [hc, hc₁, List.foldl_cons]

end TuyaSdk.ManualCal
