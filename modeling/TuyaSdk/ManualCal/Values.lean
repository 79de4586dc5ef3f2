import TuyaSdk.ManualCal.Saves

/-!
# Writing values

`manual_cal_write_macaddr_to_flash` and `manual_cal_set_rfcali_status_inflash` write over the value
of an element where it lies.
-/

namespace TuyaSdk.ManualCal
open TuyaSdk.Lib TuyaSdk.Flash

variable {dev : FlashDev} {gs pre post : Groups} {k : Kind} {g : Group}
  {epre epost : List (Nat × List Byte)} {t : Nat} {v value spare : List Byte}

/-- The bytes before and behind a value of the sector. -/
theorem image_split_value (pre post : Groups) {n : Nat}
    (hg : Group.Ok k ⟨epre ++ (t, v) :: epost, spare⟩) (hn : v.length = n) :
    image (pre ++ (k, ⟨epre ++ (t, v) :: epost, spare⟩) :: post) =
      (wordBytes BK_FLASH_OPT_TLV_HEADER ++
          (wordBytes ((Tlv.body (areas pre)).length + (k.len + (Tlv.body (areas post)).length)) ++
            (Tlv.body (areas pre) ++ (wordBytes k.type ++ (wordBytes (k.len - 8) ++
              (Tlv.body epre ++ (wordBytes t ++ wordBytes n))))))) ++
        (v ++ (Tlv.body epost ++ (spare ++ Tlv.body (areas post)))) := by
  have hlen := hg.length_bytes
  have hsub : (Group.bytes ⟨epre ++ (t, v) :: epost, spare⟩).length = k.len - 8 := by omega
  rw [image_split pre post hg, Tlv.elemBytes, hsub, Group.bytes, Tlv.body_append, Tlv.body_cons,
    Tlv.elemBytes, hn]
  simp only [List.append_assoc]

theorem writeElem_spec (h : Stored dev (pre ++ (k, ⟨epre ++ (t, v) :: epost, spare⟩) :: post))
    (hk : k ∉ Assoc.keys pre) (hlen : value.length = v.length) (hpos : 0 < v.length)
    (readBuf : Mem) :
    ∃ dev', writeElem dev readBuf (startAddr + 8 + (Tlv.body (areas pre)).length) t value =
        some (1, dev') ∧
      Saved dev (pre ++ (k, ⟨epre ++ (t, value) :: epost, spare⟩) :: post) dev' := by
  have hg := h.ok.group
  have hgbytes := hg.length_bytes
  have hg' := hg.replace hlen
  have hareas := h.ok.length_areas
  have hs : startAddr = 0x1D0000 := rfl
  have h8 : sizeofTagTxpwr = 8 := rfl
  have hsplit := image_split_value pre post hg rfl
  have hsplit' := image_split_value pre post hg' hlen
  have hne : ∀ g, pre ++ (k, g) :: post ≠ [] := fun g =>
    List.append_ne_nil_of_right_ne_nil _ (List.cons_ne_nil _ _)
  have himage := length_image (pre ++ (k, ⟨epre ++ (t, v) :: epost, spare⟩) :: post)
  have htotal := congrArg List.length hsplit
  obtain ⟨hfound, -⟩ := manualCalSearchTxpwrTab_elem h hk
  have hvalue : BytesAt (fun i => value.getD i 0) 0 value := by
    apply List.ext_getElem (length_readBytes _ _ _)
    intro i hi hi'
    rw [getElem_readBytes, Nat.zero_add, List.getD_eq_getElem _ _ hi']
  have hsaved := h.patch readBuf (hne _) (h.ok.replace hg') (hne _) hsplit hsplit' hlen hpos
    (by simp only [List.length_append, length_wordBytes]; omega) hvalue
  simp only [List.length_append, length_wordBytes] at hsaved htotal
  have hoff : sub32 (u32 (startAddr + 8 + (Tlv.body (areas pre)).length + 8 +
      (Tlv.body epre).length + sizeofTagTxpwr)) startAddr =
      4 + (4 + ((Tlv.body (areas pre)).length + (4 + (4 + ((Tlv.body epre).length + (4 + 4)))))) := by
    rw [u32_of_lt (by omega), sub32_of_le (by omega) (by omega)]
    omega
  rw [writeElem, hfound, Option.map_some, if_neg (by omega), hoff]
  exact ⟨_, rfl, hsaved⟩

/-- The groups with a new value of an element. -/
def setElem (gs : Groups) (k : Kind) (t : Nat) (v : List Byte) : Groups :=
  match Assoc.get gs k with
  | none => gs
  | some g => Assoc.put gs k ⟨Assoc.put g.elems t v, g.spare⟩

/-- Writing over a value of a group that is there. The group does not move. -/
theorem writeElem_setElem (h : Stored dev gs) (hk : k ∈ Assoc.keys gs)
    (ht : (t, value.length) ∈ k.layout) (hpos : 0 < value.length) (readBuf : Mem) :
    ∃ addr dev', addr ≠ 0 ∧ manualCalSearchTxpwrTab dev k.type startAddr = some addr ∧
      writeElem dev readBuf addr t value = some (1, dev') ∧ Saved dev (setElem gs k t value) dev' ∧
      manualCalSearchTxpwrTab dev' k.type startAddr = some addr := by
  obtain ⟨g, hg⟩ := Assoc.get_of_mem_keys hk
  rw [setElem, hg]
  simp only
  obtain ⟨pre, post, rfl, hpre⟩ := Assoc.split_of_get hg
  obtain ⟨epre, v, epost, hsplit, hepre, hv⟩ := h.ok.group.split ht
  obtain ⟨es, spare⟩ := g
  simp only at hsplit
  rw [hsplit] at h
  obtain ⟨dev', hwrite, hsaved⟩ := writeElem_spec h hpre hv.symm (by omega) readBuf
  rw [Assoc.put_split hpre, hsplit, Assoc.put_split hepre]
  exact ⟨_, dev', by omega, (manualCalSearchTxpwrTab_group h hpre).1, hwrite, hsaved,
    (manualCalSearchTxpwrTab_group hsaved.stored hpre).1⟩

/-! ## The MAC address -/

theorem Stored.txid_mem (h : Stored dev gs) (hgs : gs ≠ []) : Kind.txid ∈ Assoc.keys gs := by
  obtain ⟨g, gs', rfl⟩ := h.ok.first.resolve_left hgs
  exact List.mem_cons_self

/-- The current values that `manual_cal_write_macaddr_to_flash` makes `TXID` of. -/
def macGlobals (g : Globals) (defaultTxidXtal defXtal : Nat) : Globals :=
  { g with xtal := if g.xtal = defaultTxidXtal then defXtal else g.xtal }

/-- `manual_cal_write_macaddr_to_flash` makes `TXID` where there is no header, and then writes the
address. -/
theorem manualCalWriteMacaddrToFlash_spec (h : Stored dev gs) (heap heap' : Heap) (g : Globals)
    (defaultTxidXtal defXtal : Nat) (mac : Nat → Byte) :
    ∃ dev', manualCalWriteMacaddrToFlash dev heap heap' g defaultTxidXtal defXtal mac =
        some (1, dev') ∧
      Saved dev (setElem (if gs = [] then
          [(.txid, ⟨chipinfoElems (macGlobals g defaultTxidXtal defXtal), []⟩)] else gs)
        .txid TXID_MAC (readBytes mac 0 6)) dev' := by
  have hmac : (TXID_MAC, (readBytes mac 0 6).length) ∈ Kind.txid.layout := by
    rw [length_readBytes]
    decide
  have hpos : 0 < (readBytes mac 0 6).length := by
    rw [length_readBytes]
    decide
  -- from the state in which there is a header
  have hwrite : ∀ {dev₁ : FlashDev} {gs₁ : Groups}, Saved dev gs₁ dev₁ → gs₁ ≠ [] → ∃ dev',
      (manualCalSearchTxpwrTab dev₁ TXID startAddr).bind (fun addrStart =>
        if addrStart = 0 then some (0, dev₁)
        else writeElem dev₁ heap'.readBuf addrStart TXID_MAC (readBytes mac 0 6)) = some (1, dev') ∧
      Saved dev (setElem gs₁ .txid TXID_MAC (readBytes mac 0 6)) dev' := by
    intro dev₁ gs₁ h₁ hgs₁
    obtain ⟨addr, dev', haddr, hfound, hw, hsaved, -⟩ := writeElem_setElem h₁.stored
      (h₁.stored.txid_mem hgs₁) hmac hpos heap'.readBuf
    have hfound : manualCalSearchTxpwrTab dev₁ TXID startAddr = some addr := hfound
    rw [hfound, Option.bind_some, if_neg haddr, hw]
    exact ⟨dev', rfl, h₁.trans hsaved⟩
  by_cases hgs : gs = []
  · rw [if_pos hgs]
    rw [hgs] at h
    obtain ⟨dev₁, hsave, hsaved⟩ := manualCalSaveChipinfoTabToFlash_spec h heap
      (macGlobals g defaultTxidXtal defXtal)
    obtain ⟨dev', hw, hs⟩ := hwrite hsaved (Assoc.put_ne_nil _ _ _)
    refine ⟨dev', ?_, hs⟩
    rw [macGlobals] at hsave
    rw [manualCalWriteMacaddrToFlash, manualCalSearchOptTab_none h]
    simp only
    rw [hsave]
    simp only [Option.bind_some]
    exact hw
  · rw [if_neg hgs]
    obtain ⟨dev', hw, hs⟩ := hwrite h.saved hgs
    refine ⟨dev', ?_, hs⟩
    rw [manualCalWriteMacaddrToFlash, manualCalSearchOptTab_some h hgs]
    simp only [Option.bind_some]
    exact hw

/-! ## The calibration status -/

/-- The value of `TXPWR_ENABLE_ID` for a status. -/
def readyOf (rfStatus : Nat) : Nat :=
  if rfStatus = 0 then TXPWR_NONE_RD else manualCalTxpwrTabIsFitted

/-- `manual_cal_set_rfcali_status_inflash` does nothing where there is no `TXPWR_TAB_TAB`. -/
theorem manualCalSetRfcaliStatusInflash_none (h : Stored dev gs)
    (hk : Kind.txpwrTabTab ∉ Assoc.keys gs) (heap heap' : Heap) (rfStatus : Nat) :
    manualCalSetRfcaliStatusInflash dev heap heap' rfStatus = some (0, dev) := by
  have hnone := manualCalSearchTxpwrTab_none h hk
  have hfound : manualCalSearchTxpwrTab dev TXPWR_TAB_TAB startAddr = some 0 := hnone
  by_cases hgs : gs = []
  · rw [hgs] at h
    rw [manualCalSetRfcaliStatusInflash, manualCalSearchOptTab_none h]
  · rw [manualCalSetRfcaliStatusInflash, manualCalSearchOptTab_some h hgs]
    simp only
    rw [hfound, Option.bind_some, if_pos rfl]

theorem manualCalSetRfcaliStatusInflash_spec (h : Stored dev gs)
    (hk : Kind.txpwrTabTab ∈ Assoc.keys gs) (heap heap' : Heap) (rfStatus : Nat) :
    ∃ dev', manualCalSetRfcaliStatusInflash dev heap heap' rfStatus = some (1, dev') ∧
      Saved dev (setElem (setElem gs .txpwrTabTab TXPWR_TAB_CALI_STATUTS (wordBytes rfStatus))
        .txpwrTabTab TXPWR_ENABLE_ID (wordBytes (readyOf rfStatus))) dev' := by
  have hgs : gs ≠ [] := fun hnil => by
    rw [hnil] at hk
    exact List.not_mem_nil hk
  have hstatus : (TXPWR_TAB_CALI_STATUTS, (wordBytes rfStatus).length) ∈ Kind.txpwrTabTab.layout := by
    rw [length_wordBytes]
    decide
  have henable : (TXPWR_ENABLE_ID, (wordBytes (readyOf rfStatus)).length) ∈
      Kind.txpwrTabTab.layout := by
    rw [length_wordBytes]
    decide
  have hpos : ∀ v, 0 < (wordBytes v).length := fun v => by
    rw [length_wordBytes]
    decide
  obtain ⟨addr, dev₁, haddr, hfound, hw, hsaved, hfound₁⟩ := writeElem_setElem h hk hstatus (hpos _)
    heap.readBuf
  have hk₁ : Kind.txpwrTabTab ∈
      Assoc.keys (setElem gs .txpwrTabTab TXPWR_TAB_CALI_STATUTS (wordBytes rfStatus)) := by
    obtain ⟨g, hg⟩ := Assoc.get_of_mem_keys hk
    rw [setElem, hg]
    exact Assoc.mem_keys_put.mpr (.inl rfl)
  obtain ⟨addr', dev₂, haddr', hfound', hw', hsaved', -⟩ :=
    writeElem_setElem hsaved.stored hk₁ henable (hpos _) heap'.readBuf
  rw [hfound₁] at hfound'
  cases hfound'
  have hfound : manualCalSearchTxpwrTab dev TXPWR_TAB_TAB startAddr = some addr := hfound
  refine ⟨dev₂, ?_, hsaved.trans hsaved'⟩
  rw [readyOf] at hw'
  rw [manualCalSetRfcaliStatusInflash, manualCalSearchOptTab_some h hgs]
  simp only
  rw [hfound, Option.bind_some, if_neg haddr, hw, Option.bind_some, if_neg Nat.one_ne_zero]
  exact hw'

end TuyaSdk.ManualCal
