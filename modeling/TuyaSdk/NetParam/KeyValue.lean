import TuyaSdk.NetParam.Store

/-!
# The store as a map

Runs of `save_info_item` from an erased partition. The flash then holds the items saved with
their last values, and a save changes no other item. What was saved is what `get_info_item`
gives back, but for two items that its switch and that of `save_info_item` treat differently
(`keyValueStore_iff`).
-/

namespace TuyaSdk.NetParam
open TuyaSdk.Lib TuyaSdk.Flash

/-- A call of `save_info_item`. -/
structure Save where
  item : NetInfoItem
  ptr0 : Nat → Byte
  ptr1 : Nat → Byte
  ptr2 : Nat → Byte

/-- The value that the call stores. -/
def Save.value (sv : Save) : List Byte := valueOf sv.item sv.ptr0 sv.ptr1 sv.ptr2

/-- What the call reads through its pointers, as a result of `get_info_item`. -/
def Save.read (sv : Save) : Got :=
  match sv.item with
  | .wifiMacItem => ⟨1, readBytes sv.ptr0 0 6, [], []⟩
  | .ssidKeyItem => ⟨1, readBytes sv.ptr0 0 32, readBytes sv.ptr1 0 64, []⟩
  | .ipConfigItem => ⟨1, readBytes sv.ptr0 0 16, readBytes sv.ptr1 0 16, readBytes sv.ptr2 0 16⟩
  | _ => ⟨1, readBytes sv.ptr0 0 4, [], []⟩

/-- Saves one after the other, each of them with a result of 1. -/
def saveAll (dev : FlashDev) : List Save → Option FlashDev
  | [] => some dev
  | sv :: svs =>
    match saveInfoItem dev true sv.item sv.ptr0 sv.ptr1 sv.ptr2 with
    | some (1, dev') => saveAll dev' svs
    | _ => none

/-- The last save of the item. -/
def lastSave (item : NetInfoItem) (svs : List Save) : Option Save :=
  (svs.filter fun sv => sv.item = item).getLast?

/-- The bytes that lie in the flash as the value of the item. -/
def storedValue (dev : FlashDev) (item : NetInfoItem) : Option (List Byte) :=
  match searchInfoTbl dev with
  | none => none
  | some _ =>
    (searchInfoItem dev item startAddr).bind fun addr =>
      if addr = 0 then none
      else some (flashRead dev (readHead dev addr).len (u32 (addr + sizeofInfoItem)))

/-- A TLV table of at most a sector: a head with the length of the item area, the items end
to end, each type once at most. -/
def WellFormedTable (dev : FlashDev) : Prop :=
  ∃ t : Table, (Assoc.keys t).Nodup ∧ (encode t).length ≤ 4096 ∧
    BytesAt dev.cells startAddr (encode t)

/-- The saves work as updates of a map, and `get_info_item` as its lookup. -/
structure KeyValueStore (dev : FlashDev) (svs : List Save) : Prop where
  table : ∃ dev', saveAll dev svs = some dev' ∧ (svs ≠ [] → WellFormedTable dev')
  others : ∀ pre sv post dev₁ dev₂, svs = pre ++ sv :: post → saveAll dev pre = some dev₁ →
    saveAll dev (pre ++ [sv]) = some dev₂ →
    ∀ item, item ≠ sv.item → storedValue dev₂ item = storedValue dev₁ item
  got : ∀ dev', saveAll dev svs = some dev' → ∀ item,
    getInfoItem dev' item true true true =
      some (match lastSave item svs with
        | none => ⟨0, [], [], []⟩
        | some sv => sv.read)

/-! ## Runs -/

/-- The table after the saves. -/
def tableAfter (t : Table) (svs : List Save) : Table :=
  svs.foldl (fun t sv => Assoc.put t sv.item sv.value) t

theorem saveAll_spec {dev : FlashDev} {t : Table} (h : Stored dev t) (svs : List Save) :
    ∃ dev', saveAll dev svs = some dev' ∧ Stored dev' (tableAfter t svs) := by
  induction svs generalizing dev t with
  | nil => exact ⟨dev, rfl, h⟩
  | cons sv svs ih =>
    obtain ⟨dev₁, hsave, h₁⟩ := saveInfoItem_spec h sv.item sv.ptr0 sv.ptr1 sv.ptr2
    obtain ⟨dev', hall, h'⟩ := ih h₁
    refine ⟨dev', ?_, h'⟩
    rw [saveAll, hsave]
    exact hall

theorem tableAfter_concat (t : Table) (svs : List Save) (sv : Save) :
    tableAfter t (svs ++ [sv]) = Assoc.put (tableAfter t svs) sv.item sv.value := List.foldl_append

theorem lastSave_concat (item : NetInfoItem) (svs : List Save) (sv : Save) :
    lastSave item (svs ++ [sv]) = if sv.item = item then some sv else lastSave item svs := by
  rw [lastSave, lastSave, List.filter_append]
  by_cases h : sv.item = item
  · simp [h]
  · simp [h]

theorem lastSave_item {item : NetInfoItem} {svs : List Save} {sv : Save}
    (h : lastSave item svs = some sv) : sv.item = item := by
  have hmem := List.mem_filter.mp (List.mem_of_getLast? h)
  exact of_decide_eq_true hmem.2

/-- The table holds the last value of each item that has been saved. -/
theorem get_tableAfter (svs : List Save) (item : NetInfoItem) :
    Assoc.get (tableAfter [] svs) item = (lastSave item svs).map Save.value := by
  induction svs using List.reverseRecOn with
  | nil => rfl
  | append_singleton svs sv ih =>
    rw [tableAfter_concat, lastSave_concat]
    by_cases h : sv.item = item
    · rw [if_pos h, h, Assoc.get_put_same, Option.map_some]
    · rw [if_neg h, Assoc.get_put_ne (Ne.symm h), ih]

theorem storedValue_eq {dev : FlashDev} {t : Table} (h : Stored dev t) (item : NetInfoItem) :
    storedValue dev item = Assoc.get t item := by
  cases hg : Assoc.get t item with
  | none =>
    have hitem := Assoc.get_eq_none.mp hg
    by_cases ht : t = []
    · rw [ht] at h
      rw [storedValue, searchInfoTbl_none h]
    · rw [storedValue, searchInfoTbl_some h ht]
      simp only
      rw [searchInfoItem_missing h ht hitem]
      rfl
  | some v =>
    obtain ⟨pre, post, rfl, hpre⟩ := Assoc.split_of_get hg
    obtain ⟨addr, haddr, hfound, hhead, hvalue, -, -⟩ := searchInfoItem_value h hpre
    rw [storedValue, searchInfoTbl_some h (by simp)]
    simp only
    rw [hfound, Option.bind_some, if_neg (by omega), hhead]
    exact congrArg some hvalue

theorem erased_stored {dev : FlashDev} (hdev : 0x1D2000 ≤ dev.size)
    (h : Nor.Erased dev.cells startAddr 0x1000) : Stored dev [] := by
  refine ⟨hdev, ⟨List.nodup_nil, fun _ he => absurd he List.not_mem_nil⟩, ?_⟩
  have hword : BytesAt dev.cells startAddr (wordBytes 0xffffffff) := by
    simp only [wordBytes, bytesAt_cons]
    refine ⟨h _ (by decide) (by decide), h _ (by decide) (by decide), h _ (by decide) (by decide),
      h _ (by decide) (by decide), bytesAt_nil _ _⟩
  rw [if_pos rfl, hword.read32 (by decide)]
  decide

/-! ## What is got back -/

/-- An item for which the switches of saving and getting agree. -/
def NetInfoItem.Faithful (item : NetInfoItem) : Prop :=
  item ≠ .wifiMacItem ∧ item ≠ .chargeConfigItem

theorem gotOf_value_iff (sv : Save) : gotOf sv.item sv.value = sv.read ↔ sv.item.Faithful := by
  obtain ⟨item, ptr0, ptr1, ptr2⟩ := sv
  simp only [NetInfoItem.Faithful]
  cases item with
  | wifiMacItem =>
    -- six bytes were saved, and eight come back
    refine iff_of_false (fun h => ?_) fun h => h.1 rfl
    have hlen := congrArg (fun g => g.out0.length) h
    simp [gotOf, Save.value, Save.read, valueOf] at hlen
  | chargeConfigItem =>
    refine iff_of_false (fun h => ?_) fun h => h.2 rfl
    have hret := congrArg Got.ret h
    cases hret
  | ssidKeyItem =>
    refine iff_of_true ?_ (by decide)
    simp [gotOf, Save.value, Save.read, valueOf]
  | ipConfigItem =>
    refine iff_of_true ?_ (by decide)
    simp [gotOf, Save.value, Save.read, valueOf]
    rw [← List.append_assoc, List.drop_left' (by simp)]
  | _ => exact iff_of_true rfl (by decide)

/-- From an erased partition the saves make a key-value store if and only if none of them is
of the MAC address or of the charge configuration. -/
theorem keyValueStore_iff (dev : FlashDev) (hdev : 0x1D2000 ≤ dev.size)
    (herased : Nor.Erased dev.cells startAddr 0x1000) (svs : List Save) :
    KeyValueStore dev svs ↔
      ∀ sv ∈ svs, sv.item ≠ .wifiMacItem ∧ sv.item ≠ .chargeConfigItem := by
  have hinit := erased_stored hdev herased
  obtain ⟨dev', hall, hstored⟩ := saveAll_spec hinit svs
  have hget : ∀ item, getInfoItem dev' item true true true =
      some (((lastSave item svs).map Save.value).elim ⟨0, [], [], []⟩ (gotOf item)) := by
    intro item
    have hspec := getInfoItem_spec hstored item
    rw [get_tableAfter] at hspec
    rw [hspec]
    cases (lastSave item svs).map Save.value with
    | none => rfl
    | some v => rfl
  constructor
  · intro h sv hsv
    have hmem : sv ∈ svs.filter fun s => s.item = sv.item :=
      List.mem_filter.mpr ⟨hsv, decide_eq_true rfl⟩
    obtain ⟨last, hlast⟩ : ∃ last, lastSave sv.item svs = some last :=
      ⟨_, List.getLast?_eq_getLast_of_ne_nil (List.ne_nil_of_mem hmem)⟩
    have hgot := h.got dev' hall sv.item
    rw [hget, hlast, Option.map_some] at hgot
    have hitem := lastSave_item hlast
    rw [← hitem] at hgot ⊢
    exact (gotOf_value_iff last).mp (Option.some.inj hgot)
  · intro hfaithful
    refine ⟨⟨dev', hall, fun hne => ?_⟩, ?_, ?_⟩
    · have hlen := hstored.ok.length_body
      have henc := length_encode (tableAfter [] svs)
      have h8 : sizeofInfoItem = 8 := rfl
      refine ⟨tableAfter [] svs, hstored.ok.keys, by omega, hstored.bytesAt ?_⟩
      obtain ⟨init, sv, rfl⟩ := List.eq_nil_or_concat svs |>.resolve_left hne
      rw [List.concat_eq_append, tableAfter_concat]
      exact Assoc.put_ne_nil _ _ _
    · intro pre sv post dev₁ dev₂ _ h₁ h₂ item hitem
      obtain ⟨d₁, hd₁, hs₁⟩ := saveAll_spec hinit pre
      obtain ⟨d₂, hd₂, hs₂⟩ := saveAll_spec hinit (pre ++ [sv])
      rw [h₁] at hd₁
      rw [h₂] at hd₂
      cases hd₁
      cases hd₂
      rw [storedValue_eq hs₂, storedValue_eq hs₁, tableAfter_concat, Assoc.get_put_ne hitem]
    · intro dev'' hall' item
      rw [hall] at hall'
      cases hall'
      rw [hget]
      cases hlast : lastSave item svs with
      | none => rfl
      | some last =>
        have hitem := lastSave_item hlast
        have hmem := (List.mem_filter.mp (List.mem_of_getLast? hlast)).1
        rw [Option.map_some, ← hitem]
        exact congrArg some ((gotOf_value_iff last).mpr (hfaithful last hmem))

/-- An erased device of 2 MB. -/
def erasedFlash : FlashDev := ⟨0x200000, twoMegabytes_lt, fun _ => Nor.blank⟩

/-- Saving the SSID with its key, and the DHCP mode. -/
theorem ssid_saved : KeyValueStore erasedFlash
    [⟨.ssidKeyItem, fun i => BitVec.ofNat 8 i, fun _ => 7, fun _ => 0⟩,
      ⟨.dhcpModeItem, fun _ => 1, fun _ => 0, fun _ => 0⟩] :=
  (keyValueStore_iff erasedFlash (by decide) (fun _ _ _ => rfl) _).mpr (by decide)

/-- A MAC address of six bytes is saved, and `get_info_item` stores eight. -/
theorem mac_overrun : ¬ ∀ (dev : FlashDev) (svs : List Save), 0x1D2000 ≤ dev.size →
    Nor.Erased dev.cells startAddr 0x1000 → KeyValueStore dev svs := by
  intro h
  have hstore := h erasedFlash [⟨.wifiMacItem, fun _ => 7, fun _ => 0, fun _ => 0⟩] (by decide)
    fun _ _ _ => rfl
  have hrun : (saveAll erasedFlash [⟨.wifiMacItem, fun _ => 7, fun _ => 0, fun _ => 0⟩]).any
      (fun dev => (getInfoItem dev .wifiMacItem true true true).any fun g =>
        decide (g.out0.length = 8)) = true := by decide +kernel
  obtain ⟨dev, hdev, hget⟩ := (Option.any_eq_true _ _).mp hrun
  rw [hstore.got dev hdev] at hget
  exact absurd hget (by decide)

end TuyaSdk.NetParam
