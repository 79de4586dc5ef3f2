import TuyaSdk.ManualCal.Runs

/-!
# What the calibration store holds

The main result is `manual_cal_store_sound_iff`: after a run the sector is tiled with the contents
of the run, and every search gives what was written last, if and only if no save of `TXPWR_TAB_TAB`
came behind a header. The other groups keep their bytes in any case.
-/

namespace TuyaSdk.ManualCal
open TuyaSdk.Lib TuyaSdk.Flash

/-- The bytes of a group that the search finds. -/
def groupBytes (dev : FlashDev) (k : Kind) : Option (List Byte) :=
  (manualCalSearchTxpwrTab dev k.type startAddr).bind fun addr =>
    if addr = 0 then none
    else some (flashRead dev (readElem dev addr).2 (addr + sizeofTagTxpwr))

/-- The value of an element that the search finds in a group. -/
def elemValue (dev : FlashDev) (k : Kind) (t : Nat) : Option (List Byte) :=
  (manualCalSearchTxpwrTab dev k.type startAddr).bind fun addrStart =>
    if addrStart = 0 then none
    else
      (manualCalSearchTxpwrTab dev t addrStart).bind fun addr =>
        if addr = 0 then none
        else some (flashRead dev (readElem dev addr).2 (addr + sizeofTagTxpwr))

/-- The groups of the contents as elements of the header. -/
def Contents.areas (c : Contents) : List (Nat × List Byte) :=
  c.map fun e => (e.1.type, Tlv.body e.2)

/-- The sector is without header, or one header of the groups of the contents; each group occurs
once and is the elements of its kind and nothing else; and the searches find them. -/
structure Sound (dev : FlashDev) (c : Contents) : Prop where
  header : if c = [] then manualCalSearchOptTab dev = none
    else BytesAt dev.cells startAddr
      (Tlv.elemBytes (BK_FLASH_OPT_TLV_HEADER, Tlv.body c.areas))
  once : (Assoc.keys c).Nodup
  types : ∀ e ∈ c, Assoc.keys e.2 = e.1.layout.map Prod.fst
  missing : ∀ k, Assoc.get c k = none →
    manualCalSearchTxpwrTab dev k.type startAddr = some 0
  finds : ∀ k es t v, Assoc.get c k = some es → Assoc.get es t = some v →
    elemValue dev k t = some v
  mac : manualCalGetMacaddrFromFlash dev =
    some ((Assoc.get c .txid).bind fun es => Assoc.get es TXID_MAC)

/-- No `manual_cal_save_txpwr_tab_to_flash` finds a header. -/
def Unpadded : Bool → List Op → Prop
  | _, [] => True
  | header, op :: ops =>
    ¬ (header = true ∧ op.savesTxpwr = true) ∧ Unpadded (header || op.makesHeader) ops

variable {dev : FlashDev} {gs : Groups} {k : Kind} {g : Group} {t : Nat} {v : List Byte}

/-! ## Searches -/

/-- What is read of an element where it lies. -/
theorem flashRead_elem {addr : Nat} {e : Nat × List Byte}
    (h : BytesAt dev.cells addr (Tlv.elemBytes e)) (ht : e.1 < 2 ^ 32)
    (hend : addr + 8 + e.2.length < 2 ^ 32) :
    flashRead dev (readElem dev addr).2 (addr + sizeofTagTxpwr) = e.2 := by
  have h8 : sizeofTagTxpwr = 8 := rfl
  rw [readElem_of_bytesAt (by omega) ht (by omega) h]
  simp only
  rw [flashRead_eq (by omega) (by omega)]
  exact (bytesAt_append.mp h).2

theorem groupBytes_eq (h : Stored dev gs) (k : Kind) :
    groupBytes dev k = (Assoc.get gs k).map Group.bytes := by
  rw [groupBytes]
  cases hg : Assoc.get gs k with
  | none =>
    rw [manualCalSearchTxpwrTab_none h (Assoc.get_eq_none.mp hg), Option.bind_some, if_pos rfl]
    rfl
  | some g =>
    obtain ⟨pre, post, rfl, hk⟩ := Assoc.split_of_get hg
    obtain ⟨hfound, hbytes⟩ := manualCalSearchTxpwrTab_group h hk
    have hs : startAddr = 0x1D0000 := rfl
    have hlen := h.ok.group.length_bytes
    have hle := k.len_le
    have hareas := h.ok.length_areas
    rw [areas_append, Tlv.body_append, List.length_append] at hareas
    rw [hfound, Option.bind_some, if_neg (by omega),
      flashRead_elem hbytes k.type_lt (by simp only; omega)]
    rfl

/-- The search for an element that is there, with what is read then. -/
theorem searchElem (h : Stored dev gs) (hg : Assoc.get gs k = some g)
    (ht : Assoc.get g.elems t = some v) : ∃ addrStart addr, addrStart ≠ 0 ∧ addr ≠ 0 ∧
      manualCalSearchTxpwrTab dev k.type startAddr = some addrStart ∧
      manualCalSearchTxpwrTab dev t addrStart = some addr ∧
      flashRead dev (readElem dev addr).2 (addr + sizeofTagTxpwr) = v ∧
      u32 (addr + sizeofTagTxpwr) = addr + sizeofTagTxpwr := by
  obtain ⟨pre, post, rfl, hk⟩ := Assoc.split_of_get hg
  obtain ⟨es, spare⟩ := g
  obtain ⟨epre, epost, rfl, hepre⟩ := Assoc.split_of_get ht
  have hs : startAddr = 0x1D0000 := rfl
  have h8 : sizeofTagTxpwr = 8 := rfl
  have hok := h.ok.group
  have hlen := hok.length_bytes
  have hle := k.len_le
  have hareas := h.ok.length_areas
  rw [areas_append, Tlv.body_append, List.length_append] at hareas
  rw [Group.bytes, Tlv.body_append, Tlv.body_cons, List.length_append, List.length_append,
    List.length_append, Tlv.length_elemBytes] at hlen
  obtain ⟨hword, -⟩ := hok.types_lt (t, v) (List.mem_append_right _ List.mem_cons_self)
  obtain ⟨hfound, hbytes⟩ := manualCalSearchTxpwrTab_elem h hk
  simp only at hlen
  exact ⟨_, _, by omega, by omega, (manualCalSearchTxpwrTab_group h hk).1, hfound,
    flashRead_elem hbytes hword (by simp only; omega), u32_of_lt (by omega)⟩

theorem elemValue_eq (h : Stored dev gs) (hg : Assoc.get gs k = some g)
    (ht : Assoc.get g.elems t = some v) : elemValue dev k t = some v := by
  obtain ⟨addrStart, addr, hstart, haddr, hgroup, helem, hread, -⟩ := searchElem h hg ht
  rw [elemValue, hgroup, Option.bind_some, if_neg hstart, helem, Option.bind_some, if_neg haddr,
    hread]

theorem manualCalGetMacaddrFromFlash_eq (h : Stored dev gs) :
    manualCalGetMacaddrFromFlash dev =
      some ((Assoc.get (contentsOf gs) .txid).bind fun es => Assoc.get es TXID_MAC) := by
  rw [contentsOf, Assoc.get_mapVal]
  by_cases hgs : gs = []
  · rw [hgs] at h ⊢
    rw [manualCalGetMacaddrFromFlash, manualCalSearchOptTab_none h]
    rfl
  · obtain ⟨g, hg⟩ := Assoc.get_of_mem_keys (h.txid_mem hgs)
    have hok : g.Ok .txid := by
      obtain ⟨pre, post, rfl, -⟩ := Assoc.split_of_get hg
      exact h.ok.group
    have hmac : TXID_MAC ∈ Assoc.keys g.elems := by
      rw [hok.keys_eq]
      decide
    obtain ⟨v, hv⟩ := Assoc.get_of_mem_keys hmac
    obtain ⟨addrStart, addr, hstart, haddr, hgroup, helem, hread, hu32⟩ := searchElem h hg hv
    have hgroup : manualCalSearchTxpwrTab dev TXID startAddr = some addrStart := hgroup
    rw [manualCalGetMacaddrFromFlash, manualCalSearchOptTab_some h hgs, hg]
    simp only
    rw [hgroup, Option.bind_some, if_neg hstart, helem, Option.map_some, if_neg haddr, hu32, hread,
      Option.map_some, Option.bind_some, hv]

/-! ## The tiling -/

theorem GroupsOk.types (h : GroupsOk gs) :
    ∀ e ∈ contentsOf gs, Assoc.keys e.2 = e.1.layout.map Prod.fst := by
  intro e he
  obtain ⟨d, hd, rfl⟩ := List.mem_map.mp he
  exact (h.groups d hd).keys_eq

/-- The bytes behind the elements are the difference between the area and what is laid out. -/
theorem length_areas_eq (h : ∀ e ∈ gs, e.2.Ok e.1) : (Tlv.body (areas gs)).length =
    (Tlv.body (contentsOf gs).areas).length + (gs.map fun e => e.1.spare).sum := by
  induction gs with
  | nil => rfl
  | cons e gs ih =>
    have hspare := (h e List.mem_cons_self).spare
    have hgs := ih fun d hd => h d (List.mem_cons_of_mem _ hd)
    have hcons : (contentsOf (e :: gs)).areas =
        (e.1.type, Tlv.body e.2.elems) :: (contentsOf gs).areas := rfl
    rw [hcons, areas_cons, Tlv.body_cons, Tlv.body_cons, List.length_append, List.length_append,
      Tlv.length_elemBytes, Tlv.length_elemBytes, Group.bytes, List.length_append, List.map_cons,
      List.sum_cons]
    simp only
    omega

/-- Groups without bytes behind their elements are those of the contents. -/
theorem areas_eq (h : ∀ e ∈ gs, e.2.Ok e.1) (hk : .txpwrTabTab ∉ Assoc.keys gs) :
    areas gs = (contentsOf gs).areas := by
  rw [areas, Contents.areas, contentsOf, Assoc.mapVal, List.map_map]
  apply List.map_congr_left
  intro e he
  have hne : e.1 ≠ .txpwrTabTab := fun heq => hk (heq ▸ List.mem_map_of_mem he)
  have hspare : e.1.spare = 0 := by
    cases hkind : e.1
    case txpwrTabTab => exact absurd hkind hne
    all_goals rfl
  have hnil : e.2.spare = [] := List.length_eq_zero_iff.mp ((h e he).spare.trans hspare)
  rw [Group.bytes, hnil, List.append_nil]
  rfl

theorem Stored.sound_iff (h : Stored dev gs) :
    Sound dev (contentsOf gs) ↔ .txpwrTabTab ∉ Assoc.keys (contentsOf gs) := by
  have hkeys : Assoc.keys (contentsOf gs) = Assoc.keys gs := Assoc.keys_mapVal _ _
  rw [hkeys]
  constructor
  · intro hsound hk
    have hgs : gs ≠ [] := fun hnil => by
      rw [hnil] at hk
      exact List.not_mem_nil hk
    have hheader := hsound.header
    rw [if_neg (mt contentsOf_eq_nil.mp hgs)] at hheader
    have hlen := length_areas_eq h.ok.groups
    have hareas := h.ok.length_areas
    have hspare : Kind.spare .txpwrTabTab ≤ (gs.map fun e => e.1.spare).sum := by
      obtain ⟨e, he, heq⟩ := List.mem_map.mp hk
      rw [← heq]
      exact List.le_sum_of_mem (List.mem_map_of_mem he)
    have h22 : Kind.spare .txpwrTabTab = 22 := rfl
    have htype : BK_FLASH_OPT_TLV_HEADER < 2 ^ 32 := by decide
    have hread := readElem_of_bytesAt (by decide) htype (by simp only; omega) (h.bytesAt hgs)
    have hread' := readElem_of_bytesAt (by decide) htype (by simp only; omega) hheader
    have heq := congrArg Prod.snd (hread.symm.trans hread')
    simp only at heq
    omega
  · intro hk
    refine ⟨?_, ?_, h.ok.types, fun k hnone => ?_, fun k es t v hes hv => ?_,
      manualCalGetMacaddrFromFlash_eq h⟩
    · by_cases hgs : gs = []
      · rw [if_pos (contentsOf_eq_nil.mpr hgs)]
        rw [hgs] at h
        exact manualCalSearchOptTab_none h
      · rw [if_neg (mt contentsOf_eq_nil.mp hgs), ← areas_eq h.ok.groups hk]
        exact h.bytesAt hgs
    · rw [hkeys]
      exact h.ok.keys
    · rw [Assoc.get_eq_none, hkeys] at hnone
      exact manualCalSearchTxpwrTab_none h hnone
    · rw [contentsOf, Assoc.get_mapVal, Option.map_eq_some_iff] at hes
      obtain ⟨g, hg, rfl⟩ := hes
      exact elemValue_eq h hg hv

/-! ## When `TXPWR_TAB_TAB` is saved -/

theorem Contents.setElem_eq_nil {c : Contents} : c.setElem k t v = [] ↔ c = [] := by
  rw [Contents.setElem]
  cases hg : Assoc.get c k with
  | none => exact Iff.rfl
  | some es =>
    refine iff_of_false (Assoc.put_ne_nil _ _ _) fun hc => ?_
    rw [hc] at hg
    cases hg

theorem Contents.mem_keys_setElem {c : Contents} {k' : Kind} :
    k' ∈ Assoc.keys (c.setElem k t v) ↔ k' ∈ Assoc.keys c := by
  rw [Contents.setElem]
  cases hg : Assoc.get c k with
  | none => exact Iff.rfl
  | some es =>
    rw [Assoc.mem_keys_put]
    refine or_iff_right_of_imp fun hk => ?_
    rw [hk]
    by_contra hnot
    rw [Assoc.get_eq_none.mpr hnot] at hg
    cases hg

theorem Contents.setGroup_eq_nil {c : Contents} {es : List (Nat × List Byte)} :
    c.setGroup k es = [] ↔ c = [] := by
  rw [Contents.setGroup]
  by_cases hc : c = []
  · rw [if_pos hc]
  · rw [if_neg hc]
    exact iff_of_false (Assoc.put_ne_nil _ _ _) hc

theorem Contents.mem_keys_setGroup {c : Contents} {k' : Kind} {es : List (Nat × List Byte)} :
    k' ∈ Assoc.keys (c.setGroup k es) ↔ k' ∈ Assoc.keys c ∨ c ≠ [] ∧ k' = k := by
  rw [Contents.setGroup]
  by_cases hc : c = []
  · rw [if_pos hc]
    exact (or_iff_left fun h => h.1 hc).symm
  · rw [if_neg hc, Assoc.mem_keys_put, Or.comm]
    exact or_congr_right (and_iff_right hc).symm

/-- There is a header from the first operation on that makes one. -/
theorem Op.apply_eq_nil (c : Contents) (op : Op) :
    op.apply c = [] ↔ c = [] ∧ op.makesHeader = false := by
  cases op with
  | saveChipinfo heap g => exact iff_of_false (Assoc.put_ne_nil _ _ _) fun h => nomatch h.2
  | writeMacaddr heap heap' g defaultTxidXtal defXtal mac =>
    refine iff_of_false (fun h => ?_) fun h => nomatch h.2
    rw [Op.apply, Contents.setElem_eq_nil] at h
    by_cases hc : c = []
    · rw [if_pos hc] at h
      cases h
    · rw [if_neg hc] at h
      exact hc h
  | setRfcaliStatus heap heap' rfStatus =>
    rw [Op.apply, Contents.setElem_eq_nil, Contents.setElem_eq_nil]
    exact (and_iff_left rfl).symm
  | _ => exact Contents.setGroup_eq_nil.trans (and_iff_left rfl).symm

/-- `TXPWR_TAB_TAB` is there from the first save of it on that finds a header. -/
theorem Op.txpwr_mem_apply (c : Contents) (op : Op) :
    .txpwrTabTab ∈ Assoc.keys (op.apply c) ↔
      .txpwrTabTab ∈ Assoc.keys c ∨ c ≠ [] ∧ op.savesTxpwr = true := by
  cases op with
  | saveChipinfo heap g =>
    rw [Op.apply, Assoc.mem_keys_put]
    exact (or_iff_right (by rintro ⟨⟩)).trans
      (or_iff_left fun h => Bool.false_ne_true h.2).symm
  | saveTxpwr heap g =>
    rw [Op.apply, Contents.mem_keys_setGroup]
    exact or_congr_right (and_congr_right fun _ => iff_of_true rfl rfl)
  | writeMacaddr heap heap' g defaultTxidXtal defXtal mac =>
    rw [Op.apply, Contents.mem_keys_setElem]
    refine Iff.trans ?_ (or_iff_left fun h => Bool.false_ne_true h.2).symm
    by_cases hc : c = []
    · rw [if_pos hc, hc]
      exact iff_of_false (fun h => absurd (List.mem_singleton.mp h) (by rintro ⟨⟩)) List.not_mem_nil
    · rw [if_neg hc]
  | setRfcaliStatus heap heap' rfStatus =>
    rw [Op.apply, Contents.mem_keys_setElem, Contents.mem_keys_setElem]
    exact (or_iff_left fun h => Bool.false_ne_true h.2).symm
  | _ =>
    exact Contents.mem_keys_setGroup.trans (or_congr_right
      (iff_of_false (fun h => absurd h.2 (by rintro ⟨⟩)) fun h => Bool.false_ne_true h.2))

theorem unpadded_iff {header : Bool} {c : Contents} (hheader : header = true ↔ c ≠ [])
    (hc : .txpwrTabTab ∉ Assoc.keys c) (ops : List Op) :
    Unpadded header ops ↔ .txpwrTabTab ∉ Assoc.keys (ops.foldl Op.apply c) := by
  induction ops generalizing header c with
  | nil => exact iff_of_true trivial hc
  | cons op ops ih =>
    have hstep := Op.txpwr_mem_apply c op
    rw [or_iff_right hc] at hstep
    rw [Unpadded, List.foldl_cons, hheader, ← hstep]
    by_cases hk : .txpwrTabTab ∈ Assoc.keys (op.apply c)
    · refine iff_of_false (fun h => h.1 hk) (not_not_intro ?_)
      clear hstep ih hc hheader
      induction ops generalizing c op with
      | nil => exact hk
      | cons op' ops ih => exact ih op' ((Op.txpwr_mem_apply _ op').mpr (.inl hk))
    · rw [and_iff_right hk, ih _ hk]
      rw [Bool.or_eq_true, hheader, ne_eq, ne_eq, Op.apply_eq_nil, not_and_or, Bool.not_eq_false]

/-! ## The store -/

theorem erased_stored (hsize : 0x1D2000 ≤ dev.size)
    (herased : Nor.Erased dev.cells startAddr BK_FLASH_SECTOR_SIZE) : Stored dev [] := by
  refine ⟨hsize, ⟨List.nodup_nil, (fun e he => nomatch he), .inl rfl⟩, ?_⟩
  have hsector : BK_FLASH_SECTOR_SIZE = 4096 := rfl
  have hcell : ∀ i < 4, dev.cells (startAddr + i) = Nor.blank := fun i hi =>
    herased (startAddr + i) (Nat.le_add_right _ _) (by omega)
  rw [if_pos rfl, read32, hcell 0 (by decide), hcell 1 (by decide), hcell 2 (by decide),
    hcell 3 (by decide)]
  decide

/-- After a run the searches find the contents in a sector that they tile, unless `TXPWR_TAB_TAB`
was saved; and an operation leaves the bytes of the groups that are not its own. -/
theorem manual_cal_store_sound_iff (dev : FlashDev) (hsize : 0x1D2000 ≤ dev.size)
    (herased : Nor.Erased dev.cells startAddr BK_FLASH_SECTOR_SIZE) (ops : List Op) :
    ∃ dev', runOps dev ops = some dev' ∧
      (Sound dev' (contents ops) ↔ Unpadded false ops) ∧
      ∀ op : Op, ∃ r dev'', op.run dev' = some (r, dev'') ∧
        ∀ k, k ≠ op.kind → groupBytes dev'' k = groupBytes dev' k := by
  obtain ⟨dev', gs, hrun, hsaved, hc⟩ := runOps_stored (erased_stored hsize herased) ops
  have hcontents : contentsOf gs = contents ops := hc
  refine ⟨dev', hrun, ?_, fun op => ?_⟩
  · rw [← hcontents, hsaved.stored.sound_iff, hcontents, contents]
    exact (unpadded_iff (iff_of_false Bool.false_ne_true (not_not_intro rfl)) List.not_mem_nil
      ops).symm
  · obtain ⟨r, dev'', gs', hop, hsaved', -, hkeep⟩ := hsaved.stored.steps op
    refine ⟨r, dev'', hop, fun k hk => ?_⟩
    rw [groupBytes_eq hsaved'.stored, groupBytes_eq hsaved.stored, hkeep k hk]

/-- Values all of one byte. -/
def sameGlobals (b : Byte) : Globals where
  systemMac := fun _ => b
  curTemp := b.toNat
  xtal := b.toNat
  saradcVal := b.toNat
  lpfCalI := b.toNat
  lpfCalQ := b.toNat
  txpwrTabB := fun _ => b
  txpwrTabG := fun _ => b
  txpwrTabN40 := fun _ => b
  txpwrTabBle := fun _ => b
  difGN20 := b.toNat
  difGN40 := b.toNat
  cailmainTx := fun _ => b.toNat
  rxDcGainTab := fun _ => b.toNat
  rxAmpErrWr := b.toNat
  rxPhaseErrWr := b.toNat

/-- Buffers of zeros. -/
def zeroHeap : Heap := ⟨fun _ => 0, fun _ => 0⟩

/-- An erased device of 2 MB. -/
def erasedFlash : FlashDev := ⟨0x200000, twoMegabytes_lt, fun _ => Nor.blank⟩

/-- The tables of the transmitter after the chip's own, and a new MAC address. -/
theorem mac_after_cailmain : ∃ dev', runOps erasedFlash
      [.saveTxpwr zeroHeap (sameGlobals 1), .saveChipinfo zeroHeap (sameGlobals 1),
        .saveCailmainTx zeroHeap (sameGlobals 2),
        .writeMacaddr zeroHeap zeroHeap (sameGlobals 3) 0 0 fun _ => 7] = some dev' ∧
    manualCalGetMacaddrFromFlash dev' = some (some [7, 7, 7, 7, 7, 7]) := by
  obtain ⟨dev', hrun, hsound, -⟩ := manual_cal_store_sound_iff erasedFlash (by decide)
    (fun _ _ _ => rfl)
    [.saveTxpwr zeroHeap (sameGlobals 1), .saveChipinfo zeroHeap (sameGlobals 1),
      .saveCailmainTx zeroHeap (sameGlobals 2),
      .writeMacaddr zeroHeap zeroHeap (sameGlobals 3) 0 0 fun _ => 7]
  have hunpadded : Unpadded false
      [.saveTxpwr zeroHeap (sameGlobals 1), .saveChipinfo zeroHeap (sameGlobals 1),
        .saveCailmainTx zeroHeap (sameGlobals 2),
        .writeMacaddr zeroHeap zeroHeap (sameGlobals 3) 0 0 fun _ => 7] := by
    simp [Unpadded, Op.savesTxpwr]
  exact ⟨dev', hrun, (hsound.mpr hunpadded).mac.trans (by decide)⟩

/-- `TXPWR_TAB_TAB` is longer than its elements. -/
theorem txpwr_not_tiled : ¬ ∀ (dev : FlashDev) (ops : List Op), 0x1D2000 ≤ dev.size →
    Nor.Erased dev.cells startAddr BK_FLASH_SECTOR_SIZE →
      ∃ dev', runOps dev ops = some dev' ∧ Sound dev' (contents ops) := by
  intro h
  have hstored : Stored erasedFlash [] := erased_stored (by decide) fun _ _ _ => rfl
  obtain ⟨dev', hrun, hsound⟩ := h erasedFlash
    [.saveChipinfo zeroHeap (sameGlobals 1), .saveTxpwr zeroHeap (sameGlobals 1)] (by decide)
    fun _ _ _ => rfl
  obtain ⟨dev'', gs, hrun', hsaved, hc⟩ := runOps_stored hstored
    [.saveChipinfo zeroHeap (sameGlobals 1), .saveTxpwr zeroHeap (sameGlobals 1)]
  rw [hrun] at hrun'
  cases hrun'
  have hcontents : contentsOf gs = contents
    [.saveChipinfo zeroHeap (sameGlobals 1), .saveTxpwr zeroHeap (sameGlobals 1)] := hc
  rw [← hcontents, hsaved.stored.sound_iff, hcontents] at hsound
  exact hsound (by decide)

end TuyaSdk.ManualCal
