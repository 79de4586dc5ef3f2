import TuyaSdk.ManualCal.Defs

/-!
# The groups in flash

What the sector stands for is an association list of groups, and each group one of elements.
`Stored` says that the flash holds such groups under their header; the search functions read them
off (`manualCalSearchTxpwrTab_group`, `manualCalSearchTxpwrTab_elem`).
-/

namespace TuyaSdk.ManualCal
open TuyaSdk.Lib TuyaSdk.Flash

/-- The kinds of groups. -/
inductive Kind where
  | txid
  | txpwrTabTab
  | caliMainTx
  | caliMainRx
  deriving DecidableEq, Repr

namespace Kind

/-- The type in the head of a group. -/
def type : Kind → Nat
  | txid => TXID
  | txpwrTabTab => TXPWR_TAB_TAB
  | caliMainTx => CALI_MAIN_TX
  | caliMainRx => CALI_MAIN_RX

/-- The length of a group with its head. -/
def len : Kind → Nat
  | txid => chipinfoLen
  | txpwrTabTab => txpwrLen
  | caliMainTx => cailmainTxLen
  | caliMainRx => cailmainRxLen

/-- The types of the elements of a group with the lengths of their values. -/
def layout : Kind → List (Nat × Nat)
  | txid => [(TXID_ID, 4), (TXID_MAC, 6), (TXID_THERMAL, 4), (TXID_CHANNEL, 4), (TXID_XTAL, 4),
      (TXID_ADC, 4), (TXID_LPFCAP, 8)]
  | txpwrTabTab => [(TXPWR_ENABLE_ID, 4), (TXPWR_TAB_B_ID, 14), (TXPWR_TAB_G_ID, 14),
      (TXPWR_TAB_N_ID, 14), (TXPWR_TAB_DIF_GN20_ID, 4), (TXPWR_TAB_DIF_GN40_ID, 4),
      (TXPWR_TAB_BLE_ID, 40), (TXPWR_TAB_CALI_STATUTS, 4)]
  | caliMainTx => (List.range 11).map fun i => (cmTxType i, 4)
  | caliMainRx => [(CM_RX_DC_GAIN_TAB, 32), (CM_RX_AMP_ERR_WR, 4), (CM_RX_PHASE_ERR_WR, 4)]

/-- The bytes that a group has behind its elements: `txpwr_len` counts a table that is not laid
out. -/
def spare : Kind → Nat
  | txpwrTabTab => sizeofTagTxpwrTab
  | _ => 0

theorem len_eq (k : Kind) :
    k.len = sizeofTagTxpwr + ((k.layout.map fun e => 8 + e.2).sum + k.spare) := by
  cases k
  all_goals rfl

theorem len_le (k : Kind) : k.len ≤ 192 := by
  cases k
  all_goals decide

theorem type_lt (k : Kind) : k.type < 2 ^ 32 := by
  cases k
  all_goals decide

theorem type_inj {k k' : Kind} (h : k.type = k'.type) : k = k' := by
  cases k
  all_goals
    cases k'
    all_goals first
      | rfl
      | exact absurd h (by decide)

theorem layout_types_lt (k : Kind) : ∀ e ∈ k.layout, e.1 < 2 ^ 32 := by
  cases k
  all_goals decide

theorem layout_types_nodup (k : Kind) : (k.layout.map Prod.fst).Nodup := by
  cases k
  all_goals decide

end Kind

/-- A group: its elements, and the bytes behind them. -/
structure Group where
  elems : List (Nat × List Byte)
  spare : List Byte

namespace Group

/-- The value of a group. -/
def bytes (g : Group) : List Byte := Tlv.body g.elems ++ g.spare

/-- A group as saves make it. -/
structure Ok (k : Kind) (g : Group) : Prop where
  layout : (g.elems.map fun e => (e.1, e.2.length)) = k.layout
  spare : g.spare.length = k.spare

end Group

/-- Groups in the order they lie in the flash. -/
abbrev Groups := List (Kind × Group)

/-- The groups as elements of the header. -/
def areas (gs : Groups) : List (Nat × List Byte) := gs.map fun e => (e.1.type, e.2.bytes)

/-- The bytes of the sector. -/
def image (gs : Groups) : List Byte :=
  Tlv.elemBytes (BK_FLASH_OPT_TLV_HEADER, Tlv.body (areas gs))

/-- Groups as saves make them: none twice, and `TXID` first. -/
structure GroupsOk (gs : Groups) : Prop where
  keys : (Assoc.keys gs).Nodup
  groups : ∀ e ∈ gs, e.2.Ok e.1
  first : gs = [] ∨ ∃ g gs', gs = (.txid, g) :: gs'

/-- The flash holds the groups `gs`; none is no header at all. -/
structure Stored (dev : FlashDev) (gs : Groups) : Prop where
  size : 0x1D2000 ≤ dev.size
  ok : GroupsOk gs
  bytes : if gs = [] then read32 dev.cells startAddr ≠ BK_FLASH_OPT_TLV_HEADER
    else BytesAt dev.cells startAddr (image gs)

/-! ## Lengths -/

theorem length_body_eq (es : List (Nat × List Byte)) :
    (Tlv.body es).length = ((es.map fun e => (e.1, e.2.length)).map fun e => 8 + e.2).sum := by
  induction es with
  | nil => rfl
  | cons e es ih =>
    rw [Tlv.body_cons, List.length_append, Tlv.length_elemBytes, ih]
    rfl

theorem Group.Ok.length_bytes {k : Kind} {g : Group} (h : g.Ok k) :
    8 + g.bytes.length = k.len := by
  rw [Group.bytes, List.length_append, length_body_eq, h.layout, h.spare]
  exact k.len_eq.symm

theorem Group.Ok.keys_eq {k : Kind} {g : Group} (h : g.Ok k) :
    Assoc.keys g.elems = k.layout.map Prod.fst := by
  rw [← h.layout, List.map_map]
  rfl

theorem areas_append (gs gs' : Groups) : areas (gs ++ gs') = areas gs ++ areas gs' :=
  List.map_append

theorem areas_cons (e : Kind × Group) (gs : Groups) :
    areas (e :: gs) = (e.1.type, e.2.bytes) :: areas gs := rfl

theorem mem_keys_areas {k : Kind} {gs : Groups} :
    k.type ∈ Assoc.keys (areas gs) ↔ k ∈ Assoc.keys gs := by
  simp only [Assoc.keys, areas, List.map_map, List.mem_map, Function.comp_apply]
  constructor
  · rintro ⟨e, he, ht⟩
    exact ⟨e, he, Kind.type_inj ht⟩
  · rintro ⟨e, he, rfl⟩
    exact ⟨e, he, rfl⟩

theorem length_image (gs : Groups) : (image gs).length = 8 + (Tlv.body (areas gs)).length :=
  Tlv.length_elemBytes _

theorem length_areas_le {gs : Groups} (h : ∀ e ∈ gs, e.2.Ok e.1) :
    (Tlv.body (areas gs)).length ≤ 192 * gs.length := by
  induction gs with
  | nil => exact Nat.le_refl _
  | cons e gs ih =>
    have hlen := (h e List.mem_cons_self).length_bytes
    have hle := e.1.len_le
    have hgs := ih fun d hd => h d (List.mem_cons_of_mem _ hd)
    rw [areas_cons, Tlv.body_cons, List.length_append, Tlv.length_elemBytes, List.length_cons]
    simp only
    omega

/-- There are four groups at most, so they fit into the sector. -/
theorem GroupsOk.length_areas {gs : Groups} (h : GroupsOk gs) :
    (Tlv.body (areas gs)).length ≤ 768 := by
  have hall : ∀ k ∈ Assoc.keys gs, k ∈ [Kind.txid, .txpwrTabTab, .caliMainTx, .caliMainRx] := by
    intro k _
    cases k
    all_goals decide
  have hcard := (List.subperm_of_subset h.keys hall).length_le
  rw [Assoc.keys, List.length_map] at hcard
  have hlen := length_areas_le h.groups
  simp only [List.length_cons, List.length_nil] at hcard
  omega

theorem GroupsOk.types_lt {gs : Groups} (h : GroupsOk gs) :
    ∀ e ∈ areas gs, e.1 < 2 ^ 32 ∧ e.2.length < 2 ^ 32 := by
  intro e he
  obtain ⟨d, hd, rfl⟩ := List.mem_map.mp he
  have hlen := (h.groups d hd).length_bytes
  have hle := d.1.len_le
  exact ⟨d.1.type_lt, by simp only; omega⟩

theorem Group.Ok.types_lt {k : Kind} {g : Group} (h : g.Ok k) :
    ∀ e ∈ g.elems, e.1 < 2 ^ 32 ∧ e.2.length < 2 ^ 32 := by
  intro e he
  have hmem : (e.1, e.2.length) ∈ k.layout := by
    rw [← h.layout]
    exact List.mem_map_of_mem he
  have hlen : (Tlv.elemBytes e).length ≤ (Tlv.body g.elems).length :=
    (List.sublist_flatten_of_mem (List.mem_map_of_mem he)).length_le
  have hbytes := h.length_bytes
  have hle := k.len_le
  rw [Tlv.length_elemBytes] at hlen
  rw [Group.bytes, List.length_append] at hbytes
  exact ⟨k.layout_types_lt _ hmem, by omega⟩

/-! ## Searching -/

theorem readElem_eq (dev : FlashDev) {addr : Nat} (h : addr + sizeofTagTxpwr ≤ 2 ^ 32) :
    readElem dev addr = (read32 dev.cells addr, read32 dev.cells (addr + 4)) := by
  rw [readElem, flashRead_eq h (by decide), read32_storeBytes (by decide),
    read32_storeBytes (by decide)]
  rfl

theorem readElem_of_bytesAt {dev : FlashDev} {addr : Nat} {e : Nat × List Byte}
    (h : addr + sizeofTagTxpwr ≤ 2 ^ 32) (ht : e.1 < 2 ^ 32) (hl : e.2.length < 2 ^ 32)
    (hbytes : BytesAt dev.cells addr (Tlv.elemBytes e)) :
    readElem dev addr = (e.1, e.2.length) := by
  obtain ⟨hhead, -⟩ := bytesAt_append.mp hbytes
  obtain ⟨h0, h4⟩ := bytesAt_append.mp hhead
  rw [length_wordBytes] at h4
  rw [readElem_eq dev h, h0.read32 ht, h4.read32 hl]

theorem manualCalSearchOptTab_none {dev : FlashDev} (h : Stored dev []) :
    manualCalSearchOptTab dev = none := by
  have hne := h.bytes
  rw [if_pos rfl] at hne
  rw [manualCalSearchOptTab, readElem_eq dev (by decide)]
  exact if_neg hne.symm

theorem Stored.bytesAt {dev : FlashDev} {gs : Groups} (h : Stored dev gs) (hgs : gs ≠ []) :
    BytesAt dev.cells startAddr (image gs) := by
  have hbytes := h.bytes
  rwa [if_neg hgs] at hbytes

theorem manualCalSearchOptTab_some {dev : FlashDev} {gs : Groups} (h : Stored dev gs)
    (hgs : gs ≠ []) : manualCalSearchOptTab dev = some (image gs).length := by
  have hlen := h.ok.length_areas
  have h8 : sizeofTagTxpwr = 8 := rfl
  have htype : BK_FLASH_OPT_TLV_HEADER < 2 ^ 32 := by decide
  have hread := readElem_of_bytesAt (by decide) htype (by simp only; omega) (h.bytesAt hgs)
  rw [manualCalSearchOptTab, hread, if_pos rfl, length_image, Nat.add_comm]
  simp only
  rw [u32_of_lt (by omega)]

section Area

variable {dev : FlashDev} {a t n : Nat} {e : Nat × List Byte} {es pre post : List (Nat × List Byte)}
  {rest : List Byte}

/-- The search through the elements of an area that may have other bytes behind them. -/
theorem manualCalSearchTxpwrTab_eq (type : Nat) (hopt : manualCalSearchOptTab dev = some n)
    (harea : BytesAt dev.cells a (Tlv.elemBytes (t, Tlv.body es ++ rest))) (ht : t < 2 ^ 32)
    (hend : a + 8 + (Tlv.body es ++ rest).length < 2 ^ 32)
    (hwords : ∀ e ∈ es, e.1 < 2 ^ 32 ∧ e.2.length < 2 ^ 32) :
    Tlv.Heads (readElem dev) (a + 8) es ∧ manualCalSearchTxpwrTab dev type a =
      (Loop.run (Tlv.searchPass (readElem dev) type (a + 8 + (Tlv.body es ++ rest).length))
        (2 ^ 32) (a + 8)).map fun addr =>
          if addr ≥ a + 8 + (Tlv.body es ++ rest).length then 0 else addr := by
  have h8 : sizeofTagTxpwr = 8 := rfl
  have hread := readElem_of_bytesAt (by omega) ht (by simp only; omega) harea
  constructor
  · obtain ⟨-, hvalue⟩ := bytesAt_append.mp harea
    refine Tlv.heads_of_bytesAt (fun x hx hle => readElem_eq dev ?_) hwords
      (bytesAt_append.mp hvalue).1
    rw [List.length_append] at hend
    omega
  · have hstart : u32 (a + sizeofTagTxpwr) = a + 8 := u32_of_lt (by omega)
    have hstop : u32 (a + 8 + (Tlv.body es ++ rest).length) =
        a + 8 + (Tlv.body es ++ rest).length := u32_of_lt hend
    rw [manualCalSearchTxpwrTab, hopt, hread]
    simp only [hstart, hstop]

theorem manualCalSearchTxpwrTab_found (hopt : manualCalSearchOptTab dev = some n)
    (harea : BytesAt dev.cells a (Tlv.elemBytes (t, Tlv.body (pre ++ e :: post) ++ rest)))
    (ht : t < 2 ^ 32) (hend : a + 8 + (Tlv.body (pre ++ e :: post) ++ rest).length < 2 ^ 32)
    (hwords : ∀ e' ∈ pre ++ e :: post, e'.1 < 2 ^ 32 ∧ e'.2.length < 2 ^ 32)
    (hpre : e.1 ∉ Assoc.keys pre) :
    manualCalSearchTxpwrTab dev e.1 a = some (a + 8 + (Tlv.body pre).length) := by
  obtain ⟨hheads, hsearch⟩ := manualCalSearchTxpwrTab_eq e.1 hopt harea ht hend hwords
  have hlen := Tlv.length_le_body pre
  rw [hsearch]
  rw [List.length_append] at hend ⊢
  have hbody : (Tlv.body (pre ++ e :: post)).length =
      (Tlv.body pre).length + (8 + e.2.length + (Tlv.body post).length) := by
    rw [Tlv.body_append, Tlv.body_cons, List.length_append, List.length_append,
      Tlv.length_elemBytes]
  rw [Tlv.run_found hheads hpre (by omega) hend (by omega), Option.map_some, if_neg (by omega)]

theorem manualCalSearchTxpwrTab_missing (hopt : manualCalSearchOptTab dev = some n)
    (harea : BytesAt dev.cells a (Tlv.elemBytes (t, Tlv.body es))) (ht : t < 2 ^ 32)
    (hend : a + 8 + (Tlv.body es).length < 2 ^ 32)
    (hwords : ∀ e ∈ es, e.1 < 2 ^ 32 ∧ e.2.length < 2 ^ 32) {type : Nat}
    (htype : type ∉ Assoc.keys es) : manualCalSearchTxpwrTab dev type a = some 0 := by
  rw [← List.append_nil (Tlv.body es)] at harea hend
  obtain ⟨hheads, hsearch⟩ := manualCalSearchTxpwrTab_eq type hopt harea ht hend hwords
  have hlen := Tlv.length_le_body es
  rw [List.append_nil] at hsearch hend
  rw [hsearch, Tlv.run_missing hheads htype rfl hend (by omega), Option.map_some,
    if_pos (Nat.le_refl _)]

end Area

variable {dev : FlashDev} {gs pre post : Groups} {k : Kind} {g : Group}

/-- The search for a group that is there. -/
theorem manualCalSearchTxpwrTab_group (h : Stored dev (pre ++ (k, g) :: post))
    (hk : k ∉ Assoc.keys pre) :
    manualCalSearchTxpwrTab dev k.type startAddr =
        some (startAddr + 8 + (Tlv.body (areas pre)).length) ∧
      BytesAt dev.cells (startAddr + 8 + (Tlv.body (areas pre)).length)
        (Tlv.elemBytes (k.type, g.bytes)) := by
  have hgs : pre ++ (k, g) :: post ≠ [] := List.append_ne_nil_of_right_ne_nil _ (List.cons_ne_nil _ _)
  have hlen := h.ok.length_areas
  have hwords := h.ok.types_lt
  have hopt := manualCalSearchOptTab_some h hgs
  have hbytes := h.bytesAt hgs
  have hs : startAddr = 0x1D0000 := rfl
  rw [image] at hbytes
  rw [areas_append, areas_cons] at hbytes hlen hwords
  simp only at hbytes hlen hwords
  constructor
  · rw [← List.append_nil (Tlv.body _)] at hbytes hlen
    exact manualCalSearchTxpwrTab_found (e := (k.type, g.bytes)) hopt hbytes (by decide) (by omega)
      hwords (mt mem_keys_areas.mp hk)
  · obtain ⟨-, hvalue⟩ := bytesAt_append.mp hbytes
    rw [Tlv.body_append, Tlv.body_cons] at hvalue
    obtain ⟨-, hrest⟩ := bytesAt_append.mp hvalue
    exact (bytesAt_append.mp hrest).1

/-- The search for a group that is not there. -/
theorem manualCalSearchTxpwrTab_none (h : Stored dev gs) (hk : k ∉ Assoc.keys gs) :
    manualCalSearchTxpwrTab dev k.type startAddr = some 0 := by
  by_cases hgs : gs = []
  · rw [hgs] at h
    rw [manualCalSearchTxpwrTab, manualCalSearchOptTab_none h]
  · have hlen := h.ok.length_areas
    have hs : startAddr = 0x1D0000 := rfl
    exact manualCalSearchTxpwrTab_missing (manualCalSearchOptTab_some h hgs) (h.bytesAt hgs)
      (by decide) (by omega) h.ok.types_lt (mt mem_keys_areas.mp hk)

/-- The search in a group for one of its elements. -/
theorem manualCalSearchTxpwrTab_elem {epre epost : List (Nat × List Byte)} {t : Nat}
    {v spare : List Byte} (h : Stored dev (pre ++ (k, ⟨epre ++ (t, v) :: epost, spare⟩) :: post))
    (hk : k ∉ Assoc.keys pre) :
    manualCalSearchTxpwrTab dev t (startAddr + 8 + (Tlv.body (areas pre)).length) =
        some (startAddr + 8 + (Tlv.body (areas pre)).length + 8 + (Tlv.body epre).length) ∧
      BytesAt dev.cells
        (startAddr + 8 + (Tlv.body (areas pre)).length + 8 + (Tlv.body epre).length)
        (Tlv.elemBytes (t, v)) := by
  have hgs : pre ++ (k, ⟨epre ++ (t, v) :: epost, spare⟩) :: post ≠ [] :=
    List.append_ne_nil_of_right_ne_nil _ (List.cons_ne_nil _ _)
  have hlen := h.ok.length_areas
  have hopt := manualCalSearchOptTab_some h hgs
  have hok := h.ok.groups (k, ⟨epre ++ (t, v) :: epost, spare⟩) (by simp)
  have hs : startAddr = 0x1D0000 := rfl
  obtain ⟨-, hbytes⟩ := manualCalSearchTxpwrTab_group h hk
  have hbl := hok.length_bytes
  have hle := k.len_le
  have hnodup := k.layout_types_nodup
  rw [← hok.keys_eq] at hnodup
  simp only [Assoc.keys, List.map_append, List.map_cons] at hnodup
  have ht : t ∉ Assoc.keys epre := fun hmem =>
    (List.nodup_append.mp hnodup).2.2 t hmem t List.mem_cons_self rfl
  have harea : (Tlv.body (areas pre)).length ≤ 768 := by
    rw [areas_append, Tlv.body_append, List.length_append] at hlen
    omega
  simp only [Group.bytes] at hbytes hbl
  constructor
  · exact manualCalSearchTxpwrTab_found (e := (t, v)) hopt hbytes k.type_lt (by omega) hok.types_lt ht
  · obtain ⟨-, hvalue⟩ := bytesAt_append.mp hbytes
    rw [Tlv.body_append, Tlv.body_cons, List.append_assoc, List.append_assoc] at hvalue
    obtain ⟨-, hrest⟩ := bytesAt_append.mp hvalue
    exact (bytesAt_append.mp hrest).1

end TuyaSdk.ManualCal
