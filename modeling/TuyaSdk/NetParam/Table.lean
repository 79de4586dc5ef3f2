import TuyaSdk.Lib.Assoc
import TuyaSdk.NetParam.Defs

/-!
# The table in flash

What the table stands for is an association list of items and their values. `Stored` says
that the flash holds such a list; the search functions read it off (`searchInfoItem_found`,
`searchInfoItem_missing`).
-/

namespace TuyaSdk.NetParam
open TuyaSdk.Lib TuyaSdk.Flash

/-- Items with their values, in the order they lie in the flash. -/
abbrev Table := List (NetInfoItem × List Byte)

/-- The bytes of an item: type, length and value. -/
def entryBytes (e : NetInfoItem × List Byte) : List Byte :=
  wordBytes e.1.code ++ wordBytes e.2.length ++ e.2

/-- The item area. -/
def body (t : Table) : List Byte := t.flatMap entryBytes

/-- The whole table: its head holds the length of the item area. -/
def encode (t : Table) : List Byte :=
  wordBytes infoTlvHeader ++ wordBytes (body t).length ++ body t

/-- The value of an item that is saved from the three buffers. -/
def valueOf (item : NetInfoItem) (ptr0 ptr1 ptr2 : Nat → Byte) : List Byte :=
  match item with
  | .wifiMacItem => readBytes ptr0 0 6 ++ [0, 0]
  | .ssidKeyItem => readBytes ptr0 0 32 ++ readBytes ptr1 0 64
  | .ipConfigItem => readBytes ptr0 0 16 ++ (readBytes ptr1 0 16 ++ readBytes ptr2 0 16)
  | _ => readBytes ptr0 0 4

/-- A table as saves make it: no item twice, and each with a value of its own kind. -/
structure TableOk (t : Table) : Prop where
  keys : (Assoc.keys t).Nodup
  values : ∀ e ∈ t, ∃ ptr0 ptr1 ptr2, e.2 = valueOf e.1 ptr0 ptr1 ptr2

/-- The flash holds the table `t`; the empty one is no table at all. -/
structure Stored (dev : FlashDev) (t : Table) : Prop where
  size : 0x1D2000 ≤ dev.size
  ok : TableOk t
  bytes : if t = [] then read32 dev.cells startAddr ≠ infoTlvHeader
    else BytesAt dev.cells startAddr (encode t)

/-! ## Lengths -/

theorem valueOf_length (item : NetInfoItem) (ptr0 ptr1 ptr2 : Nat → Byte) :
    (valueOf item ptr0 ptr1 ptr2).length + sizeofInfoItem = infoItemLen item := by
  cases item
  all_goals simp only [valueOf, List.length_append, length_readBytes]
  all_goals rfl

theorem infoItemLen_le (item : NetInfoItem) : infoItemLen item ≤ 104 := by
  cases item
  all_goals decide

theorem NetInfoItem.code_lt (item : NetInfoItem) : item.code < 2 ^ 32 := by
  cases item
  all_goals decide

theorem NetInfoItem.code_inj {item item' : NetInfoItem} : item.code = item'.code ↔ item = item' := by
  constructor
  · intro h
    cases item
    all_goals
      cases item'
      all_goals first
        | rfl
        | exact absurd h (by decide)
  · intro h
    rw [h]

theorem length_entryBytes (e : NetInfoItem × List Byte) :
    (entryBytes e).length = e.2.length + sizeofInfoItem := by
  rw [entryBytes, List.length_append, List.length_append, Nat.add_comm]
  rfl

theorem body_cons (e : NetInfoItem × List Byte) (t : Table) :
    body (e :: t) = entryBytes e ++ body t := rfl

theorem body_append (t t' : Table) : body (t ++ t') = body t ++ body t' := List.flatMap_append

theorem length_encode (t : Table) : (encode t).length = sizeofInfoItem + (body t).length := by
  simp only [encode, List.length_append, length_wordBytes]

theorem TableOk.entry_length {t : Table} (h : TableOk t) {e : NetInfoItem × List Byte}
    (he : e ∈ t) : e.2.length + sizeofInfoItem = infoItemLen e.1 := by
  obtain ⟨ptr0, ptr1, ptr2, hv⟩ := h.values e he
  rw [hv]
  exact valueOf_length _ _ _ _

theorem TableOk.cons {t : Table} {e : NetInfoItem × List Byte} (h : TableOk (e :: t)) :
    TableOk t :=
  ⟨(List.nodup_cons.mp h.keys).2, fun d hd => h.values d (List.mem_cons_of_mem _ hd)⟩

theorem TableOk.length_body_le {t : Table} (h : TableOk t) : (body t).length ≤ 104 * t.length := by
  induction t with
  | nil => exact Nat.le_refl _
  | cons e t ih =>
    have hlen := h.entry_length List.mem_cons_self
    have hle := infoItemLen_le e.1
    have ht := ih h.cons
    rw [body_cons, List.length_append, length_entryBytes, List.length_cons]
    omega

theorem TableOk.length_body_ge {t : Table} (h : TableOk t) : t.length ≤ (body t).length := by
  induction t with
  | nil => exact Nat.le_refl _
  | cons e t ih =>
    have ht := ih h.cons
    have hpos : 0 < sizeofInfoItem := by decide
    rw [body_cons, List.length_append, length_entryBytes, List.length_cons]
    omega

/-- The items of the enumeration. -/
def NetInfoItem.all : List NetInfoItem :=
  [.autoConnectItem, .wifiModeItem, .dhcpModeItem, .wifiMacItem, .ssidKeyItem, .ipConfigItem,
    .rfCfgTssiItem, .rfCfgDistItem, .rfCfgModeItem, .chargeConfigItem, .rfCfgTssiBItem]

theorem NetInfoItem.mem_all (item : NetInfoItem) : item ∈ NetInfoItem.all := by
  cases item
  all_goals decide

/-- There are eleven items at most, so the table fits into its sector. -/
theorem TableOk.length_body {t : Table} (h : TableOk t) : (body t).length ≤ 1144 := by
  have hcard : (Assoc.keys t).length ≤ NetInfoItem.all.length :=
    (List.subperm_of_subset h.keys fun item _ => item.mem_all).length_le
  have h11 : NetInfoItem.all.length = 11 := rfl
  rw [h11, Assoc.keys, List.length_map] at hcard
  have hbody := h.length_body_le
  omega

/-! ## Reading heads -/

theorem readHead_eq (dev : FlashDev) {addr : Nat} (h : addr + sizeofInfoItem ≤ 2 ^ 32) :
    readHead dev addr = ⟨read32 dev.cells addr, read32 dev.cells (addr + 4)⟩ := by
  rw [readHead, flashRead_eq h (by decide), read32_storeBytes (by decide),
    read32_storeBytes (by decide)]
  rfl

theorem readHead_of_bytesAt {dev : FlashDev} {addr a b : Nat} {rest : List Byte}
    (h : addr + sizeofInfoItem ≤ 2 ^ 32) (ha : a < 2 ^ 32) (hb : b < 2 ^ 32)
    (hbytes : BytesAt dev.cells addr (wordBytes a ++ wordBytes b ++ rest)) :
    readHead dev addr = ⟨a, b⟩ := by
  obtain ⟨hhead, -⟩ := bytesAt_append.mp hbytes
  obtain ⟨h0, h4⟩ := bytesAt_append.mp hhead
  rw [length_wordBytes] at h4
  rw [readHead_eq dev h, h0.read32 ha, h4.read32 hb]

theorem readHead_entry {dev : FlashDev} {addr : Nat} {e : NetInfoItem × List Byte}
    (h : addr + sizeofInfoItem ≤ 2 ^ 32) (he : e.2.length < 2 ^ 32)
    (hbytes : BytesAt dev.cells addr (entryBytes e)) : readHead dev addr = ⟨e.1.code, e.2.length⟩ :=
  readHead_of_bytesAt h e.1.code_lt he hbytes

/-! ## Searching -/

/-- The search passes over items of other types. -/
theorem run_searchPass_skip {dev : FlashDev} {item : NetInfoItem} {pre : Table} {addr endAddr : Nat}
    (hbytes : BytesAt dev.cells addr (body pre)) (hitem : item ∉ Assoc.keys pre)
    (hend : addr + (body pre).length ≤ endAddr) (hlt : endAddr < 2 ^ 24) (n : Nat) :
    Loop.run (searchPass dev item endAddr) (n + pre.length) addr =
      Loop.run (searchPass dev item endAddr) n (addr + (body pre).length) := by
  induction pre generalizing addr with
  | nil => rfl
  | cons e pre ih =>
    rw [body_cons] at hbytes hend ⊢
    rw [List.length_append, length_entryBytes] at hend ⊢
    rw [Assoc.keys, List.map_cons, List.mem_cons, not_or] at hitem
    obtain ⟨hentry, hrest⟩ := bytesAt_append.mp hbytes
    rw [length_entryBytes] at hrest
    have h8 : sizeofInfoItem = 8 := rfl
    have hhead : readHead dev addr = ⟨e.1.code, e.2.length⟩ :=
      readHead_entry (by omega) (by omega) hentry
    have hnext : u32 (u32 (addr + sizeofInfoItem) + e.2.length) =
        addr + (e.2.length + sizeofInfoItem) := by
      rw [u32_of_lt (by omega : addr + sizeofInfoItem < 2 ^ 32), u32_of_lt (by omega)]
      omega
    have hpass : searchPass dev item endAddr addr =
        .again (addr + (e.2.length + sizeofInfoItem)) := by
      have hne : item.code ≠ e.1.code := mt NetInfoItem.code_inj.mp hitem.1
      rw [searchPass, if_pos (by omega), hhead, ← hnext]
      exact if_pos hne
    have hsucc : n + (e :: pre).length = n + pre.length + 1 := rfl
    rw [hsucc, Loop.run_again hpass, ih hrest hitem.2 (by omega), Nat.add_assoc addr]

theorem searchInfoTbl_none {dev : FlashDev} (h : Stored dev []) : searchInfoTbl dev = none := by
  have hne := h.bytes
  rw [if_pos rfl] at hne
  rw [searchInfoTbl, readHead_eq dev (by decide)]
  exact if_neg hne.symm

theorem Stored.bytesAt {dev : FlashDev} {t : Table} (h : Stored dev t) (ht : t ≠ []) :
    BytesAt dev.cells startAddr (encode t) := by
  have hbytes := h.bytes
  rwa [if_neg ht] at hbytes

theorem Stored.head {dev : FlashDev} {t : Table} (h : Stored dev t) (ht : t ≠ []) :
    readHead dev startAddr = ⟨infoTlvHeader, (body t).length⟩ := by
  have hlen := h.ok.length_body
  have h8 : sizeofInfoItem = 8 := rfl
  exact readHead_of_bytesAt (by decide) (by decide) (by omega) (h.bytesAt ht)

theorem Stored.body {dev : FlashDev} {t : Table} (h : Stored dev t) (ht : t ≠ []) :
    BytesAt dev.cells (startAddr + sizeofInfoItem) (body t) :=
  (bytesAt_append.mp (h.bytesAt ht)).2

theorem searchInfoTbl_some {dev : FlashDev} {t : Table} (h : Stored dev t) (ht : t ≠ []) :
    searchInfoTbl dev = some (encode t).length := by
  have hlen := h.ok.length_body
  have h8 : sizeofInfoItem = 8 := rfl
  rw [searchInfoTbl, h.head ht, length_encode, Nat.add_comm]
  simp only [if_true]
  rw [u32_of_lt (by omega)]

/-- The search comes to the first place behind items of other types. -/
theorem searchInfoItem_eq {dev : FlashDev} {t : Table} (h : Stored dev t) (ht : t ≠ [])
    (item : NetInfoItem) : searchInfoItem dev item startAddr =
      (Loop.run (searchPass dev item (startAddr + sizeofInfoItem + (NetParam.body t).length))
        (2 ^ 32) (startAddr + sizeofInfoItem)).map fun addr =>
          if startAddr + sizeofInfoItem + (NetParam.body t).length ≤ addr then 0 else addr := by
  have hlen := h.ok.length_body
  have h8 : sizeofInfoItem = 8 := rfl
  have hs : startAddr = 0x1D1000 := rfl
  have hstart : u32 (startAddr + sizeofInfoItem) = startAddr + sizeofInfoItem :=
    u32_of_lt (by decide)
  have hend : u32 (startAddr + sizeofInfoItem + (NetParam.body t).length) =
      startAddr + sizeofInfoItem + (NetParam.body t).length := u32_of_lt (by omega)
  rw [searchInfoItem, h.head ht]
  simp only [hstart, hend]

/-- The search for an item that is there. -/
theorem searchInfoItem_found {dev : FlashDev} {pre post : Table} {item : NetInfoItem}
    {v : List Byte} (h : Stored dev (pre ++ (item, v) :: post)) (hpre : item ∉ Assoc.keys pre) :
    searchInfoItem dev item startAddr =
        some (startAddr + sizeofInfoItem + (NetParam.body pre).length) ∧
      BytesAt dev.cells (startAddr + sizeofInfoItem + (NetParam.body pre).length)
        (entryBytes (item, v)) := by
  have ht : pre ++ (item, v) :: post ≠ [] := by simp
  have hlen := h.ok.length_body
  have h8 : sizeofInfoItem = 8 := rfl
  have hs : startAddr = 0x1D1000 := rfl
  have hbody := h.body ht
  have htotal : (NetParam.body (pre ++ (item, v) :: post)).length =
      (NetParam.body pre).length + (v.length + sizeofInfoItem + (NetParam.body post).length) := by
    rw [body_append, body_cons, List.length_append, List.length_append, length_entryBytes]
  rw [searchInfoItem_eq h ht]
  rw [body_append, body_cons] at hbody
  obtain ⟨hskip, hrest⟩ := bytesAt_append.mp hbody
  obtain ⟨hentry, -⟩ := bytesAt_append.mp hrest
  refine ⟨?_, hentry⟩
  have hcount : pre.length < 2 ^ 32 := by
    have hpos := h.ok.length_body_ge
    rw [List.length_append, List.length_cons] at hpos
    omega
  have hvlen : v.length < 2 ^ 32 := by omega
  have hhead : readHead dev (startAddr + sizeofInfoItem + (NetParam.body pre).length) =
      ⟨item.code, v.length⟩ :=
    readHead_entry (by omega) hvlen hentry
  obtain ⟨n, hn⟩ : ∃ n, 2 ^ 32 = n + 1 + pre.length := ⟨2 ^ 32 - 1 - pre.length, by omega⟩
  generalize (NetParam.body (pre ++ (item, v) :: post)).length = total at htotal hlen ⊢
  have hpass : searchPass dev item (startAddr + sizeofInfoItem + total)
      (startAddr + sizeofInfoItem + (NetParam.body pre).length) =
      .exit (startAddr + sizeofInfoItem + (NetParam.body pre).length) := by
    rw [searchPass, if_pos (by omega), hhead]
    exact if_neg (not_not_intro rfl)
  rw [hn, run_searchPass_skip hskip hpre (by omega) (by omega), Loop.run_exit hpass,
    Option.map_some, if_neg (by omega)]

/-- The search for an item that is not there. -/
theorem searchInfoItem_missing {dev : FlashDev} {t : Table} {item : NetInfoItem}
    (h : Stored dev t) (ht : t ≠ []) (hitem : item ∉ Assoc.keys t) :
    searchInfoItem dev item startAddr = some 0 := by
  have hlen := h.ok.length_body
  have h8 : sizeofInfoItem = 8 := rfl
  have hs : startAddr = 0x1D1000 := rfl
  have hcount : t.length < 2 ^ 32 := by
    have hpos := h.ok.length_body_ge
    omega
  obtain ⟨n, hn⟩ : ∃ n, 2 ^ 32 = n + 1 + t.length := ⟨2 ^ 32 - 1 - t.length, by omega⟩
  have hpass : searchPass dev item (startAddr + sizeofInfoItem + (NetParam.body t).length)
      (startAddr + sizeofInfoItem + (NetParam.body t).length) =
      .exit (startAddr + sizeofInfoItem + (NetParam.body t).length) := if_neg (Nat.lt_irrefl _)
  rw [searchInfoItem_eq h ht, hn,
    run_searchPass_skip (h.body ht) hitem (Nat.le_refl _) (by omega), Loop.run_exit hpass,
    Option.map_some, if_pos (Nat.le_refl _)]

end TuyaSdk.NetParam
