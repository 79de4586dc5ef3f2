import TuyaSdk.NetParam.Table

/-!
# Saving and getting items

`save_info_item` refines the update of the association list (`saveInfoItem_spec`), and
`get_info_item` its lookup, as far as its own switch knows the item (`getInfoItem_spec`).
-/

namespace TuyaSdk.NetParam
open TuyaSdk.Lib TuyaSdk.Flash

/-! ## The new table in memory -/

theorem copyIn_apply {buf : Mem} {a n x : Nat} {ptr : Nat → Byte} (h : x < a ∨ a + n ≤ x) :
    copyIn buf a ptr n x = buf x := by
  apply writeBytes_apply
  rwa [length_readBytes]

theorem bytesAt_copyIn (buf : Mem) (a : Nat) (ptr : Nat → Byte) (n : Nat) :
    BytesAt (copyIn buf a ptr n) a (readBytes ptr 0 n) := bytesAt_writeBytes buf a _

theorem copyIn_keeps {buf : Mem} {a b n : Nat} {bs : List Byte} {ptr : Nat → Byte}
    (h : BytesAt buf b bs) (hd : b + bs.length ≤ a ∨ a + n ≤ b) : BytesAt (copyIn buf a ptr n) b bs :=
  h.congr fun x ⟨h1, h2⟩ => copyIn_apply (by omega)

/-- The switch stores the value, if the reserved bytes of a MAC address are zero. -/
theorem bytesAt_storeValue {item : NetInfoItem} {buf : Mem} {a : Nat} (ptr0 ptr1 ptr2 : Nat → Byte)
    (hreserved : item = .wifiMacItem → BytesAt buf (a + 6) [0, 0]) :
    BytesAt (storeValue item buf a ptr0 ptr1 ptr2) a (valueOf item ptr0 ptr1 ptr2) := by
  have hcomm : BytesAt (copyIn buf a ptr0 4) a (readBytes ptr0 0 4) := bytesAt_copyIn _ _ _ _
  cases item with
  | wifiMacItem =>
    refine bytesAt_append.mpr ⟨bytesAt_copyIn _ _ _ _, ?_⟩
    rw [length_readBytes]
    exact copyIn_keeps (hreserved rfl) (.inr (Nat.le_refl _))
  | ssidKeyItem =>
    refine bytesAt_append.mpr ⟨?_, ?_⟩
    · apply copyIn_keeps (bytesAt_copyIn _ _ _ _)
      rw [length_readBytes]
      exact .inl (Nat.le_refl _)
    · rw [length_readBytes]
      exact bytesAt_copyIn _ _ _ _
  | ipConfigItem =>
    refine bytesAt_append.mpr ⟨?_, bytesAt_append.mpr ⟨?_, ?_⟩⟩
    · apply copyIn_keeps
      · apply copyIn_keeps (bytesAt_copyIn _ _ _ _)
        rw [length_readBytes]
        exact .inl (Nat.le_refl _)
      · rw [length_readBytes]
        exact .inl (by omega)
    · rw [length_readBytes]
      apply copyIn_keeps (bytesAt_copyIn _ _ _ _)
      rw [length_readBytes]
      exact .inl (Nat.le_refl _)
    · rw [length_readBytes, length_readBytes]
      exact bytesAt_copyIn _ _ _ _
  | _ => exact hcomm

theorem storeValue_apply {item : NetInfoItem} {buf : Mem} {a x : Nat}
    {ptr0 ptr1 ptr2 : Nat → Byte} (h : x < a ∨ a + infoItemLen item ≤ x + sizeofInfoItem) :
    storeValue item buf a ptr0 ptr1 ptr2 x = buf x := by
  cases item
  all_goals simp only [infoItemLen, sizeofInfoItem, sizeofItemComm, sizeofItemMacAddr,
    sizeofItemSsidkey, sizeofItemIpConfig] at h
  all_goals simp only [storeValue]
  case wifiMacItem => exact copyIn_apply (by omega)
  case ssidKeyItem => rw [copyIn_apply (by omega), copyIn_apply (by omega)]
  case ipConfigItem =>
    rw [copyIn_apply (by omega), copyIn_apply (by omega), copyIn_apply (by omega)]
  all_goals exact copyIn_apply (by omega)

/-- The buffer in which the item `item` is about to be stored between the items `pre` and
`post`. -/
structure Prepared (r : Rebuild) (item : NetInfoItem) (pre post : Table) : Prop where
  offset : r.addrOffset = sizeofInfoItem + (body pre).length
  size : r.cfgTblLen = r.addrOffset + infoItemLen item + (body post).length
  head : r.headLen + sizeofInfoItem = r.cfgTblLen
  pre : BytesAt r.wrbuf sizeofInfoItem (body pre)
  post : BytesAt r.wrbuf (r.addrOffset + infoItemLen item) (body post)
  reserved : item = .wifiMacItem → BytesAt r.wrbuf (r.addrOffset + sizeofInfoItem + 6) [0, 0]

theorem length_encode_split (pre post : Table) (item : NetInfoItem) (ptr0 ptr1 ptr2 : Nat → Byte) :
    (body (pre ++ (item, valueOf item ptr0 ptr1 ptr2) :: post)).length =
      (body pre).length + (infoItemLen item + (body post).length) := by
  have hv := valueOf_length item ptr0 ptr1 ptr2
  rw [body_append, body_cons, List.length_append, List.length_append, length_entryBytes, hv]

/-- The buffer then holds the new table. -/
theorem Prepared.fill {r : Rebuild} {item : NetInfoItem} {pre post : Table}
    (h : Prepared r item pre post) (ptr0 ptr1 ptr2 : Nat → Byte) :
    BytesAt (fillTable r item ptr0 ptr1 ptr2) 0
      (encode (pre ++ (item, valueOf item ptr0 ptr1 ptr2) :: post)) := by
  obtain ⟨hoffset, hsize, hhead, hpre, hpost, hreserved⟩ := h
  have hv := valueOf_length item ptr0 ptr1 ptr2
  have h8 : sizeofInfoItem = 8 := rfl
  have hlen := length_encode_split pre post item ptr0 ptr1 ptr2
  have hvlen : infoItemLen item - sizeofInfoItem = (valueOf item ptr0 ptr1 ptr2).length := by omega
  have hheadLen : r.headLen = (body (pre ++ (item, valueOf item ptr0 ptr1 ptr2) :: post)).length := by
    omega
  rw [fillTable, hvlen, hheadLen, encode]
  obtain ⟨v, hvdef⟩ : ∃ v, v = valueOf item ptr0 ptr1 ptr2 := ⟨_, rfl⟩
  have hvalue := bytesAt_storeValue ptr0 ptr1 ptr2 hreserved
  rw [← hvdef] at hv hvalue ⊢
  obtain ⟨buf, hbuf⟩ : ∃ buf, buf = storeValue item r.wrbuf (r.addrOffset + sizeofInfoItem)
      ptr0 ptr1 ptr2 := ⟨_, rfl⟩
  have hpre' : BytesAt buf sizeofInfoItem (body pre) := by
    apply hpre.congr
    rintro x ⟨-, hx⟩
    rw [hbuf]
    exact storeValue_apply (.inl (by omega))
  have hpost' : BytesAt buf (r.addrOffset + infoItemLen item) (body post) := by
    apply hpost.congr
    rintro x ⟨hx, -⟩
    rw [hbuf]
    exact storeValue_apply (.inr (by omega))
  rw [← hbuf] at hvalue ⊢
  rw [body_append, body_cons, entryBytes]
  refine bytesAt_append.mpr ⟨bytesAt_append.mpr ⟨?_, bytesAt_write32 _ _ _⟩,
    bytesAt_append.mpr ⟨?_, bytesAt_append.mpr
      ⟨bytesAt_append.mpr ⟨bytesAt_append.mpr ⟨?_, ?_⟩, ?_⟩, ?_⟩⟩⟩
  · exact (bytesAt_write32 _ _ _).write32 (.inl (Nat.le_refl _))
  all_goals simp only [List.length_append, length_wordBytes, Nat.zero_add, Nat.reduceAdd]
  · have hp : BytesAt buf 8 (body pre) := hpre'
    exact (((hp.write32 (.inl (by omega))).write32 (.inl (by omega))).write32
      (.inr (by omega))).write32 (.inr (by omega))
  · have ha : 8 + (body pre).length = r.addrOffset := by omega
    rw [ha]
    exact (((bytesAt_write32 _ _ _).write32 (.inl (Nat.le_refl _))).write32
      (.inr (by omega))).write32 (.inr (by omega))
  · have ha : 8 + (body pre).length + 4 = r.addrOffset + 4 := by omega
    rw [ha]
    exact ((bytesAt_write32 _ _ _).write32 (.inr (by omega))).write32 (.inr (by omega))
  · have ha : 8 + (body pre).length + 8 = r.addrOffset + sizeofInfoItem := by omega
    rw [ha]
    exact (((hvalue.write32 (.inr (by omega))).write32 (.inr (by omega))).write32
      (.inr (by omega))).write32 (.inr (by omega))
  · have ha : 8 + (body pre).length + (8 + v.length) = r.addrOffset + infoItemLen item := by omega
    rw [ha]
    exact (((hpost'.write32 (.inr (by omega))).write32 (.inr (by omega))).write32
      (.inr (by omega))).write32 (.inr (by omega))

/-! ## The rebuilt table -/

theorem loadInfoTbl_eq {dev : FlashDev} {t : Table} (h : Stored dev t) (ht : t ≠ []) (buf : Mem) :
    loadInfoTbl dev buf = storeBytes buf (encode t) := by
  have hlen := h.ok.length_body
  have h8 : sizeofInfoItem = 8 := rfl
  have hs : startAddr = 0x1D1000 := rfl
  have henc := length_encode t
  rw [loadInfoTbl, searchInfoTbl_some h ht]
  simp only
  rw [flashRead_eq (by omega) (by omega), h.bytesAt ht]

/-- The first item of a sector without a table. -/
theorem rebuild_first {dev : FlashDev} (h : Stored dev []) (item : NetInfoItem) :
    ∃ r, rebuild dev item = some r ∧ Prepared r item [] [] := by
  refine ⟨⟨sizeofInfoItem + infoItemLen item, sizeofInfoItem, infoItemLen item, fun _ => 0⟩, ?_, ?_⟩
  · rw [rebuild, searchInfoTbl_none h]
  · refine ⟨rfl, rfl, Nat.add_comm _ _, bytesAt_nil _ _, bytesAt_nil _ _, fun _ => rfl⟩

/-- An item that is not in the table goes to its end. -/
theorem rebuild_append {dev : FlashDev} {t : Table} (h : Stored dev t) (ht : t ≠ [])
    {item : NetInfoItem} (hitem : item ∉ Assoc.keys t) :
    ∃ r, rebuild dev item = some r ∧ Prepared r item t [] := by
  have hlen := h.ok.length_body
  have hle := infoItemLen_le item
  have henc := length_encode t
  have h8 : sizeofInfoItem = 8 := rfl
  refine ⟨⟨(encode t).length + infoItemLen item, (encode t).length,
    (encode t).length + infoItemLen item - sizeofInfoItem, storeBytes (fun _ => 0) (encode t)⟩,
    ?_, ?_⟩
  · rw [rebuild, searchInfoTbl_some h ht]
    simp only
    rw [searchInfoItem_missing h ht hitem, Option.map_some, if_pos rfl, loadInfoTbl_eq h ht,
      u32_of_lt (by omega), sub32_of_le (by omega) (by omega)]
  · refine ⟨henc, rfl, ?_, ?_, bytesAt_nil _ _, ?_⟩
    · simp only
      omega
    · exact (bytesAt_append.mp (bytesAt_storeBytes (fun _ => 0) (encode t))).2
    · intro _
      have hzero : BytesAt (fun _ => 0) ((encode t).length + sizeofInfoItem + 6) [0, 0] := rfl
      apply hzero.congr
      intro x ⟨hx, _⟩
      have hout : (encode t).length ≤ x := Nat.le_trans (by omega) hx
      exact storeBytes_of_le (m := fun _ => 0) hout

/-- An item of the table keeps its place. -/
theorem rebuild_update {dev : FlashDev} {pre post : Table} {item : NetInfoItem} {v : List Byte}
    (h : Stored dev (pre ++ (item, v) :: post)) (hpre : item ∉ Assoc.keys pre) :
    ∃ r, rebuild dev item = some r ∧ Prepared r item pre post := by
  have ht : pre ++ (item, v) :: post ≠ [] := by simp
  have hlen := h.ok.length_body
  have hle := infoItemLen_le item
  have henc := length_encode (pre ++ (item, v) :: post)
  have h8 : sizeofInfoItem = 8 := rfl
  have hs : startAddr = 0x1D1000 := rfl
  obtain ⟨ptr0, ptr1, ptr2, hv⟩ := h.ok.values (item, v) (by simp)
  have hsplit := length_encode_split pre post item ptr0 ptr1 ptr2
  have hvlen := valueOf_length item ptr0 ptr1 ptr2
  simp only at hv
  rw [← hv] at hsplit hvlen
  have hbytes := bytesAt_storeBytes (fun _ => 0) (encode (pre ++ (item, v) :: post))
  refine ⟨⟨(encode (pre ++ (item, v) :: post)).length, sizeofInfoItem + (body pre).length,
    (encode (pre ++ (item, v) :: post)).length - sizeofInfoItem,
    storeBytes (fun _ => 0) (encode (pre ++ (item, v) :: post))⟩, ?_, ?_⟩
  · obtain ⟨hfound, -⟩ := searchInfoItem_found h hpre
    have hsub : sub32 (startAddr + sizeofInfoItem + (body pre).length) startAddr =
        sizeofInfoItem + (body pre).length := by
      rw [sub32_of_le (by omega) (by omega)]
      omega
    rw [rebuild, searchInfoTbl_some h ht]
    simp only
    rw [hfound, Option.map_some, if_neg (by omega), loadInfoTbl_eq h ht, hsub,
      sub32_of_le (by omega) (by omega)]
  · generalize storeBytes (fun _ => 0) (encode (pre ++ (item, v) :: post)) = buf at hbytes
    rw [encode, body_append, body_cons] at hbytes
    obtain ⟨-, hbody⟩ := bytesAt_append.mp hbytes
    obtain ⟨hpre', hrest⟩ := bytesAt_append.mp hbody
    obtain ⟨hentry, hpost'⟩ := bytesAt_append.mp hrest
    rw [length_entryBytes] at hpost'
    obtain ⟨-, hvalue⟩ := bytesAt_append.mp hentry
    refine ⟨rfl, ?_, ?_, ?_, ?_, ?_⟩
    · simp only
      omega
    · simp only
      omega
    · exact hpre'
    · rw [hvlen] at hpost'
      exact hpost'
    · intro hmac
      rw [hv, hmac] at hvalue
      have hzero := (bytesAt_append.mp hvalue).2
      simp only [List.length_append, length_wordBytes, length_readBytes, Nat.reduceAdd] at hzero
      exact hzero

/-! ## Saving -/

/-- Erasing and writing the start of the partition stores the bytes of the buffer. -/
theorem bytesAt_rewrite {dev : FlashDev} (hdev : 0x1D2000 ≤ dev.size) {buf : Nat → Byte} {n : Nat}
    {bs : List Byte} (hbuf : BytesAt buf 0 bs) (hn : bs.length = n) (hpos : 0 < n) (hle : n ≤ 4096) :
    BytesAt (bkFlashWrite (bkFlashErase dev .netParam 0 n) .netParam 0 buf n).cells startAddr bs ∧
      (bkFlashWrite (bkFlashErase dev .netParam 0 n) .netParam 0 buf n).size = dev.size := by
  have hs : startAddr = 0x1D1000 := rfl
  have hstart : BkPartition.netParam.startAddr = 0x1D1000 := rfl
  have hlength : BkPartition.netParam.length = 0x1000 := rfl
  have haddr : u32 (BkPartition.netParam.startAddr + 0) = 0x1D1000 := rfl
  have hround : (n + 4095) / 4096 = 1 := by omega
  rw [bkFlashErase_eq (by omega) hpos (by omega), bkFlashWrite, haddr, hround, hstart, Nat.mul_one,
    flashWrite_eq (by simp only; omega)]
  refine ⟨?_, rfl⟩
  apply List.ext_getElem (length_readBytes _ _ _)
  intro i h hi
  have hi' : i < (readBytes buf 0 bs.length).length := by rwa [length_readBytes]
  have hget : (readBytes buf 0 bs.length)[i] = bs[i] := List.getElem_of_eq hbuf hi'
  rw [getElem_readBytes, Nat.zero_add] at hget
  rw [getElem_readBytes h, programmed]
  simp only
  rw [Nor.program_erased (Nor.erased_erase.mono (Nat.le_refl _) (by omega)) (by omega) (by omega)]
  have hsub : startAddr + i - 0x1D1000 = i := by omega
  rw [hsub, hget]

theorem TableOk.put {t : Table} (h : TableOk t) (item : NetInfoItem) (ptr0 ptr1 ptr2 : Nat → Byte) :
    TableOk (Assoc.put t item (valueOf item ptr0 ptr1 ptr2)) := by
  refine ⟨Assoc.keys_nodup_put h.keys item _, fun e he => ?_⟩
  rcases Assoc.mem_put he with he | rfl
  · exact h.values e he
  · exact ⟨ptr0, ptr1, ptr2, rfl⟩

/-- There is always a buffer with the place of the item prepared. -/
theorem rebuild_spec {dev : FlashDev} {t : Table} (h : Stored dev t) (item : NetInfoItem) :
    ∃ r pre post, rebuild dev item = some r ∧ Prepared r item pre post ∧
      ∀ v, Assoc.put t item v = pre ++ (item, v) :: post := by
  cases hg : Assoc.get t item with
  | none =>
    have hitem := Assoc.get_eq_none.mp hg
    by_cases ht : t = []
    · rw [ht] at h ⊢
      obtain ⟨r, hr, hp⟩ := rebuild_first h item
      exact ⟨r, [], [], hr, hp, fun _ => rfl⟩
    · obtain ⟨r, hr, hp⟩ := rebuild_append h ht hitem
      exact ⟨r, t, [], hr, hp, fun _ => Assoc.put_new hitem⟩
  | some w =>
    obtain ⟨pre, post, rfl, hpre⟩ := Assoc.split_of_get hg
    obtain ⟨r, hr, hp⟩ := rebuild_update h hpre
    exact ⟨r, pre, post, hr, hp, fun _ => Assoc.put_split hpre⟩

/-- `save_info_item` puts the value into the table. -/
theorem saveInfoItem_spec {dev : FlashDev} {t : Table} (h : Stored dev t) (item : NetInfoItem)
    (ptr0 ptr1 ptr2 : Nat → Byte) :
    ∃ dev', saveInfoItem dev true item ptr0 ptr1 ptr2 = some (1, dev') ∧
      Stored dev' (Assoc.put t item (valueOf item ptr0 ptr1 ptr2)) := by
  obtain ⟨r, pre, post, hr, hp, hput⟩ := rebuild_spec h item
  have hok := h.ok.put item ptr0 ptr1 ptr2
  have hfill := hp.fill ptr0 ptr1 ptr2
  rw [← hput] at hfill
  have hlen := hok.length_body
  have henc := length_encode (Assoc.put t item (valueOf item ptr0 ptr1 ptr2))
  have h8 : sizeofInfoItem = 8 := rfl
  have hsize : (encode (Assoc.put t item (valueOf item ptr0 ptr1 ptr2))).length = r.cfgTblLen := by
    rw [henc, hput, length_encode_split, hp.size, hp.offset]
    omega
  obtain ⟨hbytes, hdev⟩ := bytesAt_rewrite h.size hfill hsize (by omega) (by omega)
  refine ⟨_, by rw [saveInfoItem, hr]; rfl, ?_, hok, ?_⟩
  · rw [hdev]
    exact h.size
  · rw [if_neg (Assoc.put_ne_nil _ _ _)]
    exact hbytes

/-- A save leaves the flash outside the partition alone. -/
theorem saveInfoItem_sameOutside {dev dev' : FlashDev} {t : Table} {r : Nat} (h : Stored dev t)
    (item : NetInfoItem) (ptr0 ptr1 ptr2 : Nat → Byte)
    (hsave : saveInfoItem dev true item ptr0 ptr1 ptr2 = some (r, dev')) :
    SameOutside startAddr (startAddr + 4096) dev dev' := by
  obtain ⟨b, pre, post, hb, hp, hput⟩ := rebuild_spec h item
  have hlen := (h.ok.put item ptr0 ptr1 ptr2).length_body
  have hdev := h.size
  have hs : startAddr = 0x1D1000 := rfl
  have h8 : sizeofInfoItem = 8 := rfl
  have hstart : BkPartition.netParam.startAddr = 0x1D1000 := rfl
  have hlength : BkPartition.netParam.length = 0x1000 := rfl
  have haddr : u32 (BkPartition.netParam.startAddr + 0) = 0x1D1000 := rfl
  rw [hput, length_encode_split] at hlen
  have hsize := hp.size
  have hoffset := hp.offset
  have hround : (b.cfgTblLen + 4095) / 4096 = 1 := by omega
  rw [saveInfoItem, hb, Option.map_some, if_pos rfl] at hsave
  cases hsave
  rw [bkFlashErase_eq (by omega) (by omega) (by omega), bkFlashWrite, haddr, hround, hstart,
    Nat.mul_one, flashWrite_eq (by simp only; omega), programmed]
  refine ⟨rfl, fun x hx => ?_⟩
  simp only
  rw [Nor.program_outside (by omega), Nor.erase_outside (by omega)]

/-- What the flash holds depends on the partition only. -/
theorem Stored.congr {dev dev' : FlashDev} {t : Table} (h : Stored dev t)
    (hsize : dev'.size = dev.size)
    (hcells : ∀ x, startAddr ≤ x → x < startAddr + 4096 → dev'.cells x = dev.cells x) :
    Stored dev' t := by
  have hlen := h.ok.length_body
  have henc := length_encode t
  have h8 : sizeofInfoItem = 8 := rfl
  have hbytes := h.bytes
  refine ⟨hsize ▸ h.size, h.ok, ?_⟩
  by_cases ht : t = []
  · rw [if_pos ht] at hbytes ⊢
    rw [read32_congr fun x ⟨hlo, hhi⟩ => hcells x hlo (by omega)]
    exact hbytes
  · rw [if_neg ht] at hbytes ⊢
    exact hbytes.congr fun x ⟨hlo, hhi⟩ => hcells x hlo (by omega)

/-! ## Getting -/

/-- What `get_info_item` makes of the value `v` of an item. -/
def gotOf (item : NetInfoItem) (v : List Byte) : Got :=
  match item with
  | .ssidKeyItem => ⟨1, v.take 32, v.drop 32, []⟩
  | .ipConfigItem => ⟨1, v.take 16, (v.drop 16).take 16, v.drop 32⟩
  | .chargeConfigItem => ⟨0, [], [], []⟩
  | _ => ⟨1, v, [], []⟩

theorem flashRead_of_bytesAt {dev : FlashDev} {addr n : Nat} {bs : List Byte}
    (h : BytesAt dev.cells addr bs) (hn : bs.length = n) (hle : addr + n ≤ 2 ^ 24) :
    flashRead dev n addr = bs := by
  rw [flashRead_eq (by omega) (by omega), ← hn]
  exact h

theorem bytesAt_take_drop {m : Mem} {a : Nat} {bs : List Byte} (h : BytesAt m a bs) {k : Nat}
    (hk : k ≤ bs.length) : BytesAt m a (bs.take k) ∧ BytesAt m (a + k) (bs.drop k) := by
  rw [← List.take_append_drop k bs] at h
  obtain ⟨h1, h2⟩ := bytesAt_append.mp h
  rw [List.length_take_of_le hk] at h2
  exact ⟨h1, h2⟩

/-- The head and the value of an item of the table, where the search finds it. -/
theorem searchInfoItem_value {dev : FlashDev} {pre post : Table} {item : NetInfoItem}
    {v : List Byte} (h : Stored dev (pre ++ (item, v) :: post)) (hpre : item ∉ Assoc.keys pre) :
    ∃ addr, 0 < addr ∧ searchInfoItem dev item startAddr = some addr ∧
      readHead dev addr = ⟨item.code, v.length⟩ ∧
      flashRead dev v.length (u32 (addr + sizeofInfoItem)) = v ∧
      u32 (addr + sizeofInfoItem) + v.length ≤ 0x1D2000 ∧
      BytesAt dev.cells (u32 (addr + sizeofInfoItem)) v := by
  have hlen := h.ok.length_body
  have hitem : v.length + sizeofInfoItem = infoItemLen item :=
    h.ok.entry_length (e := (item, v)) (by simp)
  have hle := infoItemLen_le item
  have h8 : sizeofInfoItem = 8 := rfl
  have hs : startAddr = 0x1D1000 := rfl
  rw [body_append, List.length_append] at hlen
  obtain ⟨hfound, hentry⟩ := searchInfoItem_found h hpre
  obtain ⟨addr, haddr⟩ : ∃ addr, addr = startAddr + sizeofInfoItem + (body pre).length :=
    ⟨_, rfl⟩
  rw [← haddr] at hfound hentry
  have hhead : readHead dev addr = ⟨item.code, v.length⟩ :=
    readHead_entry (by omega) (by simp only; omega) hentry
  have hnext : u32 (addr + sizeofInfoItem) = addr + 8 := u32_of_lt (by omega)
  have hvalue : BytesAt dev.cells (addr + 8) v := (bytesAt_append.mp hentry).2
  refine ⟨addr, by omega, hfound, hhead, ?_⟩
  rw [hnext]
  exact ⟨flashRead_of_bytesAt hvalue rfl (by omega), by omega, hvalue⟩

/-- `get_info_item` finds the value of an item of the table. -/
theorem getInfoItem_spec {dev : FlashDev} {t : Table} (h : Stored dev t) (item : NetInfoItem) :
    getInfoItem dev item true true true = some
      (match Assoc.get t item with
      | none => ⟨0, [], [], []⟩
      | some v => gotOf item v) := by
  cases hg : Assoc.get t item with
  | none =>
    have hitem := Assoc.get_eq_none.mp hg
    by_cases ht : t = []
    · rw [ht] at h
      rw [getInfoItem, searchInfoTbl_none h]
    · rw [getInfoItem, searchInfoTbl_some h ht]
      simp only
      rw [searchInfoItem_missing h ht hitem]
      rfl
  | some v =>
    obtain ⟨pre, post, rfl, hpre⟩ := Assoc.split_of_get hg
    have ht : pre ++ (item, v) :: post ≠ [] := by simp
    have hitem : v.length + sizeofInfoItem = infoItemLen item :=
      h.ok.entry_length (e := (item, v)) (by simp)
    obtain ⟨addr, haddr, hfound, hhead, hwhole, hend, hvalue⟩ := searchInfoItem_value h hpre
    rw [getInfoItem, searchInfoTbl_some h ht]
    simp only
    rw [hfound, Option.map_some, if_neg (by omega), hhead]
    simp only
    generalize u32 (addr + sizeofInfoItem) = a at hwhole hend hvalue ⊢
    cases item with
    | ssidKeyItem =>
      have hv : v.length + 8 = 104 := hitem
      obtain ⟨h1, h2⟩ := bytesAt_take_drop hvalue (k := 32) (by omega)
      have h32 : u32 (a + 32) = a + 32 := u32_of_lt (by omega)
      simp only [Bool.and_self, if_true, gotOf, h32]
      rw [flashRead_of_bytesAt h1 (by rw [List.length_take]; omega) (by omega),
        flashRead_of_bytesAt h2 (by rw [List.length_drop]; omega) (by omega)]
    | ipConfigItem =>
      have hv : v.length + 8 = 56 := hitem
      obtain ⟨h1, h2⟩ := bytesAt_take_drop hvalue (k := 16) (by omega)
      obtain ⟨h3, h4⟩ := bytesAt_take_drop h2 (k := 16) (by rw [List.length_drop]; omega)
      have h16 : u32 (a + 16) = a + 16 := u32_of_lt (by omega)
      have h32 : u32 (a + 16 + 16) = a + 16 + 16 := u32_of_lt (by omega)
      rw [List.drop_drop] at h4
      simp only [Bool.and_self, if_true, gotOf, h16, h32]
      rw [flashRead_of_bytesAt h1 (by rw [List.length_take]; omega) (by omega),
        flashRead_of_bytesAt h3 (by rw [List.length_take, List.length_drop]; omega) (by omega),
        flashRead_of_bytesAt h4 (by rw [List.length_drop]; omega) (by omega)]
    | chargeConfigItem => rfl
    | _ => simp only [if_true, gotOf, hwhole]

end TuyaSdk.NetParam
