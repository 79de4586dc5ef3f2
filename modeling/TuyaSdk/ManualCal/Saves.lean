import TuyaSdk.ManualCal.Update

/-!
# Saving groups

Each save puts its group into the list of groups in flash, or the value of an element into its
group, and leaves everything outside the sector alone.
-/

namespace TuyaSdk.ManualCal
open TuyaSdk.Lib TuyaSdk.Flash

variable {dev dev' : FlashDev} {gs gs' pre post : Groups} {k : Kind} {g : Group} {buf readBuf : Mem}
  {off n : Nat} {es epre epost : List (Nat × List Byte)}

/-- The flash holds the groups `gs`, and outside the sector what `dev` holds. -/
structure Saved (dev : FlashDev) (gs : Groups) (dev' : FlashDev) : Prop where
  stored : Stored dev' gs
  size : dev'.size = dev.size
  outside : ∀ x, x < startAddr ∨ startAddr + BK_FLASH_SECTOR_SIZE ≤ x → dev'.cells x = dev.cells x

theorem Saved.sameOutside (h : Saved dev gs dev') :
    SameOutside startAddr (startAddr + BK_FLASH_SECTOR_SIZE) dev dev' := ⟨h.size, h.outside⟩

/-- What the flash holds depends on the sector only. -/
theorem Stored.congr (h : Stored dev gs) (hsize : dev'.size = dev.size)
    (hcells : ∀ x, startAddr ≤ x → x < startAddr + BK_FLASH_SECTOR_SIZE →
      dev'.cells x = dev.cells x) : Stored dev' gs := by
  have hsector : BK_FLASH_SECTOR_SIZE = 4096 := rfl
  have hlen := h.ok.length_areas
  have himage := length_image gs
  have hbytes := h.bytes
  refine ⟨hsize ▸ h.size, h.ok, ?_⟩
  by_cases hgs : gs = []
  · rw [if_pos hgs] at hbytes ⊢
    rw [read32_congr fun x ⟨hlo, hhi⟩ => hcells x hlo (by omega)]
    exact hbytes
  · rw [if_neg hgs] at hbytes ⊢
    exact hbytes.congr fun x ⟨hlo, hhi⟩ => hcells x hlo (by omega)

theorem Stored.saved (h : Stored dev gs) : Saved dev gs dev := ⟨h, rfl, fun _ _ => rfl⟩

theorem Saved.trans {dev'' : FlashDev} (h : Saved dev gs dev') (h' : Saved dev' gs' dev'') :
    Saved dev gs' dev'' :=
  ⟨h'.stored, h'.size.trans h.size, fun x hx => (h'.outside x hx).trans (h.outside x hx)⟩

/-! ## Groups that fit -/

theorem GroupsOk.put (h : GroupsOk gs) (hg : g.Ok k) (hk : gs ≠ [] ∨ k = .txid) :
    GroupsOk (Assoc.put gs k g) := by
  refine ⟨Assoc.keys_nodup_put h.keys k g, fun e he => ?_, .inr ?_⟩
  · rcases Assoc.mem_put he with he | rfl
    · exact h.groups e he
    · exact hg
  · rcases h.first with rfl | ⟨g₀, gs₀, rfl⟩
    · obtain rfl := hk.resolve_left fun hne => hne rfl
      exact ⟨g, [], rfl⟩
    · rw [Assoc.put]
      by_cases hkey : Kind.txid = k
      · rw [if_pos hkey, ← hkey]
        exact ⟨g, gs₀, rfl⟩
      · rw [if_neg hkey]
        exact ⟨g₀, Assoc.put gs₀ k g, rfl⟩

theorem GroupsOk.group (h : GroupsOk (pre ++ (k, g) :: post)) : g.Ok k :=
  h.groups (k, g) (List.mem_append_right _ List.mem_cons_self)

theorem GroupsOk.replace {g' : Group} (h : GroupsOk (pre ++ (k, g) :: post)) (hg' : g'.Ok k) :
    GroupsOk (pre ++ (k, g') :: post) := by
  have hk : k ∉ Assoc.keys pre := by
    have hnodup := h.keys
    rw [Assoc.keys, List.map_append, List.map_cons] at hnodup
    exact fun hmem => (List.nodup_append.mp hnodup).2.2 k hmem k List.mem_cons_self rfl
  rw [← Assoc.put_split hk]
  exact h.put hg' (.inl (List.append_ne_nil_of_right_ne_nil _ (List.cons_ne_nil _ _)))

theorem length_areas_split (pre post : Groups) (hg : g.Ok k) :
    (Tlv.body (areas (pre ++ (k, g) :: post))).length =
      (Tlv.body (areas pre)).length + (k.len + (Tlv.body (areas post)).length) := by
  rw [areas_append, areas_cons, Tlv.body_append, Tlv.body_cons, List.length_append,
    List.length_append, Tlv.length_elemBytes, hg.length_bytes]

/-- The bytes before and behind a group of the sector. -/
theorem image_split (pre post : Groups) (hg : g.Ok k) :
    image (pre ++ (k, g) :: post) =
    (wordBytes BK_FLASH_OPT_TLV_HEADER ++
        wordBytes ((Tlv.body (areas pre)).length + (k.len + (Tlv.body (areas post)).length)) ++
        Tlv.body (areas pre)) ++
      (Tlv.elemBytes (k.type, g.bytes) ++ Tlv.body (areas post)) := by
  rw [image, Tlv.elemBytes, length_areas_split pre post hg, areas_append, areas_cons, Tlv.body_append,
    Tlv.body_cons]
  simp only [List.append_assoc]

/-- An element has a value of its length in every group. -/
theorem Group.Ok.split {t : Nat} (h : g.Ok k) (ht : (t, n) ∈ k.layout) :
    ∃ epre v epost, g.elems = epre ++ (t, v) :: epost ∧ t ∉ Assoc.keys epre ∧ v.length = n := by
  rw [← h.layout] at ht
  obtain ⟨e, he, heq⟩ := List.mem_map.mp ht
  obtain ⟨epre, epost, hsplit⟩ := List.append_of_mem he
  obtain ⟨rfl, rfl⟩ := Prod.mk.inj heq
  have hnodup := k.layout_types_nodup
  rw [← h.keys_eq, hsplit, Assoc.keys, List.map_append, List.map_cons] at hnodup
  exact ⟨epre, e.2, epost, hsplit,
    fun hmem => (List.nodup_append.mp hnodup).2.2 e.1 hmem e.1 List.mem_cons_self rfl, rfl⟩

theorem Group.Ok.replace {t : Nat} {v value spare : List Byte}
    (h : Group.Ok k ⟨epre ++ (t, v) :: epost, spare⟩) (hlen : value.length = v.length) :
    Group.Ok k ⟨epre ++ (t, value) :: epost, spare⟩ := by
  refine ⟨?_, h.spare⟩
  rw [← h.layout, List.map_append, List.map_append, List.map_cons, List.map_cons, hlen]

/-! ## Laying out -/

theorem putHead_apply {off type len x : Nat} (h : x < off ∨ off + 8 ≤ x) :
    putHead buf off type len x = buf x := writeBytes_apply h

theorem bytesAt_putHead (buf : Mem) (off type len : Nat) :
    BytesAt (putHead buf off type len) off (wordBytes type ++ wordBytes len) :=
  bytesAt_writeBytes _ _ _

theorem putGroup_apply {off type len x : Nat}
    (h : x < off ∨ off + 8 + (Tlv.body es).length ≤ x) : putGroup buf off type len es x = buf x := by
  have h8 : sizeofTagTxpwr = 8 := rfl
  rw [putGroup, Tlv.putElems_apply (by omega), putHead_apply (by omega)]

theorem bytesAt_putGroup {off type len : Nat} {spare : List Byte}
    (hspare : BytesAt buf (off + 8 + (Tlv.body es).length) spare)
    (hlen : len = 8 + ((Tlv.body es).length + spare.length)) :
    BytesAt (putGroup buf off type len es) off
      (Tlv.elemBytes (type, Tlv.body es ++ spare)) := by
  have h8 : sizeofTagTxpwr = 8 := rfl
  have hsub : len - sizeofTagTxpwr = (Tlv.body es ++ spare).length := by
    rw [List.length_append]
    omega
  rw [Tlv.elemBytes]
  refine bytesAt_append.mpr ⟨?_, bytesAt_append.mpr ⟨?_, ?_⟩⟩
  · rw [putGroup, hsub]
    refine (bytesAt_putHead buf off type _).congr fun x hx => Tlv.putElems_apply (.inl ?_)
    exact hx.2
  · exact Tlv.bytesAt_putElems _ _ _
  · exact hspare.congr fun x hx => putGroup_apply (.inr hx.1)

/-- The elements of a save with what the buffer holds behind them are a group. -/
theorem bytesAt_putGroup_ok (buf : Mem) (off : Nat)
    (hes : (es.map fun e => (e.1, e.2.length)) = k.layout) :
    ∃ g : Group, g.elems = es ∧ g.Ok k ∧
      BytesAt (putGroup buf off k.type k.len es) off (Tlv.elemBytes (k.type, g.bytes)) := by
  obtain ⟨spare, hspare⟩ : ∃ spare,
      spare = readBytes buf (off + 8 + (Tlv.body es).length) k.spare := ⟨_, rfl⟩
  have hlength : spare.length = k.spare := by rw [hspare, length_readBytes]
  have hbytes : BytesAt buf (off + 8 + (Tlv.body es).length) spare := by
    rw [hspare]
    exact bytesAt_readBytes _ _ _
  refine ⟨⟨es, spare⟩, rfl, ⟨hes, hlength⟩, bytesAt_putGroup hbytes ?_⟩
  rw [hlength, length_body_eq, hes]
  exact k.len_eq

/-! ## Updates of the groups -/

/-- An update of everything. -/
theorem Stored.whole (h : Stored dev gs) (hok : GroupsOk gs') (hne : gs' ≠ [])
    (hbuf : BytesAt buf 0 (image gs')) (hn : (image gs').length = n)
    (hle : gs ≠ [] → (image gs).length ≤ n) :
    Saved dev gs' (manualCalUpdateFlashArea dev readBuf 0 buf n) := by
  have hsector : BK_FLASH_SECTOR_SIZE = 4096 := rfl
  have hlen := length_image gs'
  have hareas := hok.length_areas
  have hopt : ∀ m, manualCalSearchOptTab dev = some m → m ≤ n := by
    intro m hm
    by_cases hgs : gs = []
    · rw [hgs] at h
      rw [manualCalSearchOptTab_none h] at hm
      cases hm
    · rw [manualCalSearchOptTab_some h hgs] at hm
      cases hm
      exact hle hgs
  have hupd := manualCalUpdateFlashArea_whole h.size readBuf buf hopt (by omega) (by omega)
  refine ⟨⟨?_, hok, ?_⟩, hupd.size, hupd.outside⟩
  · rw [hupd.size]
    exact h.size
  · rw [if_neg hne]
    have hwritten := hupd.written
    rw [BytesAt, hn] at hbuf
    rwa [hbuf] at hwritten

/-- An update in place. -/
theorem Stored.patch {b₀ b₁ old new : List Byte} (h : Stored dev gs) (readBuf : Mem) (hgs : gs ≠ [])
    (hok : GroupsOk gs') (hne : gs' ≠ []) (himage : image gs = b₀ ++ (old ++ b₁))
    (himage' : image gs' = b₀ ++ (new ++ b₁)) (hnew : new.length = old.length)
    (hpos : 0 < old.length) (hb₀ : b₀.length ≠ 0) (hbuf : BytesAt buf 0 new) :
    Saved dev gs' (manualCalUpdateFlashArea dev readBuf b₀.length buf new.length) := by
  have hsector : BK_FLASH_SECTOR_SIZE = 4096 := rfl
  have hlen := length_image gs
  have hareas := h.ok.length_areas
  have hsplit := congrArg List.length himage
  rw [List.length_append, List.length_append] at hsplit
  have hupd : Updated dev b₀.length (readBytes buf 0 new.length) (image gs).length
      (manualCalUpdateFlashArea dev readBuf b₀.length buf new.length) :=
    manualCalUpdateFlashArea_spec h.size readBuf buf (by omega) (by omega) (by omega)
      (fun h0 => absurd h0 hb₀) (.inl (manualCalSearchOptTab_some h hgs))
  rw [BytesAt] at hbuf
  rw [hbuf] at hupd
  have hbytes := h.bytesAt hgs
  rw [himage] at hbytes hupd
  refine ⟨⟨?_, hok, ?_⟩, hupd.size, hupd.outside⟩
  · rw [hupd.size]
    exact h.size
  · rw [if_neg hne, himage']
    exact hupd.bytesAt hbytes hnew (Nat.le_refl _)

/-! ## The saves of groups -/

/-- The flash in a buffer, under a header for `len` bytes. -/
theorem bytesAt_copyFlash (h : Stored dev gs) (hgs : gs ≠ []) (buf : Mem) (len : Nat)
    (hlen : len < 2 ^ 32) (h8 : 8 ≤ len) :
    BytesAt (copyFlash dev buf (image gs).length len) 0
      (wordBytes BK_FLASH_OPT_TLV_HEADER ++ wordBytes (len - 8) ++ Tlv.body (areas gs)) := by
  have hs : startAddr = 0x1D0000 := rfl
  have hareas := h.ok.length_areas
  have hl := length_image gs
  have hsub : sub32 len sizeofTagTxpwr = len - 8 := sub32_of_le h8 hlen
  have hread : flashRead dev (image gs).length startAddr = image gs := by
    rw [flashRead_eq (by omega) (by omega)]
    exact h.bytesAt hgs
  rw [copyFlash, hsub, hread]
  refine bytesAt_append.mpr ⟨bytesAt_putHead _ _ _ _, ?_⟩
  exact (bytesAt_append.mp (bytesAt_storeBytes buf (image gs))).2.congr
    fun x ⟨hx, _⟩ => putHead_apply (.inr hx)

theorem saveGroup_none (h : Stored dev []) (heap : Heap) (type len : Nat) :
    saveGroup dev heap type len es = some (0, dev) := by
  rw [saveGroup, manualCalSearchOptTab_none h]

/-- A group that is not there goes behind the others. -/
theorem Stored.append (h : Stored dev gs) (hgs : gs ≠ []) (hk : k ∉ Assoc.keys gs) (heap : Heap)
    (hes : (es.map fun e => (e.1, e.2.length)) = k.layout) :
    ∃ g : Group, g.elems = es ∧ g.Ok k ∧ Saved dev (Assoc.put gs k g)
      (manualCalUpdateFlashArea dev heap.readBuf 0
        (putGroup (copyFlash dev heap.buf (image gs).length ((image gs).length + k.len))
          (image gs).length k.type k.len es) ((image gs).length + k.len)) := by
  have hareas := h.ok.length_areas
  have hl := length_image gs
  have hle := k.len_le
  have hcopy := bytesAt_copyFlash h hgs heap.buf ((image gs).length + k.len) (by omega)
    (by omega)
  obtain ⟨g, rfl, hg, hgroup⟩ := bytesAt_putGroup_ok
    (copyFlash dev heap.buf (image gs).length ((image gs).length + k.len)) (image gs).length hes
  have hput : Assoc.put gs k g = gs ++ [(k, g)] := Assoc.put_new hk
  have hok := h.ok.put hg (.inl hgs)
  have hhead : (image gs).length + k.len - 8 = (Tlv.body (areas gs)).length + (k.len + 0) := by omega
  rw [hhead] at hcopy
  refine ⟨g, rfl, hg, h.whole hok (Assoc.put_ne_nil _ _ _) ?_ ?_ fun _ => by omega⟩
  · have himage : image (gs ++ [(k, g)]) = (wordBytes BK_FLASH_OPT_TLV_HEADER ++
        wordBytes ((Tlv.body (areas gs)).length + (k.len + 0)) ++ Tlv.body (areas gs)) ++
        (Tlv.elemBytes (k.type, g.bytes) ++ []) := image_split gs [] hg
    rw [hput, himage, List.append_nil]
    refine bytesAt_append.mpr ⟨hcopy.congr fun x ⟨_, hx⟩ => putGroup_apply (.inl ?_), ?_⟩
    · simp only [List.length_append, length_wordBytes] at hx
      omega
    · have hat : 0 + (wordBytes BK_FLASH_OPT_TLV_HEADER ++
          wordBytes ((Tlv.body (areas gs)).length + (k.len + 0)) ++
          Tlv.body (areas gs)).length = (image gs).length := by
        simp only [List.length_append, length_wordBytes]
        omega
      rw [hat]
      exact hgroup
  · have hsplit : (Tlv.body (areas (gs ++ [(k, g)]))).length =
        (Tlv.body (areas gs)).length + (k.len + 0) := length_areas_split gs [] hg
    rw [hput, length_image, hsplit]
    omega

/-- A group is written in its place. -/
theorem Stored.inPlace (h : Stored dev (pre ++ (k, g) :: post)) (heap : Heap)
    (hes : (es.map fun e => (e.1, e.2.length)) = k.layout) :
    ∃ g' : Group, g'.elems = es ∧ g'.Ok k ∧ Saved dev (pre ++ (k, g') :: post)
      (manualCalUpdateFlashArea dev heap.readBuf (8 + (Tlv.body (areas pre)).length)
        (putGroup heap.buf 0 k.type k.len es) k.len) := by
  have hg := h.ok.group
  obtain ⟨g', rfl, hg', hgroup⟩ := bytesAt_putGroup_ok heap.buf 0 hes
  have hlen := hg.length_bytes
  have hlen' := hg'.length_bytes
  have hnew : (Tlv.elemBytes (k.type, g'.bytes)).length = k.len := by
    rw [Tlv.length_elemBytes, hlen']
  have hold : (Tlv.elemBytes (k.type, g.bytes)).length = k.len := by
    rw [Tlv.length_elemBytes, hlen]
  have hsaved := h.patch heap.readBuf
    (List.append_ne_nil_of_right_ne_nil _ (List.cons_ne_nil _ _)) (h.ok.replace hg')
    (List.append_ne_nil_of_right_ne_nil _ (List.cons_ne_nil _ _))
    (image_split pre post hg) (image_split pre post hg')
    (hnew.trans hold.symm) (by omega) (by simp only [List.length_append, length_wordBytes]; omega)
    hgroup
  simp only [List.length_append, length_wordBytes, hnew, Nat.reduceAdd] at hsaved
  exact ⟨g', rfl, hg', hsaved⟩

/-- A save of a group puts it among the others. -/
theorem saveGroup_spec (h : Stored dev gs) (hgs : gs ≠ []) (heap : Heap)
    (hes : (es.map fun e => (e.1, e.2.length)) = k.layout) :
    ∃ g dev', saveGroup dev heap k.type k.len es = some (1, dev') ∧ g.elems = es ∧ g.Ok k ∧
      Saved dev (Assoc.put gs k g) dev' := by
  have hareas := h.ok.length_areas
  have hl := length_image gs
  have hle := k.len_le
  have hs : startAddr = 0x1D0000 := rfl
  have hu32 : u32 ((image gs).length + k.len) = (image gs).length + k.len := u32_of_lt (by omega)
  rw [saveGroup, manualCalSearchOptTab_some h hgs]
  simp only [hu32]
  cases hg : Assoc.get gs k with
  | none =>
    have hk := Assoc.get_eq_none.mp hg
    obtain ⟨g, hg, hok, hsaved⟩ := h.append hgs hk heap hes
    rw [manualCalSearchTxpwrTab_none h hk, Option.map_some, if_pos rfl]
    exact ⟨g, _, rfl, hg, hok, hsaved⟩
  | some g =>
    obtain ⟨pre, post, rfl, hk⟩ := Assoc.split_of_get hg
    obtain ⟨g', hg', hok, hsaved⟩ := h.inPlace heap hes
    obtain ⟨hfound, -⟩ := manualCalSearchTxpwrTab_group h hk
    have hsplit := length_areas_split pre post h.ok.group
    have hsub : sub32 (startAddr + 8 + (Tlv.body (areas pre)).length) startAddr =
        8 + (Tlv.body (areas pre)).length := by
      rw [sub32_of_le (by omega) (by omega)]
      omega
    rw [hfound, Option.map_some, if_neg (by omega), hsub]
    refine ⟨g', _, rfl, hg', hok, ?_⟩
    rw [Assoc.put_split hk]
    exact hsaved

/-! ## `TXID` -/

theorem chipinfoElems_layout (g : Globals) :
    ((chipinfoElems g).map fun e => (e.1, e.2.length)) = Kind.txid.layout := by
  simp only [chipinfoElems, List.map_cons, List.map_nil, length_wordBytes, length_readBytes,
    List.length_append, Kind.layout]

theorem chipinfo_ok (g : Globals) : Group.Ok .txid ⟨chipinfoElems g, []⟩ :=
  ⟨chipinfoElems_layout g, rfl⟩

/-- `TXID` laid out in a buffer of the whole sector. -/
theorem bytesAt_chipinfo (g : Globals) (post : Groups)
    (hbuf : BytesAt buf 0 (wordBytes BK_FLASH_OPT_TLV_HEADER ++
      wordBytes (chipinfoLen + (Tlv.body (areas post)).length)))
    (hpost : BytesAt buf (8 + chipinfoLen) (Tlv.body (areas post))) :
    BytesAt (putGroup buf sizeofTagTxpwr TXID chipinfoLen (chipinfoElems g)) 0
      (image ((.txid, ⟨chipinfoElems g, []⟩) :: post)) := by
  have h8 : sizeofTagTxpwr = 8 := rfl
  have hok := chipinfo_ok g
  have hlen := hok.length_bytes
  have hk : Kind.txid.len = chipinfoLen := rfl
  have hempty : (Tlv.body (areas [])).length = 0 := rfl
  have himage : image ((.txid, ⟨chipinfoElems g, []⟩) :: post) =
      (wordBytes BK_FLASH_OPT_TLV_HEADER ++
        wordBytes ((Tlv.body (areas [])).length + (Kind.txid.len + (Tlv.body (areas post)).length)) ++
        Tlv.body (areas [])) ++
      (Tlv.elemBytes (TXID, Group.bytes ⟨chipinfoElems g, []⟩) ++ Tlv.body (areas post)) :=
    image_split [] post hok
  have hnil : Tlv.body (areas []) = [] := rfl
  rw [himage, hempty, hnil, List.append_nil, Nat.zero_add, hk]
  simp only [Group.bytes, List.length_append, List.length_nil] at hlen
  refine bytesAt_append.mpr ⟨?_, bytesAt_append.mpr ⟨?_, ?_⟩⟩
  · exact hbuf.congr fun x hx => putGroup_apply (.inl hx.2)
  · refine bytesAt_putGroup (bytesAt_nil _ _) ?_
    rw [List.length_nil]
    omega
  · have hat : 0 + (wordBytes BK_FLASH_OPT_TLV_HEADER ++
        wordBytes (chipinfoLen + (Tlv.body (areas post)).length)).length +
        (Tlv.elemBytes (TXID, Group.bytes ⟨chipinfoElems g, []⟩)).length = 8 + chipinfoLen := by
      rw [Tlv.length_elemBytes, hok.length_bytes]
      rfl
    rw [hat]
    refine hpost.congr fun x hx => putGroup_apply (.inr ?_)
    have hge := hx.1
    omega

/-- `manual_cal_save_chipinfo_tab_to_flash` puts `TXID` among the groups. -/
theorem manualCalSaveChipinfoTabToFlash_spec (h : Stored dev gs) (heap : Heap) (g : Globals) :
    ∃ dev', manualCalSaveChipinfoTabToFlash dev heap g = some (1, dev') ∧
      Saved dev (Assoc.put gs .txid ⟨chipinfoElems g, []⟩) dev' := by
  have hok := h.ok.put (chipinfo_ok g) (.inr rfl)
  have h8 : sizeofTagTxpwr = 8 := rfl
  rcases h.ok.first with rfl | ⟨g₀, post, rfl⟩
  · have hlen : chipinfoLen + sizeofTagTxpwr - sizeofTagTxpwr = chipinfoLen := Nat.add_sub_cancel _ _
    have hbytes := bytesAt_chipinfo g [] (bytesAt_putHead heap.buf 0 _ _) (bytesAt_nil _ _)
    rw [manualCalSaveChipinfoTabToFlash, chipinfoBuf, manualCalSearchOptTab_none h]
    refine ⟨_, rfl, ?_⟩
    simp only [hlen]
    refine h.whole hok (Assoc.put_ne_nil _ _ _) hbytes ?_ fun hne => absurd rfl hne
    have hsplit : (Tlv.body (areas [(.txid, ⟨chipinfoElems g, []⟩)])).length =
        0 + (chipinfoLen + 0) := length_areas_split [] [] (chipinfo_ok g)
    rw [Assoc.put, length_image, hsplit]
    omega
  · have hgs : (Kind.txid, g₀) :: post ≠ [] := List.cons_ne_nil _ _
    have hput : Assoc.put ((Kind.txid, g₀) :: post) .txid ⟨chipinfoElems g, []⟩ =
        (.txid, ⟨chipinfoElems g, []⟩) :: post := if_pos rfl
    have hg₀ := h.ok.groups (.txid, g₀) List.mem_cons_self
    have hareas := h.ok.length_areas
    have hl := length_image ((Kind.txid, g₀) :: post)
    have hs : startAddr = 0x1D0000 := rfl
    have hstored : Stored dev ([] ++ (.txid, g₀) :: post) := h
    have hfound : manualCalSearchTxpwrTab dev TXID startAddr = some (startAddr + 8 + 0) :=
      (manualCalSearchTxpwrTab_group hstored List.not_mem_nil).1
    have hread : flashRead dev (image ((.txid, g₀) :: post)).length startAddr =
        image ((.txid, g₀) :: post) := by
      rw [flashRead_eq (by omega) (by omega)]
      exact h.bytesAt hgs
    have hcopy := bytesAt_storeBytes heap.buf (image ((.txid, g₀) :: post))
    obtain ⟨buf, hbuf⟩ : ∃ buf, buf = storeBytes heap.buf (image ((.txid, g₀) :: post)) := ⟨_, rfl⟩
    have hsplit : (Tlv.body (areas ((.txid, g₀) :: post))).length =
        0 + (chipinfoLen + (Tlv.body (areas post)).length) := length_areas_split [] post hg₀
    have hsplit' : (Tlv.body (areas ((.txid, ⟨chipinfoElems g, []⟩) :: post))).length =
        0 + (chipinfoLen + (Tlv.body (areas post)).length) :=
      length_areas_split [] post (chipinfo_ok g)
    rw [← hbuf] at hcopy
    have himage := image_split [] post hg₀
    rw [List.nil_append] at himage
    rw [himage] at hcopy
    obtain ⟨hhead, hrest⟩ := bytesAt_append.mp hcopy
    obtain ⟨-, hpost⟩ := bytesAt_append.mp hrest
    have hbytes : BytesAt (putGroup buf sizeofTagTxpwr TXID chipinfoLen (chipinfoElems g)) 0
        (image ((.txid, ⟨chipinfoElems g, []⟩) :: post)) := by
      refine bytesAt_chipinfo g post ?_ ?_
      · have hhead : BytesAt buf 0 (wordBytes BK_FLASH_OPT_TLV_HEADER ++
            wordBytes (0 + (chipinfoLen + (Tlv.body (areas post)).length)) ++ []) := hhead
        rwa [List.append_nil, Nat.zero_add] at hhead
      · rw [Tlv.length_elemBytes, hg₀.length_bytes] at hpost
        exact hpost
    rw [manualCalSaveChipinfoTabToFlash, chipinfoBuf, manualCalSearchOptTab_some h hgs]
    simp only
    rw [hfound, Option.map_some, if_neg (by omega), hread, ← hbuf]
    refine ⟨_, rfl, ?_⟩
    refine h.whole hok (Assoc.put_ne_nil _ _ _) ?_ ?_ fun _ => Nat.le_refl _
    · rw [hput]
      exact hbytes
    · rw [hput, length_image, hsplit', hl, hsplit]

end TuyaSdk.ManualCal
