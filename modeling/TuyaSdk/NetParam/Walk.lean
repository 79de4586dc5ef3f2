import TuyaSdk.Lib.Search
import TuyaSdk.NetParam.Table

/-!
# The walk over the items, for any contents of the flash

`search_info_item` goes from item to item by the lengths in their heads, which nothing checks.
Here is what the walk comes to for arbitrary contents: it is a search (`searchPass_eq`), whose
places are given by the contents alone (`itemAddr`). `Sound` says of the contents that the walk
leads to the item or to the end of the table inside the partition, and is just what makes
`get_info_item` return and keep to the partition (`robust_iff`).
-/

namespace TuyaSdk.NetParam
open TuyaSdk.Lib TuyaSdk.Flash

variable {dev : FlashDev} {item : NetInfoItem} {ptr0 ptr1 ptr2 : Bool} {k : Nat}

/-! ## The reads of the flash -/

/-- A read of `count` bytes of the flash at `addr`. -/
structure Read where
  addr : Nat
  count : Nat
  deriving DecidableEq, Repr

/-- `pt->partition_start_addr + pt->partition_length`. -/
def endOfPartition : Nat := startAddr + BkPartition.netParam.length

/-- The read keeps to the partition from `lo` on. -/
def Read.From (lo : Nat) (r : Read) : Prop := lo ≤ r.addr ∧ r.addr + r.count ≤ endOfPartition

/-- `end_addr` of `search_info_item`. -/
def endAddr (dev : FlashDev) : Nat :=
  u32 (u32 (startAddr + sizeofInfoItem) + (readHead dev startAddr).len)

/-- The reads of `search_info_item`: the head of the table, and the head of each item it comes
to. -/
def searchReads (dev : FlashDev) (type : NetInfoItem) : List Read :=
  let addr := u32 (startAddr + sizeofInfoItem)
  let last := match Loop.run (searchPass dev type (endAddr dev)) (2 ^ 32) addr with
    | some addr => if addr < endAddr dev then [addr] else []
    | none => []
  ⟨startAddr, sizeofInfoItem⟩ ::
    (Loop.visited (searchPass dev type (endAddr dev)) (2 ^ 32) addr ++ last).map
      fun addr => ⟨addr, sizeofInfoItem⟩

/-- The reads of the switch of `get_info_item`, for a value of length `len` at `addrStart`. -/
def valueReads (item : NetInfoItem) (ptr0 ptr1 ptr2 : Bool) (len addrStart : Nat) : List Read :=
  match item with
  | .autoConnectItem | .wifiModeItem | .dhcpModeItem | .wifiMacItem | .rfCfgTssiItem
  | .rfCfgDistItem | .rfCfgModeItem | .rfCfgTssiBItem => if ptr0 then [⟨addrStart, len⟩] else []
  | .ssidKeyItem =>
    if ptr0 && ptr1 then [⟨addrStart, 32⟩, ⟨u32 (addrStart + 32), 64⟩] else []
  | .ipConfigItem =>
    if ptr0 && ptr1 && ptr2 then
      [⟨addrStart, 16⟩, ⟨u32 (addrStart + 16), 16⟩, ⟨u32 (u32 (addrStart + 16) + 16), 16⟩]
    else []
  | .chargeConfigItem => []

/-- The reads of the item that `get_info_item` reports: its head and its value. -/
def itemReads (dev : FlashDev) (item : NetInfoItem) (ptr0 ptr1 ptr2 : Bool) : List Read :=
  match searchInfoItem dev item startAddr with
  | none => []
  | some addr =>
    if addr = 0 then []
    else
      ⟨addr, sizeofInfoItem⟩ ::
        valueReads item ptr0 ptr1 ptr2 (readHead dev addr).len (u32 (addr + sizeofInfoItem))

/-- The reads of `search_info_tbl` and `get_info_item`. -/
def getReads (dev : FlashDev) (item : NetInfoItem) (ptr0 ptr1 ptr2 : Bool) : List Read :=
  ⟨startAddr, sizeofInfoItem⟩ ::
    match searchInfoTbl dev with
    | none => []
    | some _ => searchReads dev item ++ itemReads dev item ptr0 ptr1 ptr2

/-- The bytes that `get_info_item` stores are those it reads as the value. -/
theorem getInfoItem_reads {g : Got} (h : getInfoItem dev item ptr0 ptr1 ptr2 = some g)
    (hret : g.ret = 1) :
    ∃ head, itemReads dev item ptr0 ptr1 ptr2 = head :: (itemReads dev item ptr0 ptr1 ptr2).tail ∧
      g.out0 ++ g.out1 ++ g.out2 =
        (itemReads dev item ptr0 ptr1 ptr2).tail.flatMap fun r => flashRead dev r.count r.addr := by
  rw [getInfoItem] at h
  cases htbl : searchInfoTbl dev with
  | none =>
    rw [htbl] at h
    cases h
    cases hret
  | some n =>
    rw [htbl] at h
    obtain ⟨addr, haddr, hg⟩ := Option.map_eq_some_iff.mp h
    split at hg
    next =>
      rw [← hg] at hret
      cases hret
    next hne =>
      simp only [itemReads, haddr, if_neg hne]
      refine ⟨_, rfl, ?_⟩
      rw [List.tail_cons]
      cases item
      case chargeConfigItem =>
        rw [← hg] at hret
        cases hret
      all_goals
        simp only at hg
        simp only [valueReads]
        split at hg
        next hptr =>
          rw [← hg, if_pos hptr]
          simp
        next =>
          rw [← hg] at hret
          cases hret

/-! ## The walk -/

/-- `addr` behind the item at `addr`. -/
def nextAddr (dev : FlashDev) (addr : Nat) : Nat :=
  u32 (u32 (addr + sizeofInfoItem) + (readHead dev addr).len)

/-- The `k`th place of the walk. -/
def itemAddr (dev : FlashDev) (k : Nat) : Nat := (nextAddr dev)^[k] (startAddr + sizeofInfoItem)

/-- The walk ends at `addr`: the table does, or an item of the type lies there. -/
def stops (dev : FlashDev) (item : NetInfoItem) (addr : Nat) : Bool :=
  decide (endAddr dev ≤ addr ∨ item.code = (readHead dev addr).type)

theorem searchPass_eq (dev : FlashDev) (item : NetInfoItem) :
    searchPass dev item (endAddr dev) = Loop.searchPass (stops dev item) (nextAddr dev) := by
  funext addr
  rw [searchPass, Loop.searchPass, stops]
  by_cases hlt : addr < endAddr dev
  · by_cases htype : item.code = (readHead dev addr).type
    · rw [if_pos hlt, if_pos (decide_eq_true (.inr htype))]
      exact if_neg (not_not_intro htype)
    · have hstop : ¬ decide (endAddr dev ≤ addr ∨ item.code = (readHead dev addr).type) = true :=
        fun hd => (of_decide_eq_true hd).elim (Nat.not_le_of_lt hlt) htype
      rw [if_pos hlt, if_neg hstop]
      exact if_pos htype
  · rw [if_neg hlt, if_pos (decide_eq_true (.inl (Nat.le_of_not_lt hlt)))]

theorem itemAddr_lt (dev : FlashDev) (k : Nat) : itemAddr dev k < 2 ^ 32 := by
  cases k with
  | zero => exact of_decide_eq_true rfl
  | succ k =>
    rw [itemAddr, Function.iterate_succ_apply']
    exact u32_lt _

/-- The places of the walk before its end, and its end. -/
abbrev WalkEnds (dev : FlashDev) (item : NetInfoItem) (k : Nat) : Prop :=
  Loop.FirstHit (stops dev item) (nextAddr dev) (startAddr + sizeofInfoItem) k

/-- `search_info_item` returns just when the walk ends, and then with the place of the item,
or with 0 at the end of the table. -/
theorem searchInfoItem_isSome_iff :
    (searchInfoItem dev item startAddr).isSome = true ↔ ∃ k, WalkEnds dev item k := by
  have heq : searchInfoItem dev item startAddr = (Loop.run (searchPass dev item (endAddr dev))
      (2 ^ 32) (startAddr + sizeofInfoItem)).map fun addr =>
        if endAddr dev ≤ addr then 0 else addr := rfl
  rw [heq, Option.isSome_map, Option.isSome_iff_exists, searchPass_eq]
  constructor
  · rintro ⟨r, hr⟩
    obtain ⟨k, _, hhit, _⟩ := Loop.exists_of_run_searchPass hr
    exact ⟨k, hhit⟩
  · rintro ⟨k, hhit⟩
    exact ⟨_, hhit.run (hhit.lt (itemAddr_lt dev))⟩

theorem WalkEnds.searchInfoItem (h : WalkEnds dev item k) :
    searchInfoItem dev item startAddr =
      some (if endAddr dev ≤ itemAddr dev k then 0 else itemAddr dev k) := by
  have hrun := h.run (h.lt (itemAddr_lt dev))
  rw [← searchPass_eq] at hrun
  have heq : NetParam.searchInfoItem dev item startAddr =
    (Loop.run (searchPass dev item (endAddr dev)) (2 ^ 32) (startAddr + sizeofInfoItem)).map
      fun addr => if endAddr dev ≤ addr then 0 else addr := rfl
  rw [heq, hrun]
  rfl

/-- The heads that the walk reads. -/
theorem WalkEnds.searchReads (h : WalkEnds dev item k) :
    searchReads dev item = ⟨startAddr, sizeofInfoItem⟩ ::
      ((List.range k).map (itemAddr dev) ++
        if itemAddr dev k < endAddr dev then [itemAddr dev k] else []).map
        fun addr => ⟨addr, sizeofInfoItem⟩ := by
  have hlt := h.lt (itemAddr_lt dev)
  have hrun := h.run hlt
  have hvisited := h.visited (Nat.le_of_lt hlt)
  rw [← searchPass_eq] at hrun hvisited
  have hstart : u32 (startAddr + sizeofInfoItem) = startAddr + sizeofInfoItem := rfl
  rw [NetParam.searchReads, hstart, hrun, hvisited]
  rfl

/-! ## Contents that keep the walk to the partition -/

/-- The flash starts with the head of a table. -/
def HasTable (dev : FlashDev) : Prop := infoTlvHeader = (readHead dev startAddr).type

/-- The bytes that `get_info_item` reads behind a head with the length `len`. -/
def valueLen (item : NetInfoItem) (ptr0 ptr1 ptr2 : Bool) (len : Nat) : Nat :=
  match item with
  | .autoConnectItem | .wifiModeItem | .dhcpModeItem | .wifiMacItem | .rfCfgTssiItem
  | .rfCfgDistItem | .rfCfgModeItem | .rfCfgTssiBItem => if ptr0 then len else 0
  | .ssidKeyItem => if ptr0 && ptr1 then 96 else 0
  | .ipConfigItem => if ptr0 && ptr1 && ptr2 then 48 else 0
  | .chargeConfigItem => 0

/-- The walk ends after `k` items. When there is a table, the heads of these lie in the
partition, and an item that it ends with lies there behind the head of the table, with its
value. -/
structure SoundAt (dev : FlashDev) (item : NetInfoItem) (ptr0 ptr1 ptr2 : Bool) (k : Nat) :
    Prop where
  ends : WalkEnds dev item k
  heads : HasTable dev → ∀ j < k, startAddr ≤ itemAddr dev j ∧
    itemAddr dev j + sizeofInfoItem ≤ endOfPartition
  found : HasTable dev → itemAddr dev k < endAddr dev →
    startAddr + sizeofInfoItem ≤ itemAddr dev k ∧ itemAddr dev k + sizeofInfoItem +
      valueLen item ptr0 ptr1 ptr2 (readHead dev (itemAddr dev k)).len ≤ endOfPartition

/-- The search returns, all reads keep to the partition, and those of the item that is reported
keep to the partition behind the head of the table. -/
structure Robust (dev : FlashDev) (item : NetInfoItem) (ptr0 ptr1 ptr2 : Bool) : Prop where
  terminates : (searchInfoItem dev item startAddr).isSome = true
  inside : ∀ r ∈ getReads dev item ptr0 ptr1 ptr2, r.From startAddr
  reported : HasTable dev →
    ∀ r ∈ itemReads dev item ptr0 ptr1 ptr2, r.From (startAddr + sizeofInfoItem)

theorem searchInfoTbl_of_hasTable (h : HasTable dev) :
    searchInfoTbl dev = some (u32 ((readHead dev startAddr).len + sizeofInfoItem)) := if_pos h

theorem searchInfoTbl_of_not (h : ¬ HasTable dev) : searchInfoTbl dev = none := if_neg h

/-- The reads of a value keep to the partition when the value does. -/
theorem valueReads_from {lo len a : Nat} (hlo : lo ≤ a) (hend : a ≤ endOfPartition) :
    (∀ r ∈ valueReads item ptr0 ptr1 ptr2 len a, r.From lo) ↔
      a + valueLen item ptr0 ptr1 ptr2 len ≤ endOfPartition := by
  have he : endOfPartition = 0x1D2000 := rfl
  have h16 : u32 (a + 16) = a + 16 := u32_of_lt (by omega)
  have h32 : u32 (a + 32) = a + 32 := u32_of_lt (by omega)
  have h1616 : u32 (a + 16 + 16) = a + 32 := u32_of_lt (by omega)
  cases item
  case chargeConfigItem => simpa [valueReads, valueLen] using hend
  case ssidKeyItem =>
    simp only [valueReads, valueLen, h32]
    split
    next => simp only [List.forall_mem_cons, Read.From]; grind
    next => simpa using hend
  case ipConfigItem =>
    simp only [valueReads, valueLen, h16, h1616]
    split
    next => simp only [List.forall_mem_cons, Read.From]; grind
    next => simpa using hend
  all_goals
    simp only [valueReads, valueLen]
    split
    next => simp only [List.forall_mem_singleton, Read.From]; omega
    next => simpa using hend

/-- The reads of the item that the walk ends with. -/
theorem WalkEnds.itemReads (h : WalkEnds dev item k) (hlt : itemAddr dev k < endAddr dev)
    (hlo : startAddr ≤ itemAddr dev k) (hend : itemAddr dev k + sizeofInfoItem ≤ endOfPartition) :
    itemReads dev item ptr0 ptr1 ptr2 = ⟨itemAddr dev k, sizeofInfoItem⟩ ::
      valueReads item ptr0 ptr1 ptr2 (readHead dev (itemAddr dev k)).len
        (itemAddr dev k + sizeofInfoItem) := by
  have he : endOfPartition = 0x1D2000 := rfl
  have hs : startAddr = 0x1D1000 := rfl
  have hnext : u32 (itemAddr dev k + sizeofInfoItem) = itemAddr dev k + sizeofInfoItem :=
    u32_of_lt (by omega)
  rw [NetParam.itemReads, h.searchInfoItem, if_neg (Nat.not_le_of_lt hlt)]
  simp only [hnext]
  exact if_neg (by omega)

theorem WalkEnds.itemReads_of_end (h : WalkEnds dev item k) (hle : endAddr dev ≤ itemAddr dev k) :
    NetParam.itemReads dev item ptr0 ptr1 ptr2 = [] := by
  rw [NetParam.itemReads, h.searchInfoItem, if_pos hle]
  exact if_pos rfl

theorem SoundAt.robust (h : SoundAt dev item ptr0 ptr1 ptr2 k) :
    Robust dev item ptr0 ptr1 ptr2 := by
  have hs : startAddr = 0x1D1000 := rfl
  have he : endOfPartition = 0x1D2000 := rfl
  have h8 : sizeofInfoItem = 8 := rfl
  have hreported : HasTable dev →
      ∀ r ∈ itemReads dev item ptr0 ptr1 ptr2, r.From (startAddr + sizeofInfoItem) := by
    intro htbl
    by_cases hlt : itemAddr dev k < endAddr dev
    · obtain ⟨hlo, hend⟩ := h.found htbl hlt
      rw [h.ends.itemReads hlt (by omega) (by omega), List.forall_mem_cons]
      exact ⟨⟨hlo, by simp only; omega⟩,
        (valueReads_from (by omega) (by omega)).mpr hend⟩
    · rw [h.ends.itemReads_of_end (Nat.le_of_not_lt hlt)]
      intro r hr
      cases hr
  refine ⟨searchInfoItem_isSome_iff.mpr ⟨k, h.ends⟩, ?_, hreported⟩
  have hhead : (Read.mk startAddr sizeofInfoItem).From startAddr := by
    constructor <;> decide
  rw [getReads, List.forall_mem_cons]
  refine ⟨hhead, ?_⟩
  by_cases htbl : HasTable dev
  swap
  · rw [searchInfoTbl_of_not htbl]
    intro r hr
    cases hr
  rw [searchInfoTbl_of_hasTable htbl]
  intro r hr
  rcases List.mem_append.mp hr with hr | hr
  · rw [h.ends.searchReads, List.mem_cons] at hr
    rcases hr with rfl | hr
    · exact hhead
    obtain ⟨addr, haddr, rfl⟩ := List.mem_map.mp hr
    rcases List.mem_append.mp haddr with haddr | haddr
    · obtain ⟨j, hj, rfl⟩ := List.mem_map.mp haddr
      exact h.heads htbl j (List.mem_range.mp hj)
    · split at haddr
      next hlt =>
        obtain ⟨hlo, hend⟩ := h.found htbl hlt
        rw [List.mem_singleton.mp haddr]
        exact ⟨by simp only; omega, by simp only; omega⟩
      next => cases haddr
  · obtain ⟨hlo, hend⟩ := hreported htbl r hr
    exact ⟨by omega, hend⟩

theorem Robust.soundAt (h : Robust dev item ptr0 ptr1 ptr2) :
    ∃ k, SoundAt dev item ptr0 ptr1 ptr2 k := by
  have hs : startAddr = 0x1D1000 := rfl
  have he : endOfPartition = 0x1D2000 := rfl
  obtain ⟨k, hends⟩ := searchInfoItem_isSome_iff.mp h.terminates
  have hreads : HasTable dev → ∀ r ∈ searchReads dev item, r.From startAddr := by
    intro htbl r hr
    refine h.inside r (List.mem_cons_of_mem _ ?_)
    rw [searchInfoTbl_of_hasTable htbl]
    exact List.mem_append_left _ hr
  refine ⟨k, hends, ?_, ?_⟩
  · intro htbl j hj
    refine hreads htbl ⟨itemAddr dev j, sizeofInfoItem⟩ ?_
    rw [hends.searchReads]
    refine List.mem_cons_of_mem _ (List.mem_map_of_mem (List.mem_append_left _ ?_))
    exact List.mem_map_of_mem (List.mem_range.mpr hj)
  · intro htbl hlt
    obtain ⟨hlo, hend⟩ : (Read.mk (itemAddr dev k) sizeofInfoItem).From startAddr := by
      refine hreads htbl _ ?_
      rw [hends.searchReads, if_pos hlt]
      exact List.mem_cons_of_mem _ (List.mem_map_of_mem
        (List.mem_append_right _ (List.mem_singleton.mpr rfl)))
    have hitem := h.reported htbl
    rw [hends.itemReads hlt hlo hend, List.forall_mem_cons] at hitem
    refine ⟨hitem.1.1, ?_⟩
    exact (valueReads_from (Nat.add_le_add_right hlo _) hend).mp hitem.2

/-- `get_info_item` is robust on just the contents that keep its walk to the partition. -/
theorem robust_iff (dev : FlashDev) (item : NetInfoItem) (ptr0 ptr1 ptr2 : Bool) :
    Robust dev item ptr0 ptr1 ptr2 ↔ ∃ k, SoundAt dev item ptr0 ptr1 ptr2 k :=
  ⟨Robust.soundAt, fun ⟨_, h⟩ => h.robust⟩

/-! ## Tables that were saved -/

theorem Stored.endAddr_eq {t : Table} (h : Stored dev t) (ht : t ≠ []) :
    endAddr dev = startAddr + sizeofInfoItem + (NetParam.body t).length := by
  have hlen := h.ok.length_body
  have h8 : sizeofInfoItem = 8 := rfl
  have hs : startAddr = 0x1D1000 := rfl
  have hstart : u32 (startAddr + sizeofInfoItem) = startAddr + sizeofInfoItem := rfl
  rw [endAddr, h.head ht, hstart]
  change u32 (startAddr + sizeofInfoItem + (NetParam.body t).length) = _
  exact u32_of_lt (by omega)

/-- The walk over a table. -/
theorem Stored.itemAddr_eq {pre post : Table} (h : Stored dev (pre ++ post))
    (hne : pre ++ post ≠ []) :
    itemAddr dev pre.length = startAddr + sizeofInfoItem + (NetParam.body pre).length := by
  induction pre using List.reverseRecOn generalizing post with
  | nil => rfl
  | append_singleton pre e ih =>
    have hlen := h.ok.length_body
    have hbody := h.body hne
    have h8 : sizeofInfoItem = 8 := rfl
    have hs : startAddr = 0x1D1000 := rfl
    rw [List.append_assoc, List.singleton_append] at h hne hlen hbody
    rw [body_append, body_cons] at hbody
    rw [body_append, body_cons, List.length_append, List.length_append,
      length_entryBytes] at hlen
    obtain ⟨-, hrest⟩ := bytesAt_append.mp hbody
    obtain ⟨hentry, -⟩ := bytesAt_append.mp hrest
    have hhead : readHead dev (startAddr + sizeofInfoItem + (NetParam.body pre).length) =
        ⟨e.1.code, e.2.length⟩ := readHead_entry (by omega) (by omega) hentry
    have hone : (NetParam.body [e]).length = e.2.length + sizeofInfoItem := by
      rw [body_cons, List.length_append, length_entryBytes]
      rfl
    have hnext : nextAddr dev (startAddr + sizeofInfoItem + (NetParam.body pre).length) =
        startAddr + sizeofInfoItem + (NetParam.body pre).length + sizeofInfoItem +
          e.2.length := by
      have hhere : u32 (startAddr + sizeofInfoItem + (NetParam.body pre).length +
          sizeofInfoItem) = startAddr + sizeofInfoItem + (NetParam.body pre).length +
            sizeofInfoItem := u32_of_lt (by omega)
      rw [nextAddr, hhead, hhere]
      change u32 (_ + e.2.length) = _
      exact u32_of_lt (by omega)
    rw [List.length_append, List.length_singleton, itemAddr,
      Function.iterate_succ_apply', ← itemAddr, ih h hne, hnext, body_append,
      List.length_append, hone]
    omega

/-- The head of an entry of the table. -/
theorem Stored.head_entry {pre post : Table} {e : NetInfoItem × List Byte}
    (h : Stored dev (pre ++ e :: post)) :
    readHead dev (itemAddr dev pre.length) = ⟨e.1.code, e.2.length⟩ ∧
      itemAddr dev pre.length + sizeofInfoItem + e.2.length ≤ endAddr dev ∧
      endAddr dev ≤ endOfPartition := by
  have hne : pre ++ e :: post ≠ [] := by simp
  have hlen := h.ok.length_body
  have hbody := h.body hne
  have h8 : sizeofInfoItem = 8 := rfl
  have hs : startAddr = 0x1D1000 := rfl
  have he : endOfPartition = 0x1D2000 := rfl
  rw [h.endAddr_eq hne, h.itemAddr_eq hne]
  rw [body_append, body_cons] at hbody
  obtain ⟨-, hrest⟩ := bytesAt_append.mp hbody
  obtain ⟨hentry, -⟩ := bytesAt_append.mp hrest
  rw [body_append, body_cons, List.length_append, List.length_append,
    length_entryBytes] at hlen ⊢
  exact ⟨readHead_entry (by omega) (by omega) hentry, by omega, by omega⟩

/-- `get_info_item` reads no more than the value of an entry. -/
theorem valueLen_le (ptr0 ptr1 ptr2 : Bool) {len : Nat}
    (h : len + sizeofInfoItem = infoItemLen item) : valueLen item ptr0 ptr1 ptr2 len ≤ len := by
  have h8 : sizeofInfoItem = 8 := rfl
  have h104 : sizeofItemSsidkey = 104 := rfl
  have h56 : sizeofItemIpConfig = 56 := rfl
  cases item
  case chargeConfigItem => exact Nat.zero_le _
  all_goals
    simp only [infoItemLen] at h
    simp only [valueLen]
    split <;> omega

/-- A table that was saved keeps the walk to the partition. -/
theorem Stored.soundAt {t : Table} (h : Stored dev t) (ht : t ≠ []) (item : NetInfoItem)
    (ptr0 ptr1 ptr2 : Bool) : ∃ k, SoundAt dev item ptr0 ptr1 ptr2 k := by
  have h8 : sizeofInfoItem = 8 := rfl
  have hs : startAddr = 0x1D1000 := rfl
  have hlow : ∀ pre post, t = pre ++ post → startAddr + sizeofInfoItem ≤
      itemAddr dev pre.length := by
    rintro pre post rfl
    rw [h.itemAddr_eq ht]
    omega
  -- the walk goes on at an entry of another type
  have hskip : ∀ pre e post, t = pre ++ e :: post → item ≠ e.1 →
      ¬ stops dev item (itemAddr dev pre.length) = true := by
    rintro pre e post rfl hne hstop
    obtain ⟨hhead, hin, -⟩ := h.head_entry
    rcases of_decide_eq_true hstop with hle | htype
    · omega
    · rw [hhead] at htype
      exact hne (NetInfoItem.code_inj.mp htype)
  have hbefore : ∀ pre post, t = pre ++ post → item ∉ Assoc.keys pre → ∀ j < pre.length,
      ¬ stops dev item (itemAddr dev j) = true ∧
      startAddr ≤ itemAddr dev j ∧
      itemAddr dev j + sizeofInfoItem ≤ endOfPartition := by
    rintro pre post rfl hkeys j hj
    have hsplit : pre ++ post = pre.take j ++ pre[j] :: (pre.drop (j + 1) ++ post) := by
      rw [← List.cons_append, ← List.append_assoc, List.getElem_cons_drop,
        List.take_append_drop]
    have hlen : (pre.take j).length = j := List.length_take_of_le (Nat.le_of_lt hj)
    have hne : item ≠ pre[j].1 := by
      rintro rfl
      exact hkeys (List.mem_map_of_mem (List.getElem_mem hj))
    have hstop := hskip _ _ _ hsplit hne
    have hlo := hlow _ _ hsplit
    have hst : Stored dev (pre.take j ++ pre[j] :: (pre.drop (j + 1) ++ post)) := hsplit ▸ h
    obtain ⟨-, hin, hpart⟩ := hst.head_entry
    rw [hlen] at hstop hlo hin
    exact ⟨hstop, by omega, by omega⟩
  cases hg : Assoc.get t item with
  | none =>
    have hb := hbefore t [] (by simp) (Assoc.get_eq_none.mp hg)
    have hnil : t ++ [] = t := List.append_nil t
    have hend : endAddr dev = itemAddr dev t.length := by
      have hst : Stored dev (t ++ []) := hnil.symm ▸ h
      rw [hst.itemAddr_eq (hnil.symm ▸ ht), h.endAddr_eq ht]
    refine ⟨t.length, ⟨decide_eq_true (.inl (Nat.le_of_eq hend)), fun j hj => (hb j hj).1⟩,
      fun _ j hj => (hb j hj).2, fun _ hlt => absurd hlt (by omega)⟩
  | some v =>
    obtain ⟨pre, post, rfl, hkeys⟩ := Assoc.split_of_get hg
    have hb := hbefore pre _ rfl hkeys
    obtain ⟨hhead, hin, hpart⟩ := h.head_entry
    have hvlen : v.length + sizeofInfoItem = infoItemLen item :=
      h.ok.entry_length (e := (item, v)) (by simp)
    have hval := valueLen_le ptr0 ptr1 ptr2 hvlen
    refine ⟨pre.length, ⟨?_, fun j hj => (hb j hj).1⟩, fun _ j hj => (hb j hj).2, ?_⟩
    · refine decide_eq_true (.inr ?_)
      change item.code = (readHead dev (itemAddr dev pre.length)).type
      rw [hhead]
    · intro _ _
      rw [hhead]
      refine ⟨hlow _ _ rfl, ?_⟩
      simp only at hin ⊢
      omega

/-- A sector with a table of one item, whose head has the length `0xfffffff8`. -/
def standingSector : FlashDev where
  size := 0x200000
  size_lt := twoMegabytes_lt
  cells := writeBytes (fun _ => 0xff) startAddr (wordBytes infoTlvHeader ++ wordBytes 12 ++
    wordBytes NetInfoItem.autoConnectItem.code ++ wordBytes 0xfffffff8)

/-- The search for another item stays at that head forever. -/
theorem not_robust_standing : ¬ ∀ (dev : FlashDev) (item : NetInfoItem) (ptr0 ptr1 ptr2 : Bool),
    Robust dev item ptr0 ptr1 ptr2 := by
  intro h
  obtain ⟨k, hends⟩ := searchInfoItem_isSome_iff.mp
    (h standingSector .wifiModeItem true true true).terminates
  have hfix : nextAddr standingSector (startAddr + sizeofInfoItem) =
      startAddr + sizeofInfoItem := by decide +kernel
  have hhit := hends.hit
  rw [Function.iterate_fixed hfix] at hhit
  have hgo : stops standingSector .wifiModeItem (startAddr + sizeofInfoItem) = false := by
    decide +kernel
  rw [hgo] at hhit
  cases hhit

end TuyaSdk.NetParam
