import TuyaSdk.Lib.Search
import TuyaSdk.ManualCal.Groups

/-!
# Loading the calibration

The loads look elements up in the partition and read their values into tables, words and an
address. The length of an element is taken from the flash: it is how far the search goes on, and
how many bytes a load stores. A search ends just when the elements do not lead back to one that it
has passed, and a load stays inside of what it stores to just when the lengths of the elements that
it finds do.
-/

namespace TuyaSdk.ManualCal
open TuyaSdk.Lib TuyaSdk.Flash

variable {dev : FlashDev} {type start addr : Nat}

/-! ## The loads -/

/-- What a load stores to. -/
inductive Dest where
  | head
  | status
  | tabB
  | tabG
  | tabN40
  | tabBle
  | difGN20
  | difGN40
  | mac
  /-- `tag_addr`, with `tag_size` as an unsigned word -/
  | tag (size : Nat)
  deriving DecidableEq

/-- The bytes it has. -/
def Dest.size : Dest → Nat
  | head => sizeofTagTxpwr
  | status => 4
  | tabB => 14
  | tabG => 14
  | tabN40 => 14
  | tabBle => 40
  | difGN20 => 4
  | difGN40 => 4
  | mac => 6
  | tag size => size

/-- What a call stores, and its result when it comes to its end. -/
structure Load (α : Type) where
  stores : List (Dest × List Byte)
  result : Option α

/-- One part of a call behind another. -/
def Load.andThen {α β : Type} (l : Load α) (f : α → Load β) : Load β :=
  match l.result with
  | none => ⟨l.stores, none⟩
  | some a => ⟨l.stores ++ (f a).stores, (f a).result⟩

instance : Monad Load where
  pure a := ⟨[], some a⟩
  bind := Load.andThen

/-- A search stores nothing here: it has a head of its own. -/
def search (dev : FlashDev) (type start : Nat) : Load Nat :=
  ⟨[], manualCalSearchTxpwrTab dev type start⟩

/-- `ddev_read` -/
def readTo (dev : FlashDev) (dest : Dest) (count addr : Nat) : Load (List Byte) :=
  let bytes := flashRead dev count addr
  ⟨[(dest, bytes)], some bytes⟩

/-- The value of the element at `addr` is read, as many bytes as its head says. -/
def loadElem (dev : FlashDev) (dest : Dest) (addr : Nat) : Load (List Byte) := do
  let _ ← readTo dev .head sizeofTagTxpwr addr
  readTo dev dest (readElem dev addr).2 (u32 (addr + sizeofTagTxpwr))

/-- An element of the group at `group` is read if it is there. -/
def loadTab (dev : FlashDev) (type group : Nat) (dest : Dest) : Load Unit := do
  let addr ← search dev type group
  if addr = 0 then pure ()
  else do
    let _ ← loadElem dev dest addr
    pure ()

/-- What the code around the loads decides: the calibration mode, what `ddev_open` leaves in
`status`, and the bits of an enumeration. -/
structure Setting where
  auto : Bool
  opened : Nat
  enumBits : Nat

/-- `is_ready_flash`, when `bytes` have been read to `status`. -/
def Setting.isReady (s : Setting) (bytes : List Byte) : Nat :=
  read32 (storeBytes (write32 (fun _ => 0) 0 s.opened) bytes) 0 % 2 ^ s.enumBits

/-- A part of a load for a bit of `is_ready_flash`. -/
def whenReady (isReady bit : Nat) (l : Load Unit) : Load Unit :=
  if isReady &&& bit ≠ 0 then l else pure ()

/-- `manual_cal_load_txpwr_tab_flash` -/
def manualCalLoadTxpwrTabFlash (s : Setting) (dev : FlashDev) : Load Nat := do
  if s.auto then return TXPWR_NONE_RD
  let addrStart ← search dev TXPWR_TAB_TAB startAddr
  if addrStart = 0 then return TXPWR_NONE_RD
  let addr ← search dev TXPWR_ENABLE_ID addrStart
  if addr = 0 then return TXPWR_NONE_RD
  let status ← loadElem dev .status addr
  let isReady := s.isReady status
  if isReady = TXPWR_NONE_RD then return TXPWR_NONE_RD
  whenReady isReady 0x1 (loadTab dev TXPWR_TAB_B_ID addrStart .tabB)
  whenReady isReady 0x2 do
    loadTab dev TXPWR_TAB_G_ID addrStart .tabG
    loadTab dev TXPWR_TAB_DIF_GN20_ID addrStart .difGN20
  whenReady isReady 0x4 (loadTab dev TXPWR_TAB_N_ID addrStart .tabN40)
  loadTab dev TXPWR_TAB_DIF_GN40_ID addrStart .difGN40
  whenReady isReady 0x8 (loadTab dev TXPWR_TAB_BLE_ID addrStart .tabBle)
  return isReady

/-- The two functions that get an element of a group: 1 when it is there. -/
def getElem (dev : FlashDev) (group type : Nat) (dest : Dest) : Load Nat := do
  match manualCalSearchOptTab dev with
  | none => return 0
  | some _ =>
    let addrStart ← search dev group startAddr
    if addrStart = 0 then return 0
    let addr ← search dev type addrStart
    if addr = 0 then return 0
    let _ ← loadElem dev dest addr
    return 1

/-- `manual_cal_get_macaddr_from_flash` -/
def manualCalGetMacaddrLoad (dev : FlashDev) : Load Nat := getElem dev TXID TXID_MAC .mac

/-- `manual_cal_get_rfcali_status_inflash` -/
def manualCalGetRfcaliStatusInflash (dev : FlashDev) : Load Nat :=
  getElem dev TXPWR_TAB_TAB TXPWR_TAB_CALI_STATUTS .status

/-- What is stored through `mac_ptr`. -/
theorem macaddrLoad_mac (dev : FlashDev) : manualCalGetMacaddrFromFlash dev =
    (manualCalGetMacaddrLoad dev).result.map fun _ =>
      ((manualCalGetMacaddrLoad dev).stores.find? fun s => s.1 = .mac).map Prod.snd := by
  rw [manualCalGetMacaddrFromFlash, manualCalGetMacaddrLoad, getElem]
  cases manualCalSearchOptTab dev with
  | none => rfl
  | some len =>
    cases hgroup : manualCalSearchTxpwrTab dev TXID startAddr with
    | none => simp only [bind, Load.andThen, search, hgroup, Option.bind_none, Option.map_none]
    | some group =>
      by_cases hzero : group = 0
      · simp only [bind, Load.andThen, search, hgroup, hzero, if_true, Option.bind_some]
        rfl
      cases helem : manualCalSearchTxpwrTab dev TXID_MAC group with
      | none =>
        simp only [bind, Load.andThen, search, hgroup, hzero, helem, if_false, Option.bind_some,
          Option.map_none]
      | some addr =>
        by_cases hnone : addr = 0
        · simp only [bind, Load.andThen, search, hgroup, hzero, helem, hnone, if_true, if_false,
            Option.bind_some]
          rfl
        · simp only [bind, Load.andThen, search, hgroup, hzero, helem, if_false, Option.bind_some,
            Option.map_some, if_neg hnone]
          rfl

/-- The group of a tag: `CM_TX_END` and `CM_RX_END` end their types. -/
def calimainGroup (tag : Nat) : Option Nat :=
  if cmTxType 0 ≤ tag ∧ tag < cmTxType 11 then some CALI_MAIN_TX
  else if CM_RX_DC_GAIN_TAB ≤ tag ∧ tag < CM_RX_PHASE_ERR_WR + 1 then some CALI_MAIN_RX
  else none

/-- `manual_cal_load_calimain_tag_from_flash`; `tagAddr` says that there is a place to store to. -/
def manualCalLoadCalimainTagFromFlash (dev : FlashDev) (tag : Nat) (tagAddr : Bool)
    (tagSize : Nat) : Load Int := do
  match manualCalSearchOptTab dev with
  | none => return -1
  | some _ =>
    match calimainGroup tag with
    | none => return 0
    | some group =>
      let addrStart ← search dev group startAddr
      if addrStart = 0 then return -2
      let addr ← search dev tag addrStart
      if addr = 0 then return -3
      let _ ← readTo dev .head sizeofTagTxpwr addr
      if tagAddr = true ∧ (readElem dev addr).2 ≤ tagSize then
        let _ ← readTo dev (.tag tagSize) (readElem dev addr).2 (u32 (addr + sizeofTagTxpwr))
        return 1
      return 1

/-! ## The search -/

/-- The search with `n` passes at most. -/
def searchWithin (dev : FlashDev) (type start n : Nat) : Option Nat :=
  match manualCalSearchOptTab dev with
  | none => some 0
  | some _ =>
    let head := readElem dev start
    let addr := u32 (start + sizeofTagTxpwr)
    let endAddr := u32 (addr + head.2)
    (Loop.run (Tlv.searchPass (readElem dev) type endAddr) n addr).map fun addr =>
      if addr ≥ endAddr then 0 else addr

/-- Behind the element at `addr`. -/
def nextElem (dev : FlashDev) (addr : Nat) : Nat :=
  u32 (u32 (addr + sizeofTagTxpwr) + (readElem dev addr).2)

/-- The search stops at `addr`. -/
def elemStops (dev : FlashDev) (type endAddr addr : Nat) : Prop :=
  endAddr ≤ addr ∨ type = (readElem dev addr).1

instance (dev : FlashDev) (type endAddr : Nat) : DecidablePred (elemStops dev type endAddr) :=
  fun _ => inferInstanceAs (Decidable (_ ∨ _))

/-- There is a header, and the elements of the group at `start` lead back to one of them before the
end and before one of the type. -/
def GoesRound (dev : FlashDev) (type start : Nat) : Prop :=
  manualCalSearchOptTab dev ≠ none ∧
    Walk.Returns (nextElem dev) (elemStops dev type (nextElem dev start))
      (u32 (start + sizeofTagTxpwr))

/-- There is a header, and the first element of the type in the group at `start` is at `addr`. -/
def Found (dev : FlashDev) (type start addr : Nat) : Prop :=
  (manualCalSearchOptTab dev ≠ none ∧ addr < nextElem dev start ∧ addr ≠ 0) ∧
    ∃ n, Walk.EndsAt (nextElem dev) (elemStops dev type (nextElem dev start))
      (u32 (start + sizeofTagTxpwr)) addr n

theorem searchPass_eq (dev : FlashDev) (type endAddr : Nat) :
    Tlv.searchPass (readElem dev) type endAddr =
      Walk.pass (nextElem dev) (elemStops dev type endAddr) := by
  funext addr
  by_cases hlt : addr < endAddr
  · by_cases htype : type = (readElem dev addr).1
    · rw [Tlv.searchPass, if_pos hlt, if_pos htype, Walk.pass, if_pos (.inr htype)]
    · have hgo : ¬elemStops dev type endAddr addr := not_or.mpr ⟨Nat.not_le.mpr hlt, htype⟩
      rw [Tlv.searchPass, if_pos hlt, if_neg htype, Walk.pass, if_neg hgo]
      rfl
  · rw [Tlv.searchPass, if_neg hlt, Walk.pass, if_pos (.inl (Nat.not_lt.mp hlt))]

/-- The addresses. -/
theorem nextElem_mem (dev : FlashDev) (start k : Nat) :
    (nextElem dev)^[k] (u32 (start + sizeofTagTxpwr)) ∈ Finset.range (2 ^ 32) := by
  rw [Finset.mem_range]
  cases k with
  | zero => exact u32_lt _
  | succ k =>
    rw [Function.iterate_succ_apply']
    exact u32_lt _

theorem run_search {r : Nat} :
    Loop.run (Tlv.searchPass (readElem dev) type (nextElem dev start)) (2 ^ 32)
        (u32 (start + sizeofTagTxpwr)) = some r ↔
      ∃ n, Walk.EndsAt (nextElem dev) (elemStops dev type (nextElem dev start))
        (u32 (start + sizeofTagTxpwr)) r n := by
  have hrun : Loop.run (Walk.pass (nextElem dev) (elemStops dev type (nextElem dev start)))
      (Finset.range (2 ^ 32)).card (u32 (start + sizeofTagTxpwr)) = some r ↔ _ :=
    Walk.run_pass_card (nextElem_mem dev start)
  rwa [Finset.card_range, ← searchPass_eq] at hrun

/-- The search ends just when the elements do not lead back. -/
theorem search_ends : (∃ n r, searchWithin dev type start n = some r) ↔
    ¬GoesRound dev type start := by
  rw [GoesRound, not_and, ← Walk.ends_iff (nextElem_mem dev start)]
  unfold searchWithin
  cases hopt : manualCalSearchOptTab dev with
  | none => exact iff_of_true ⟨0, 0, rfl⟩ fun h => absurd rfl h
  | some len =>
    simp only [ne_eq, reduceCtorEq, not_false_eq_true, forall_const, Option.map_eq_some_iff,
      searchPass_eq, Walk.run_pass_iff]
    constructor
    · rintro ⟨n, r, b, ⟨k, -, hk⟩, -⟩
      exact ⟨b, k, hk⟩
    · rintro ⟨b, k, hk⟩
      exact ⟨k + 1, _, b, ⟨k, Nat.lt_succ_self k, hk⟩, rfl⟩

theorem search_some {len : Nat} (hopt : manualCalSearchOptTab dev = some len) :
    manualCalSearchTxpwrTab dev type start =
      (Loop.run (Tlv.searchPass (readElem dev) type (nextElem dev start)) (2 ^ 32)
        (u32 (start + sizeofTagTxpwr))).map fun addr =>
          if addr ≥ nextElem dev start then 0 else addr := by
  rw [manualCalSearchTxpwrTab, hopt]
  rfl

@[simp] theorem search_result :
    (search dev type start).result = manualCalSearchTxpwrTab dev type start := by rw [search]

/-- The search does not end. -/
theorem search_eq_none : manualCalSearchTxpwrTab dev type start = none ↔
    GoesRound dev type start := by
  rw [GoesRound]
  cases hopt : manualCalSearchOptTab dev with
  | none =>
    rw [manualCalSearchTxpwrTab, hopt]
    exact iff_of_false (Option.some_ne_none _) fun h => h.1 rfl
  | some len =>
    rw [search_some hopt, Option.map_eq_none_iff, and_iff_right (Option.some_ne_none _)]
    rw [← not_iff_not, ← Walk.ends_iff (nextElem_mem dev start), ← ne_eq,
      Option.ne_none_iff_exists']
    exact exists_congr fun r => run_search

/-- The search finds an element. -/
theorem search_eq_some (haddr : addr ≠ 0) :
    manualCalSearchTxpwrTab dev type start = some addr ↔ Found dev type start addr := by
  rw [Found]
  cases hopt : manualCalSearchOptTab dev with
  | none =>
    rw [manualCalSearchTxpwrTab, hopt]
    exact iff_of_false (fun h => haddr (Option.some.inj h).symm) fun h => h.1.1 rfl
  | some len =>
    rw [search_some hopt, Option.map_eq_some_iff]
    constructor
    · rintro ⟨r, hrun, hr⟩
      split_ifs at hr with hend
      · exact absurd hr.symm haddr
      · obtain rfl := hr
        exact ⟨⟨Option.some_ne_none _, Nat.lt_of_not_le hend, haddr⟩, run_search.mp hrun⟩
    · rintro ⟨⟨-, hlt, -⟩, hat⟩
      exact ⟨addr, run_search.mpr hat, if_neg (Nat.not_le.mpr hlt)⟩

/-! ## What a call stores -/

/-- The call comes to its end, and nothing that it stores to is too small. -/
def Inside {α : Type} (l : Load α) : Prop :=
  l.result ≠ none ∧ ∀ s ∈ l.stores, s.2.length ≤ s.1.size

section

variable {α β : Type}

theorem inside_pure (a : α) : Inside (pure a : Load α) :=
  ⟨Option.some_ne_none a, fun _ hs => absurd hs List.not_mem_nil⟩

theorem inside_bind {l : Load α} {f : α → Load β} :
    Inside (l >>= f) ↔ Inside l ∧ ∀ a, l.result = some a → Inside (f a) := by
  change Inside (l.andThen f) ↔ _
  unfold Load.andThen Inside
  cases l.result with
  | none => simp only [ne_eq, not_true_eq_false, false_and]
  | some a =>
    simp only [ne_eq, reduceCtorEq, not_false_eq_true, true_and, Option.some.injEq, forall_eq',
      List.forall_mem_append]
    exact and_left_comm

theorem inside_of_nil {l : Load α} (h : l.stores = []) : Inside l ↔ l.result ≠ none := by
  rw [Inside, h]
  exact and_iff_left fun _ hs => absurd hs List.not_mem_nil

/-- What is behind a search that finds an element. -/
theorem inside_search {x : α} {f : Nat → Load α} :
    Inside (search dev type start >>= fun addr => if addr = 0 then pure x else f addr) ↔
      ¬GoesRound dev type start ∧ ∀ addr, Found dev type start addr → Inside (f addr) := by
  have hnone : Inside (search dev type start) ↔ ¬GoesRound dev type start := by
    rw [inside_of_nil (by rw [search]), search_result, ne_eq, search_eq_none]
  rw [inside_bind, hnone, search_result]
  refine and_congr_right fun _ => forall_congr' fun addr => ?_
  by_cases haddr : addr = 0
  · rw [if_pos haddr]
    exact iff_of_true (fun _ => inside_pure x) fun h => absurd haddr h.1.2.2
  · rw [if_neg haddr, search_eq_some haddr]

end

/-- A line hands out what it takes off the length. -/
theorem length_copyOut {pb : Nat → Byte} {k address len : Nat} {out : List Byte} (h : len ≠ 0)
    (hlt : len < 2 ^ 32) : (copyOut pb k out address len).1.length +
      (copyOut pb k out address len).2.2 = out.length + len := by
  induction k generalizing out address len with
  | zero => rfl
  | succ k ih =>
    have hsub : sub32 len 1 = len - 1 := sub32_of_le (Nat.one_le_iff_ne_zero.mpr h) hlt
    simp only [copyOut, hsub]
    split_ifs with hdone
    · change (out ++ [_]).length + (len - 1) = _
      rw [List.length_append, List.length_singleton]
      omega
    · rw [ih hdone (by omega), List.length_append, List.length_singleton]
      omega

/-- As many bytes are stored as were asked for. -/
theorem length_flashRead {count : Nat} (h : count < 2 ^ 32) :
    (flashRead dev count addr).length = count := by
  obtain ⟨out, hout⟩ := Option.isSome_iff_exists.mp (flashReadData_isSome dev addr count)
  have hlen : out.length = count := by
    refine Loop.run_post (I := fun v => v.1.length + v.2.2.1 = count)
      (Q := fun r => r.length = count) ?_ ?_ (Nat.zero_add count) hout
    · rintro ⟨out, address, len, line⟩ r hv hexit
      simp only [readPass] at hexit
      split_ifs at hexit with hzero
      cases hexit
      simp only [hzero, Nat.add_zero] at hv
      exact hv
    · rintro ⟨out, address, len, line⟩ v' hv hagain
      simp only [readPass] at hagain
      split_ifs at hagain with hzero
      cases hagain
      simp only at hv ⊢
      exact (length_copyOut hzero (by omega)).trans hv
  have hget : some (flashRead dev count addr) = some out := by
    rw [flashRead, Option.some_get, hout]
  rw [Option.some.inj hget, hlen]

theorem inside_readTo {dest : Dest} {count : Nat} (h : count < 2 ^ 32) :
    Inside (readTo dev dest count addr) ↔ count ≤ dest.size := by
  unfold Inside readTo
  simp only [ne_eq, reduceCtorEq, not_false_eq_true, true_and, List.forall_mem_singleton,
    length_flashRead h]

theorem readElem_lt (dev : FlashDev) (addr : Nat) : (readElem dev addr).2 < 2 ^ 32 := read32_lt _ _

theorem inside_loadElem {dest : Dest} :
    Inside (loadElem dev dest addr) ↔ (readElem dev addr).2 ≤ dest.size := by
  rw [loadElem, inside_bind, inside_readTo (by decide)]
  simp only [inside_readTo (readElem_lt dev addr)]
  constructor
  · rintro ⟨-, h⟩
    exact h _ rfl
  · intro h
    exact ⟨Nat.le_refl _, fun _ _ => h⟩

/-! ## The loads store inside -/

/-- The search for an element ends, and what is found fits. -/
def ElemFits (dev : FlashDev) (type group : Nat) (dest : Dest) : Prop :=
  ¬GoesRound dev type group ∧ ∀ addr, Found dev type group addr → (readElem dev addr).2 ≤ dest.size

theorem inside_loadTab {group : Nat} {dest : Dest} :
    Inside (loadTab dev type group dest) ↔ ElemFits dev type group dest := by
  rw [loadTab, inside_search, ElemFits]
  refine and_congr_right fun _ => forall₂_congr fun addr _ => ?_
  rw [inside_bind, inside_loadElem]
  exact and_iff_left fun _ _ => inside_pure ()

theorem inside_whenReady {isReady bit : Nat} {l : Load Unit} :
    Inside (whenReady isReady bit l) ↔ (isReady &&& bit ≠ 0 → Inside l) := by
  unfold whenReady
  split_ifs with hbit
  · exact (imp_iff_right hbit).symm
  · exact iff_of_true (inside_pure ()) fun h => absurd h hbit

/-- A part behind another whose result is not looked at. -/
theorem inside_seq {α : Type} {l : Load Unit} {r : Load α} :
    Inside (l >>= fun _ => r) ↔ Inside l ∧ Inside r := by
  rw [inside_bind]
  refine and_congr_right fun hl => ?_
  obtain ⟨u, hu⟩ := Option.ne_none_iff_exists'.mp hl.1
  exact ⟨fun h => h u hu, fun h _ _ => h⟩

/-- The parts of the tables that the bits name fit. -/
def TablesFit (dev : FlashDev) (group isReady : Nat) : Prop :=
  (isReady &&& 0x1 ≠ 0 → ElemFits dev TXPWR_TAB_B_ID group .tabB) ∧
    (isReady &&& 0x2 ≠ 0 → ElemFits dev TXPWR_TAB_G_ID group .tabG ∧
      ElemFits dev TXPWR_TAB_DIF_GN20_ID group .difGN20) ∧
    (isReady &&& 0x4 ≠ 0 → ElemFits dev TXPWR_TAB_N_ID group .tabN40) ∧
    ElemFits dev TXPWR_TAB_DIF_GN40_ID group .difGN40 ∧
    (isReady &&& 0x8 ≠ 0 → ElemFits dev TXPWR_TAB_BLE_ID group .tabBle)

/-- What the element at `addr` makes of `is_ready_flash`. -/
def Setting.readyAt (s : Setting) (dev : FlashDev) (addr : Nat) : Nat :=
  s.isReady (flashRead dev (readElem dev addr).2 (u32 (addr + sizeofTagTxpwr)))

/-- The searches of `manual_cal_load_txpwr_tab_flash` end, and the elements that it finds fit. -/
def TxpwrFits (s : Setting) (dev : FlashDev) : Prop :=
  s.auto = false → ¬GoesRound dev TXPWR_TAB_TAB startAddr ∧
    ∀ group, Found dev TXPWR_TAB_TAB startAddr group →
      ElemFits dev TXPWR_ENABLE_ID group .status ∧
        ∀ addr, Found dev TXPWR_ENABLE_ID group addr →
          s.readyAt dev addr ≠ TXPWR_NONE_RD → TablesFit dev group (s.readyAt dev addr)

theorem inside_tables {group isReady : Nat} : Inside (do
    whenReady isReady 0x1 (loadTab dev TXPWR_TAB_B_ID group .tabB)
    whenReady isReady 0x2 do
      loadTab dev TXPWR_TAB_G_ID group .tabG
      loadTab dev TXPWR_TAB_DIF_GN20_ID group .difGN20
    whenReady isReady 0x4 (loadTab dev TXPWR_TAB_N_ID group .tabN40)
    loadTab dev TXPWR_TAB_DIF_GN40_ID group .difGN40
    whenReady isReady 0x8 (loadTab dev TXPWR_TAB_BLE_ID group .tabBle)
    return isReady) ↔ TablesFit dev group isReady := by
  simp only [inside_seq, inside_whenReady, inside_loadTab, TablesFit]
  exact and_congr_right fun _ => and_congr_right fun _ => and_congr_right fun _ =>
    and_congr_right fun _ => and_iff_left (inside_pure isReady)

theorem inside_txpwr (s : Setting) :
    Inside (manualCalLoadTxpwrTabFlash s dev) ↔ TxpwrFits s dev := by
  rw [manualCalLoadTxpwrTabFlash, TxpwrFits]
  by_cases hauto : s.auto = true
  · rw [if_pos hauto, hauto]
    exact iff_of_true (inside_pure _) fun h => absurd h Bool.noConfusion
  rw [if_neg hauto, imp_iff_right (Bool.eq_false_iff.mpr hauto), inside_search]
  refine and_congr_right fun _ => forall₂_congr fun group _ => ?_
  rw [inside_search, ElemFits, and_assoc, ← forall₂_and]
  refine and_congr_right fun _ => forall₂_congr fun addr _ => ?_
  rw [inside_bind, inside_loadElem]
  refine and_congr_right fun _ => ?_
  have hvalue : (loadElem dev .status addr).result =
      some (flashRead dev (readElem dev addr).2 (u32 (addr + sizeofTagTxpwr))) := rfl
  simp only [hvalue, Option.some.injEq, forall_eq']
  change Inside (if s.readyAt dev addr = TXPWR_NONE_RD then _ else _) ↔ _
  by_cases hnone : s.readyAt dev addr = TXPWR_NONE_RD
  · rw [if_pos hnone]
    exact iff_of_true (inside_pure _) fun h => absurd hnone h
  · rw [if_neg hnone, imp_iff_right hnone]
    exact inside_tables

/-- The search for a group ends, and an element of it fits. -/
def GroupFits (dev : FlashDev) (group type : Nat) (dest : Dest) : Prop :=
  ¬GoesRound dev group startAddr ∧
    ∀ addr, Found dev group startAddr addr → ElemFits dev type addr dest

theorem inside_getElem {group : Nat} {dest : Dest} :
    Inside (getElem dev group type dest) ↔ GroupFits dev group type dest := by
  rw [getElem, GroupFits]
  cases hopt : manualCalSearchOptTab dev with
  | none =>
    refine iff_of_true (inside_pure 0) ⟨fun h => h.1 hopt, fun addr h => absurd hopt h.1.1⟩
  | some len =>
    simp only
    rw [inside_search]
    refine and_congr_right fun _ => forall₂_congr fun group _ => ?_
    rw [inside_search, ElemFits]
    refine and_congr_right fun _ => forall₂_congr fun addr _ => ?_
    rw [inside_bind, inside_loadElem]
    exact and_iff_left fun _ _ => inside_pure 1

/-- The searches for a tag end. -/
def TagEnds (dev : FlashDev) (tag : Nat) : Prop :=
  ∀ group, calimainGroup tag = some group → ¬GoesRound dev group startAddr ∧
    ∀ addr, Found dev group startAddr addr → ¬GoesRound dev tag addr

/-- A tag is stored only where it fits. -/
theorem inside_calimain (tag : Nat) (tagAddr : Bool) (tagSize : Nat) :
    Inside (manualCalLoadCalimainTagFromFlash dev tag tagAddr tagSize) ↔ TagEnds dev tag := by
  rw [manualCalLoadCalimainTagFromFlash, TagEnds]
  cases hopt : manualCalSearchOptTab dev with
  | none =>
    refine iff_of_true (inside_pure (-1)) fun group _ =>
      ⟨fun h => h.1 hopt, fun addr h => absurd hopt h.1.1⟩
  | some len =>
    simp only
    cases hgroup : calimainGroup tag with
    | none => exact iff_of_true (inside_pure 0) fun group h => absurd h (by simp)
    | some group =>
      simp only [Option.some.injEq, forall_eq']
      rw [inside_search]
      refine and_congr_right fun _ => forall₂_congr fun group _ => ?_
      rw [inside_search]
      refine and_iff_left fun addr _ => ?_
      rw [inside_bind, inside_readTo (by decide)]
      refine ⟨Nat.le_refl _, fun _ _ => ?_⟩
      split_ifs with hfits
      · rw [inside_bind, inside_readTo (readElem_lt dev addr)]
        exact ⟨hfits.2, fun _ _ => inside_pure 1⟩
      · exact inside_pure 1

/-- Every search ends that is not led back, and the loads end and store inside just when their
searches end and what they find fits. -/
theorem loads_iff (dev : FlashDev) :
    (∀ type start, (∃ n r, searchWithin dev type start n = some r) ↔
        ¬GoesRound dev type start) ∧
      (∀ s, Inside (manualCalLoadTxpwrTabFlash s dev) ↔ TxpwrFits s dev) ∧
      (Inside (manualCalGetMacaddrLoad dev) ↔ GroupFits dev TXID TXID_MAC .mac) ∧
      (Inside (manualCalGetRfcaliStatusInflash dev) ↔
        GroupFits dev TXPWR_TAB_TAB TXPWR_TAB_CALI_STATUTS .status) ∧
      ∀ tag tagAddr tagSize, Inside (manualCalLoadCalimainTagFromFlash dev tag tagAddr tagSize) ↔
        TagEnds dev tag :=
  ⟨fun _ _ => search_ends, inside_txpwr, inside_getElem, inside_getElem, inside_calimain⟩

/-! ## Contents that are not inside -/

/-- A device with the bytes at the start of the partition. -/
def calDev (bytes : List Byte) : FlashDev where
  size := 0x200000
  size_lt := twoMegabytes_lt
  cells := fun x => bytes.getD (x - startAddr) Nor.blank

/-- An element whose length leads back to it. -/
def roundBytes : List Byte :=
  wordBytes BK_FLASH_OPT_TLV_HEADER ++ wordBytes 16 ++ (wordBytes 1 ++ wordBytes (2 ^ 32 - 8))

/-- An address of seven bytes. -/
def longMacBytes : List Byte :=
  wordBytes BK_FLASH_OPT_TLV_HEADER ++ wordBytes 23 ++ (wordBytes TXID ++ wordBytes 15) ++
    (wordBytes TXID_MAC ++ wordBytes 7) ++ [1, 2, 3, 4, 5, 6, 7]

theorem calDev_elem {bytes : List Byte} {off : Nat} {e : Nat × Nat}
    (h : startAddr + off + sizeofTagTxpwr ≤ 2 ^ 32)
    (he : (read32 (calDev bytes).cells (startAddr + off),
      read32 (calDev bytes).cells (startAddr + off + 4)) = e) :
    readElem (calDev bytes) (startAddr + off) = e := (readElem_eq _ h).trans he

theorem calDev_opt {bytes : List Byte} {len : Nat}
    (h : readElem (calDev bytes) (startAddr + 0) = (BK_FLASH_OPT_TLV_HEADER, len)) :
    manualCalSearchOptTab (calDev bytes) ≠ none := by
  have hhead : (readElem (calDev bytes) startAddr).1 = BK_FLASH_OPT_TLV_HEADER := by
    rw [← Nat.add_zero startAddr, h]
  rw [manualCalSearchOptTab, if_pos hhead.symm]
  exact Option.some_ne_none _

/-- The first element of a group is of the type. -/
theorem found_first {first len : Nat} (hopt : manualCalSearchOptTab dev ≠ none)
    (hat : u32 (start + sizeofTagTxpwr) = first) (hfirst : readElem dev first = (type, len))
    (hlt : first < nextElem dev start) (hne : first ≠ 0) : Found dev type start first :=
  ⟨⟨hopt, hlt, hne⟩, 0, hat, .inr (by rw [hfirst]), fun k hk => absurd hk (Nat.not_lt_zero k)⟩

theorem nextElem_eq {len : Nat} (h : readElem dev addr = (type, len)) :
    nextElem dev addr = u32 (u32 (addr + sizeofTagTxpwr) + len) := by
  rw [nextElem, h]

/-- The search for `TXID` goes on forever, and a load stores seven bytes where there are six. -/
theorem not_loads :
    (¬∃ n r, searchWithin (calDev roundBytes) TXID startAddr n = some r) ∧
      ¬Inside (manualCalGetMacaddrLoad (calDev longMacBytes)) := by
  constructor
  · have hhead : readElem (calDev roundBytes) (startAddr + 0) = (BK_FLASH_OPT_TLV_HEADER, 16) :=
      calDev_elem (by decide) (by decide)
    have hfirst : readElem (calDev roundBytes) (startAddr + 8) = (1, 2 ^ 32 - 8) :=
      calDev_elem (by decide) (by decide)
    have hat : u32 (startAddr + sizeofTagTxpwr) = startAddr + 8 := by decide
    have hnext : nextElem (calDev roundBytes) (startAddr + 8) = startAddr + 8 :=
      (nextElem_eq hfirst).trans (by decide)
    have hend : nextElem (calDev roundBytes) (startAddr + 0) = startAddr + 24 :=
      (nextElem_eq hhead).trans (by decide)
    rw [search_ends, not_not, GoesRound, hat]
    refine ⟨calDev_opt hhead, 0, 1, Nat.zero_lt_one, hnext.symm, fun k hk => ?_⟩
    obtain rfl := Nat.lt_one_iff.mp hk
    rintro (hstop | hstop)
    · exact absurd (hend ▸ hstop) (by decide)
    · exact absurd (hstop.trans (congrArg Prod.fst hfirst)) (by decide)
  · have hhead : readElem (calDev longMacBytes) (startAddr + 0) = (BK_FLASH_OPT_TLV_HEADER, 23) :=
      calDev_elem (by decide) (by decide)
    have hgroup : readElem (calDev longMacBytes) (startAddr + 8) = (TXID, 15) :=
      calDev_elem (by decide) (by decide)
    have hmac : readElem (calDev longMacBytes) (startAddr + 16) = (TXID_MAC, 7) :=
      calDev_elem (by decide) (by decide)
    have hopt := calDev_opt hhead
    rw [manualCalGetMacaddrLoad, inside_getElem]
    rintro ⟨-, hfits⟩
    have hat : u32 (startAddr + 0 + sizeofTagTxpwr) = startAddr + 8 := by decide
    have hat' : u32 (startAddr + 8 + sizeofTagTxpwr) = startAddr + 16 := by decide
    have hfound := found_first hopt hat hgroup (by rw [nextElem_eq hhead]; decide) (by decide)
    have hfound' := found_first hopt hat' hmac (by rw [nextElem_eq hgroup]; decide) (by decide)
    have hseven := (hfits _ hfound).2 _ hfound'
    rw [hmac] at hseven
    exact absurd hseven (by decide)

end TuyaSdk.ManualCal
