import TuyaSdk.DrvModel.Scan

/-!
# The device of a name

`ddev_open`, `sddev_control` and the two unregister functions look a name up by comparing it,
over its own length, with the names in the slots of a table in order. The comparison takes a
longer name that starts with it for the name, a slot without a device has no name to compare
with, and the unregister functions each go by the size of the other's table. `LookupOk` says
of the tables and the name that none of this matters, and is just what makes every function
act on the device of the name and no other (`lookupExact_iff`).
-/

namespace TuyaSdk.DrvModel
open Lib

/-! ## The functions -/

abbrev ddMaxSdev : Nat := 16

/-- `SDD_OPERATIONS`: whether its only callback is not `NULL`. -/
structure SddOperations where
  hasControl : Bool
  deriving DecidableEq, Repr

/-- `DRV_SDEV_S`, whose other fields nothing uses. -/
structure DrvSdev where
  name : Option Name
  state : DdState
  op : Option SddOperations
  deriving DecidableEq, Repr

/-- `drv_sdev_tbl` -/
abbrev DrvSdevTbl := Nat → DrvSdev

/-- The names in the slots of `drv_dev_tbl`. -/
def devNames (tbl : DrvDevTbl) (i : Nat) : Option Name := (tbl i).name

/-- The names in the slots of `drv_sdev_tbl`. -/
def sdevNames (tbl : DrvSdevTbl) (i : Nat) : Option Name := (tbl i).name

/-- What `sddev_control` returns, the slot whose operations it takes, and the command it calls
their callback with. -/
structure SddReply where
  ret : Nat
  dev : Nat
  called : Option Nat
  deriving DecidableEq, Repr

/-- `sddev_control`; `ret` is what the driver's callback returns, if it is called. -/
def sddevControl (tbl : DrvSdevTbl) (devName : Name) (cmd ret : Nat) : Option SddReply :=
  match scan (sdevNames tbl) ddMaxSdev devName ddMaxSdev 0 with
  | .found i =>
    match (tbl i).op with
    | some op =>
      some ⟨if op.hasControl then ret else drvFailure, i, if op.hasControl then some cmd else none⟩
    -- ASSERT(operation)
    | none => none
  | _ => none

/-- The search loop of `ddev_unregister_dev`, which runs to `DD_MAX_SDEV`. -/
def ddevUnregisterScan (tbl : DrvDevTbl) (devName : Name) : Scan :=
  scan (devNames tbl) ddMaxDev devName ddMaxSdev 0

/-- The search loop of `sddev_unregister_dev`, which runs to `DD_MAX_DEV`. -/
def sddevUnregisterScan (tbl : DrvSdevTbl) (devName : Name) : Scan :=
  scan (sdevNames tbl) ddMaxSdev devName ddMaxDev 0

/-- `sddev_unregister_dev` -/
def sddevUnregisterDev (tbl : DrvSdevTbl) (devName : Name) : Option (DrvSdevTbl × Nat) :=
  if ddMaxNameLen < devName.length then some (tbl, drvFailure)
  else
    match sddevUnregisterScan tbl devName with
    | .found i => some (Function.update tbl i ⟨none, .noDevice, none⟩, drvSuccess)
    -- ASSERT(NULLPTR == dev_ptr)
    | _ => none

/-- The search loop of `ddev_open` is the scan of a table to its end. -/
theorem findName_eq_scan (tbl : DrvDevTbl) (q : Name) {n i size : Nat} (h : i + n ≤ size) :
    findName tbl q n i =
      match scan (devNames tbl) size q n i with
      | .found k => some (some k)
      | .missing => some none
      | .outside => none := by
  induction n generalizing i with
  | zero => rfl
  | succ n ih =>
    rw [findName, scan, if_neg (by omega), devNames]
    cases (tbl i).name with
    | none => rfl
    | some name =>
      by_cases hp : strncmpEq name q q.length = true
      · simp only [if_pos hp]
      · simp only [if_neg hp]
        exact ih (by omega)

/-- `ddev_unregister_dev` by its search loop. -/
theorem ddevUnregisterDev_eq (tbl : DrvDevTbl) (q : Name) : ddevUnregisterDev tbl q =
    if ddMaxNameLen < q.length then some (tbl, ⟨drvFailure, none, []⟩)
    else
      match ddevUnregisterScan tbl q with
      | .found i =>
        some (Function.update tbl i { tbl i with name := none, op := none, state := .noDevice },
          ⟨drvSuccess, none, []⟩)
      | _ => none := by
  have hsame : ∀ i, ddevUnregisterScan tbl q = .found i ↔
      scan (devNames tbl) ddMaxDev q ddMaxDev 0 = .found i := by
    intro i
    rw [ddevUnregisterScan, scan_eq_found_iff, scan_eq_found_iff]
    constructor
    · rintro ⟨_, h⟩
      exact ⟨h.1, h⟩
    · rintro ⟨_, h⟩
      exact ⟨Nat.lt_trans h.1 (by decide), h⟩
  rw [ddevUnregisterDev, findName_eq_scan tbl q (Nat.le_of_eq (Nat.zero_add ddMaxDev))]
  split
  · rfl
  · cases hscan : scan (devNames tbl) ddMaxDev q ddMaxDev 0 with
    | found i => rw [(hsame i).mpr hscan]
    | missing =>
      cases hun : ddevUnregisterScan tbl q with
      | found i =>
        rw [(hsame i).mp hun] at hscan
        cases hscan
      | missing => rfl
      | outside => rfl
    | outside =>
      cases hun : ddevUnregisterScan tbl q with
      | found i =>
        rw [(hsame i).mp hun] at hscan
        cases hscan
      | missing => rfl
      | outside => rfl

/-! ## Acting on the device of a name -/

/-- Different devices have different names, of at most `DD_MAX_NAME_LEN` characters. -/
structure NamesOk (names : Nat → Option Name) (size : Nat) : Prop where
  distinct : ∀ i < size, ∀ j < size, ∀ name, names i = some name → names j = some name → i = j
  length_le : ∀ i < size, ∀ name, names i = some name → name.length ≤ ddMaxNameLen

/-- Devices registered in `drv_dev_tbl`. -/
structure DevsOk (tbl : DrvDevTbl) : Prop where
  names : NamesOk (devNames tbl) ddMaxDev
  state : ∀ i < ddMaxDev, (tbl i).name ≠ none → (tbl i).state = .closed ∨ (tbl i).state = .opened

/-- Devices registered in `drv_sdev_tbl`. -/
structure SdevsOk (tbl : DrvSdevTbl) : Prop where
  names : NamesOk (sdevNames tbl) ddMaxSdev
  op : ∀ i < ddMaxSdev, (tbl i).name ≠ none → (tbl i).op ≠ none

/-- `ddev_open` gives a handle of the device with the name `q`, and leaves the others alone. -/
structure OpenExact (tbl : DrvDevTbl) (q : Name) : Prop where
  own : ∀ i < ddMaxDev, (tbl i).name = some q → ∀ opFlag ret, ∃ tbl' r,
    ddevOpen tbl q false opFlag ret = some (tbl', r) ∧ r.ret = (ddevMakeHandle i).toNat
  others : ∀ opFlag ret tbl' r, ddevOpen tbl q false opFlag ret = some (tbl', r) →
    ∀ j < ddMaxDev, (tbl j).name ≠ some q → tbl' j = tbl j ∧ callbacksOf j [r] = []

/-- `sddev_control` takes the operations of the device with the name `q`, and no others. -/
structure ControlExact (tbl : DrvSdevTbl) (q : Name) : Prop where
  own : ∀ i < ddMaxSdev, (tbl i).name = some q → ∀ cmd ret, ∃ r,
    sddevControl tbl q cmd ret = some r ∧ r.dev = i
  others : ∀ cmd ret r, sddevControl tbl q cmd ret = some r → (tbl r.dev).name = some q

/-- The tables that an unregister function leaves in place of `tbl`: the device with the name
`q` is gone, and the others are as they were. -/
structure ClearsExact {δ : Type} (name : δ → Option Name) (size : Nat) (q : Name)
    (tbl : Nat → δ) (res : Option (Nat → δ)) : Prop where
  own : ∀ i < size, name (tbl i) = some q → ∃ tbl', res = some tbl' ∧ name (tbl' i) = none
  others : ∀ tbl', res = some tbl' → ∀ j < size, name (tbl j) ≠ some q → tbl' j = tbl j

/-- Each function acts on the device with the name `q` and on no other, and the unregister
functions touch nothing outside their tables. -/
structure LookupExact (tbl : DrvDevTbl) (stbl : DrvSdevTbl) (q : Name) : Prop where
  opens : OpenExact tbl q
  controls : ControlExact stbl q
  clears : ClearsExact DrvDev.name ddMaxDev q tbl ((ddevUnregisterDev tbl q).map Prod.fst)
  inside : ddMaxNameLen < q.length ∨ ddevUnregisterScan tbl q ≠ .outside
  sclears : ClearsExact DrvSdev.name ddMaxSdev q stbl ((sddevUnregisterDev stbl q).map Prod.fst)
  sinside : ddMaxNameLen < q.length ∨ sddevUnregisterScan stbl q ≠ .outside

/-! ## When they do -/

/-- In a loop of `n` passes, the slot of `q` is reached, and no slot before it is free or holds
a longer name that starts with `q`. When there is none, a slot that holds a longer name lies
behind a free slot, or out of reach. -/
structure ScanOk (names : Nat → Option Name) (size n : Nat) (q : Name) : Prop where
  own : ∀ i < size, names i = some q → i < n ∧ Passes names q i
  others : (∀ i < size, names i ≠ some q) → ∀ j < min n size, names j ≠ none →
    Stops names q j → ∃ k < j, names k = none

/-- The same, and when there is no slot of `q`, the loop is not entered or stays in the table,
whose slots up to there all hold names that do not start with `q`. -/
structure UnregisterOk (names : Nat → Option Name) (size n : Nat) (q : Name) : Prop where
  own : ∀ i < size, names i = some q → i < n ∧ Passes names q i
  others : (∀ i < size, names i ≠ some q) →
    ddMaxNameLen < q.length ∨ (n ≤ size ∧ Passes names q n)

/-- The tables and the name on which every function acts on the right device. -/
structure LookupOk (tbl : DrvDevTbl) (stbl : DrvSdevTbl) (q : Name) : Prop where
  opens : ScanOk (devNames tbl) ddMaxDev ddMaxDev q
  controls : ScanOk (sdevNames stbl) ddMaxSdev ddMaxSdev q
  clears : UnregisterOk (devNames tbl) ddMaxDev ddMaxSdev q
  sclears : UnregisterOk (sdevNames stbl) ddMaxSdev ddMaxDev q

/-- The scan finds the slot of `q`, and no other slot. -/
structure ScanExact (names : Nat → Option Name) (size n : Nat) (q : Name) : Prop where
  own : ∀ i < size, names i = some q → scan names size q n 0 = .found i
  others : ∀ i, scan names size q n 0 = .found i → names i = some q

section Exact

variable {names : Nat → Option Name} {size n i : Nat} {q : Name}

theorem scanExact_iff : ScanExact names size n q ↔ ScanOk names size n q := by
  constructor
  · intro h
    refine ⟨fun i hi hname => ?_, fun hnone j hj hname hstop => ?_⟩
    · obtain ⟨hn, _, _, _, hpass⟩ := scan_eq_found_iff.mp (h.own i hi hname)
      exact ⟨hn, hpass⟩
    · by_contra hno
      obtain ⟨k, hkj, hstop', hpass⟩ := exists_first hstop
      have hk : names k ≠ none := by
        rcases Nat.lt_or_eq_of_le hkj with hlt | rfl
        · exact fun hfree => hno ⟨k, hlt, hfree⟩
        · exact hname
      exact hnone k (by omega)
        (h.others k (scan_eq_found_iff.mpr ⟨by omega, by omega, hk, hstop', hpass⟩))
  · intro h
    refine ⟨fun i hi hname => ?_, fun i hfound => ?_⟩
    · obtain ⟨hn, hpass⟩ := h.own i hi hname
      exact scan_eq_found_iff.mpr
        ⟨hn, hi, by rw [hname]; exact Option.some_ne_none q, stops_of_name hname, hpass⟩
    · obtain ⟨hn, hi, hname, hstop, hpass⟩ := scan_eq_found_iff.mp hfound
      by_cases hreg : ∃ j < size, names j = some q
      · obtain ⟨j, hj, hq⟩ := hreg
        obtain ⟨_, hpass'⟩ := h.own j hj hq
        rcases Nat.lt_trichotomy i j with hlt | rfl | hgt
        · exact absurd hstop (hpass' i hlt)
        · exact hq
        · exact absurd (stops_of_name hq) (hpass j hgt)
      · obtain ⟨k, hk, hfree⟩ := h.others (fun j hj hq => hreg ⟨j, hj, hq⟩) i (by omega) hname hstop
        have hstopk : Stops names q k := by
          intro name hk'
          rw [hfree] at hk'
          cases hk'
        exact absurd hstopk (hpass k hk)

/-- A name that is too long is found nowhere. -/
theorem scan_ne_found_of_long (h : NamesOk names size) (hq : ddMaxNameLen < q.length) (i : Nat) :
    scan names size q n 0 ≠ .found i := by
  intro hfound
  obtain ⟨_, hi, hname, hstop, _⟩ := scan_eq_found_iff.mp hfound
  obtain ⟨name, hsome⟩ := Option.ne_none_iff_exists'.mp hname
  have hle := (hstop name hsome).length_le
  have hlen := h.length_le i hi name hsome
  omega

/-- The scan finds the slot of `q` and no other, and leaves the table for no name. -/
theorem unregisterOk_iff (h : NamesOk names size) :
    ScanExact names size n q ∧
        (ddMaxNameLen < q.length ∨ scan names size q n 0 ≠ .outside) ↔
      UnregisterOk names size n q := by
  constructor
  · rintro ⟨hexact, hin⟩
    refine ⟨(scanExact_iff.mp hexact).own, fun hnone => ?_⟩
    rcases hin with hlong | hin
    · exact .inl hlong
    · cases hscan : scan names size q n 0 with
      | found i =>
        obtain ⟨_, hi, _⟩ := scan_eq_found_iff.mp hscan
        exact absurd (hexact.others i hscan) (hnone i hi)
      | missing => exact .inr (scan_eq_missing_iff.mp hscan)
      | outside => exact absurd hscan hin
  · intro hok
    have hown : ∀ i < size, names i = some q → scan names size q n 0 = .found i := by
      intro i hi hname
      obtain ⟨hn, hpass⟩ := hok.own i hi hname
      exact scan_eq_found_iff.mpr
        ⟨hn, hi, by rw [hname]; exact Option.some_ne_none q, stops_of_name hname, hpass⟩
    by_cases hreg : ∃ j < size, names j = some q
    · obtain ⟨j, hj, hq⟩ := hreg
      have hfound := hown j hj hq
      refine ⟨⟨hown, fun i hi => ?_⟩, .inr (by rw [hfound]; exact Scan.noConfusion)⟩
      rw [hfound] at hi
      cases hi
      exact hq
    · rcases hok.others fun j hj hq => hreg ⟨j, hj, hq⟩ with hlong | hmiss
      · exact ⟨⟨hown, fun i hi => absurd hi (scan_ne_found_of_long h hlong i)⟩, .inl hlong⟩
      · have hscan := scan_eq_missing_iff.mpr hmiss
        refine ⟨⟨hown, fun i hi => ?_⟩, .inr (by rw [hscan]; exact Scan.noConfusion)⟩
        rw [hscan] at hi
        cases hi

end Exact

/-! ## The functions by their scans -/

variable {tbl : DrvDevTbl} {stbl : DrvSdevTbl} {q : Name}

/-- The callback of a slot is no callback of another. -/
theorem callbacksOf_open {i j opFlag ret status : Nat} {b : Bool} (h : j ≠ i) :
    callbacksOf j [⟨ret, some status, if b then [.open i opFlag] else []⟩] = [] := by
  cases b with
  | false => rfl
  | true =>
    simp only [callbacksOf, List.flatMap_singleton, if_true, List.filterMap_cons,
      if_neg (Ne.symm h), List.filterMap_nil]

/-- `ddev_open` on the slot that it finds: it gives the handle of the slot and changes the slot
only. -/
theorem ddevOpen_found (h : DevsOk tbl) {i : Nat}
    (hfound : scan (devNames tbl) ddMaxDev q ddMaxDev 0 = .found i) (opFlag ret : Nat) :
    ∃ tbl' r, ddevOpen tbl q false opFlag ret = some (tbl', r) ∧
      r.ret = (ddevMakeHandle i).toNat ∧ tbl' i ≠ tbl i ∧
      ∀ j, j ≠ i → tbl' j = tbl j ∧ callbacksOf j [r] = [] := by
  obtain ⟨_, hi, hname, _, _⟩ := scan_eq_found_iff.mp hfound
  have hlong : ¬ (false || decide (ddMaxNameLen < q.length)) = true := by
    rw [Bool.false_or, decide_eq_true_iff]
    exact fun hlong => scan_ne_found_of_long h.names hlong i hfound
  rw [ddevOpen, if_neg hlong, findName_eq_scan tbl q (Nat.le_of_eq (Nat.zero_add ddMaxDev)),
    hfound]
  rcases h.state i hi hname with hstate | hstate
  · simp only [hstate]
    refine ⟨_, _, rfl, rfl, ?_, fun j hj => ⟨Function.update_of_ne hj _ _, callbacksOf_open hj⟩⟩
    rw [Function.update_self]
    intro heq
    have hs := congrArg DrvDev.state heq
    rw [hstate] at hs
    cases hs
  · simp only [hstate]
    refine ⟨_, _, rfl, rfl, ?_, fun j hj => ⟨Function.update_of_ne hj _ _, rfl⟩⟩
    rw [Function.update_self]
    intro heq
    have hcnt : u32 ((tbl i).useCnt + 1) = (tbl i).useCnt := congrArg DrvDev.useCnt heq
    rw [u32] at hcnt
    omega

theorem ddevOpen_not_found (hlong : ¬ ddMaxNameLen < q.length)
    (hscan : ∀ i, scan (devNames tbl) ddMaxDev q ddMaxDev 0 ≠ .found i) (opFlag ret : Nat) :
    ddevOpen tbl q false opFlag ret = none := by
  have hlong' : ¬ (false || decide (ddMaxNameLen < q.length)) = true := by
    rwa [Bool.false_or, decide_eq_true_iff]
  rw [ddevOpen, if_neg hlong', findName_eq_scan tbl q (Nat.le_of_eq (Nat.zero_add ddMaxDev))]
  cases h : scan (devNames tbl) ddMaxDev q ddMaxDev 0 with
  | found i => exact absurd h (hscan i)
  | missing => rfl
  | outside => rfl

theorem openExact_iff (h : DevsOk tbl) :
    OpenExact tbl q ↔ ScanExact (devNames tbl) ddMaxDev ddMaxDev q := by
  constructor
  · intro hexact
    have hothers : ∀ i, scan (devNames tbl) ddMaxDev q ddMaxDev 0 = .found i →
        devNames tbl i = some q := by
      intro i hfound
      obtain ⟨tbl', r, hopen, _, hchange, _⟩ := ddevOpen_found h hfound 0 0
      obtain ⟨_, hi, _⟩ := scan_eq_found_iff.mp hfound
      by_contra hne
      exact hchange (hexact.others 0 0 tbl' r hopen i hi hne).1
    refine ⟨fun i hi hname => ?_, hothers⟩
    obtain ⟨tbl', r, hopen, _⟩ := hexact.own i hi hname 0 0
    have hlong : ¬ ddMaxNameLen < q.length := Nat.not_lt.mpr (h.names.length_le i hi q hname)
    cases hscan : scan (devNames tbl) ddMaxDev q ddMaxDev 0 with
    | found k =>
      obtain ⟨_, hk, _⟩ := scan_eq_found_iff.mp hscan
      rw [h.names.distinct i hi k hk q hname (hothers k hscan)]
    | missing =>
      rw [ddevOpen_not_found hlong (fun k hk => by rw [hscan] at hk; cases hk)] at hopen
      cases hopen
    | outside =>
      rw [ddevOpen_not_found hlong (fun k hk => by rw [hscan] at hk; cases hk)] at hopen
      cases hopen
  · intro hexact
    refine ⟨fun i hi hname opFlag ret => ?_, fun opFlag ret tbl' r hopen j hj hne => ?_⟩
    · obtain ⟨tbl', r, hopen, hret, _⟩ := ddevOpen_found h (hexact.own i hi hname) opFlag ret
      exact ⟨tbl', r, hopen, hret⟩
    · by_cases hlong : ddMaxNameLen < q.length
      · rw [ddevOpen, if_pos (by rw [Bool.false_or, decide_eq_true_iff]; exact hlong)] at hopen
        cases hopen
        exact ⟨rfl, rfl⟩
      cases hscan : scan (devNames tbl) ddMaxDev q ddMaxDev 0 with
      | found i =>
        obtain ⟨tbl₁, r₁, hopen₁, _, _, hother⟩ := ddevOpen_found h hscan opFlag ret
        rw [hopen] at hopen₁
        cases hopen₁
        refine hother j ?_
        rintro rfl
        exact hne (hexact.others j hscan)
      | missing =>
        rw [ddevOpen_not_found hlong (fun k hk => by rw [hscan] at hk; cases hk)] at hopen
        cases hopen
      | outside =>
        rw [ddevOpen_not_found hlong (fun k hk => by rw [hscan] at hk; cases hk)] at hopen
        cases hopen

/-- `sddev_control` takes the operations of the slot that it finds. -/
theorem sddevControl_dev (h : SdevsOk stbl) (cmd ret : Nat) :
    ((sddevControl stbl q cmd ret).map SddReply.dev) =
      match scan (sdevNames stbl) ddMaxSdev q ddMaxSdev 0 with
      | .found i => some i
      | _ => none := by
  rw [sddevControl]
  cases hscan : scan (sdevNames stbl) ddMaxSdev q ddMaxSdev 0 with
  | found i =>
    obtain ⟨_, hi, hname, _⟩ := scan_eq_found_iff.mp hscan
    obtain ⟨op, hop⟩ := Option.ne_none_iff_exists'.mp (h.op i hi hname)
    simp only [hop, Option.map_some]
  | missing => rfl
  | outside => rfl

theorem controlExact_iff (h : SdevsOk stbl) :
    ControlExact stbl q ↔ ScanExact (sdevNames stbl) ddMaxSdev ddMaxSdev q := by
  constructor
  · intro hexact
    refine ⟨fun i hi hname => ?_, fun i hfound => ?_⟩
    · obtain ⟨r, hr, hdev⟩ := hexact.own i hi hname 0 0
      have hmap := sddevControl_dev (q := q) h 0 0
      rw [hr, Option.map_some, hdev] at hmap
      cases hscan : scan (sdevNames stbl) ddMaxSdev q ddMaxSdev 0 <;> rw [hscan] at hmap <;>
        cases hmap
      rfl
    · have hmap := sddevControl_dev (q := q) h 0 0
      rw [hfound] at hmap
      obtain ⟨r, hr, hdev⟩ := Option.map_eq_some_iff.mp hmap
      rw [← hdev]
      exact hexact.others 0 0 r hr
  · intro hexact
    refine ⟨fun i hi hname cmd ret => ?_, fun cmd ret r hr => ?_⟩
    · have hmap := sddevControl_dev (q := q) h cmd ret
      rw [hexact.own i hi hname] at hmap
      exact Option.map_eq_some_iff.mp hmap
    · have hmap := sddevControl_dev (q := q) h cmd ret
      rw [hr, Option.map_some] at hmap
      cases hscan : scan (sdevNames stbl) ddMaxSdev q ddMaxSdev 0 with
      | found i =>
        rw [hscan] at hmap
        cases hmap
        exact hexact.others _ hscan
      | missing =>
        rw [hscan] at hmap
        cases hmap
      | outside =>
        rw [hscan] at hmap
        cases hmap

/-- An unregister function whose loop is the scan clears the right slot when the scan finds
it. -/
theorem clearsExact_iff {δ : Type} {name : δ → Option Name} {tbl : Nat → δ}
    {size n : Nat} {res : Option (Nat → δ)} (clear : δ → δ) (hclear : ∀ d, name (clear d) = none)
    (h : NamesOk (fun i => name (tbl i)) size)
    (hres : res = if ddMaxNameLen < q.length then some tbl
      else match scan (fun i => name (tbl i)) size q n 0 with
        | .found i => some (Function.update tbl i (clear (tbl i)))
        | _ => none) :
    ClearsExact name size q tbl res ↔ ScanExact (fun i => name (tbl i)) size n q := by
  by_cases hlong : ddMaxNameLen < q.length
  · -- no device has the name, and nothing is searched
    have hnone : ∀ i < size, name (tbl i) ≠ some q := by
      intro i hi hname
      exact absurd (h.length_le i hi q hname) (Nat.not_le_of_lt hlong)
    rw [if_pos hlong] at hres
    constructor
    · intro _
      exact ⟨fun i hi hname => absurd hname (hnone i hi),
        fun i hi => absurd hi (scan_ne_found_of_long h hlong i)⟩
    · intro _
      refine ⟨fun i hi hname => absurd hname (hnone i hi), fun tbl' htbl' j _ _ => ?_⟩
      rw [hres] at htbl'
      cases htbl'
      rfl
  rw [if_neg hlong] at hres
  constructor
  · intro hexact
    have hothers : ∀ i, scan (fun i => name (tbl i)) size q n 0 = .found i →
        name (tbl i) = some q := by
      intro i hfound
      obtain ⟨_, hi, hname, _⟩ := scan_eq_found_iff.mp hfound
      rw [hfound] at hres
      by_contra hne
      have hsame := hexact.others _ hres i hi hne
      rw [Function.update_self] at hsame
      rw [← hsame] at hname
      exact hname (hclear _)
    refine ⟨fun i hi hname => ?_, hothers⟩
    obtain ⟨tbl', htbl', _⟩ := hexact.own i hi hname
    cases hscan : scan (fun i => name (tbl i)) size q n 0 with
    | found k =>
      obtain ⟨_, hk, _⟩ := scan_eq_found_iff.mp hscan
      rw [h.distinct i hi k hk q hname (hothers k hscan)]
    | missing =>
      rw [hres, hscan] at htbl'
      cases htbl'
    | outside =>
      rw [hres, hscan] at htbl'
      cases htbl'
  · intro hexact
    refine ⟨fun i hi hname => ?_, fun tbl' htbl' j hj hne => ?_⟩
    · rw [hexact.own i hi hname] at hres
      exact ⟨_, hres, by rw [Function.update_self]; exact hclear _⟩
    · cases hscan : scan (fun i => name (tbl i)) size q n 0 with
      | found i =>
        rw [hres, hscan] at htbl'
        cases htbl'
        refine Function.update_of_ne ?_ _ _
        rintro rfl
        exact hne (hexact.others j hscan)
      | missing =>
        rw [hres, hscan] at htbl'
        cases htbl'
      | outside =>
        rw [hres, hscan] at htbl'
        cases htbl'

theorem clears_iff (h : DevsOk tbl) :
    ClearsExact DrvDev.name ddMaxDev q tbl ((ddevUnregisterDev tbl q).map Prod.fst) ↔
      ScanExact (devNames tbl) ddMaxDev ddMaxSdev q := by
  refine clearsExact_iff (fun d => { d with name := none, op := none, state := .noDevice })
    (fun _ => rfl) h.names ?_
  have hscan : scan (fun i => DrvDev.name (tbl i)) ddMaxDev q ddMaxSdev 0 =
    ddevUnregisterScan tbl q := rfl
  rw [ddevUnregisterDev_eq, hscan]
  split
  · rfl
  · cases ddevUnregisterScan tbl q <;> rfl

theorem sclears_iff (h : SdevsOk stbl) :
    ClearsExact DrvSdev.name ddMaxSdev q stbl ((sddevUnregisterDev stbl q).map Prod.fst) ↔
      ScanExact (sdevNames stbl) ddMaxSdev ddMaxDev q := by
  refine clearsExact_iff (fun _ => ⟨none, .noDevice, none⟩) (fun _ => rfl) h.names ?_
  have hscan : scan (fun i => DrvSdev.name (stbl i)) ddMaxSdev q ddMaxDev 0 =
    sddevUnregisterScan stbl q := rfl
  rw [sddevUnregisterDev, hscan]
  split
  · rfl
  · cases sddevUnregisterScan stbl q <;> rfl

/-- The functions act on the device with the name `q` and on no other just when the slots before
it, and the bounds of the loops, are not in the way. -/
theorem lookupExact_iff (h : DevsOk tbl) (hs : SdevsOk stbl) (q : Name) :
    LookupExact tbl stbl q ↔ LookupOk tbl stbl q := by
  have hun := unregisterOk_iff (n := ddMaxSdev) (q := q) h.names
  have hsun := unregisterOk_iff (n := ddMaxDev) (q := q) hs.names
  constructor
  · intro hexact
    exact ⟨scanExact_iff.mp ((openExact_iff h).mp hexact.opens),
      scanExact_iff.mp ((controlExact_iff hs).mp hexact.controls),
      hun.mp ⟨(clears_iff h).mp hexact.clears, hexact.inside⟩,
      hsun.mp ⟨(sclears_iff hs).mp hexact.sclears, hexact.sinside⟩⟩
  · intro hok
    obtain ⟨hclears, hin⟩ := hun.mpr hok.clears
    obtain ⟨hsclears, hsin⟩ := hsun.mpr hok.sclears
    exact ⟨(openExact_iff h).mpr (scanExact_iff.mpr hok.opens),
      (controlExact_iff hs).mpr (scanExact_iff.mpr hok.controls),
      (clears_iff h).mpr hclears, hin, (sclears_iff hs).mpr hsclears, hsin⟩

/-- The table of the devices with the names `[0]` to `[n - 1]`. -/
def numberedDevs (n : Nat) : DrvDevTbl := fun i =>
  if i < n then ⟨some [BitVec.ofNat 8 i], 0, .closed, some ⟨true, true⟩⟩
  else ⟨none, 0, .noDevice, none⟩

/-- The same in the other table. -/
def numberedSdevs (n : Nat) : DrvSdevTbl := fun i =>
  if i < n then ⟨some [BitVec.ofNat 8 i], .closed, some ⟨true⟩⟩ else ⟨none, .noDevice, none⟩

theorem numbered_namesOk {names : Nat → Option Name} {n size : Nat} (hsize : size ≤ 256)
    (h : ∀ i, names i = if i < n then some [BitVec.ofNat 8 i] else none) :
    NamesOk names size := by
  constructor
  · intro i hi j hj name hni hnj
    rw [h] at hni hnj
    split at hni
    next =>
      split at hnj
      next =>
        cases hni
        injection hnj with hcons
        injection hcons with heq
        have hnat := congrArg BitVec.toNat heq
        rw [BitVec.toNat_ofNat, BitVec.toNat_ofNat] at hnat
        omega
      next => cases hnj
    next => cases hni
  · intro i hi name hname
    rw [h] at hname
    split at hname
    next =>
      cases hname
      exact of_decide_eq_true rfl
    next => cases hname

theorem numberedDevs_ok (n : Nat) : DevsOk (numberedDevs n) := by
  constructor
  · refine numbered_namesOk (n := n) (by decide) fun i => ?_
    rw [devNames, numberedDevs]
    split <;> rfl
  · intro i _ hname
    rw [numberedDevs] at hname ⊢
    split at hname
    next hlt =>
      rw [if_pos hlt]
      exact .inl rfl
    next => exact absurd rfl hname

theorem numberedSdevs_ok (n : Nat) : SdevsOk (numberedSdevs n) := by
  constructor
  · refine numbered_namesOk (n := n) (by decide) fun i => ?_
    rw [sdevNames, numberedSdevs]
    split <;> rfl
  · intro i _ hname
    rw [numberedSdevs] at hname ⊢
    split at hname
    next hlt =>
      rw [if_pos hlt]
      exact Option.some_ne_none _
    next => exact absurd rfl hname

/-- Four devices in each table, and the name of the third. -/
theorem lookupExact_four : LookupExact (numberedDevs 4) (numberedSdevs 4) [2] :=
  (lookupExact_iff (numberedDevs_ok 4) (numberedSdevs_ok 4) [2]).mpr
    ⟨⟨by decide, by decide⟩, ⟨by decide, by decide⟩, ⟨by decide, by decide⟩,
      ⟨by decide, by decide⟩⟩

/-- The ninth device of `drv_sdev_tbl` cannot be unregistered: the loop ends before its slot,
and the assertion behind the loop fails. -/
theorem not_lookupExact_ninth :
    ¬ ∀ (tbl : DrvDevTbl) (stbl : DrvSdevTbl) (q : Name), DevsOk tbl → SdevsOk stbl →
      LookupExact tbl stbl q := by
  intro h
  obtain ⟨tbl', hres, _⟩ :=
    (h (numberedDevs 9) (numberedSdevs 9) [8] (numberedDevs_ok 9) (numberedSdevs_ok 9)).sclears.own
      8 (by decide) (by decide)
  have hnone : sddevUnregisterScan (numberedSdevs 9) [8] = .missing := by decide
  rw [sddevUnregisterDev, if_neg (by decide), hnone] at hres
  cases hres

end TuyaSdk.DrvModel
