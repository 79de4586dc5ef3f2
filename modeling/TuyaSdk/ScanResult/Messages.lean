import TuyaSdk.ScanResult.Table

/-!
# The messages on the table

What each message does to the entries of the table, and from it what holds after every sequence
of messages. A result keeps every entry or puts a better one of the same BSSID into its slot
(`Merged`); a confirmed scan sorts the entries; a connection and a release give all blocks back.
-/

namespace TuyaSdk.ScanResult

open TuyaSdk.Lib

variable {heap : Heap Block} {ptr : Nat} {es es' pre post : List Entry} {e e' : Entry}
  {extra : List Nat} {env : Env} {ind : ScanInd} {allocs : Allocs} {onChannel : Bool}

/-! ## What a result does to an entry -/

/-- The entry stays, with its level or a higher one. -/
def Kept (e e' : Entry) : Prop :=
  e'.1 = e.1 ∧ ∃ level, e.2.level ≤ level ∧ e'.2 = { e.2 with level := level }

/-- Another item of the BSSID takes the place: one that was received on its channel, and where
the old one was as well, a probe response in place of a beacon. -/
def Replaced (e e' : Entry) : Prop :=
  e'.2.bssid = e.2.bssid ∧ e'.2.onChannel = true ∧
    (e.2.onChannel = true → e.2.isProbersp = false ∧ e'.2.isProbersp = true)

/-- The entries after a result: every entry has its successor in its place, and the item of the
result may be a new one behind the last. -/
def Merged (ind : ScanInd) (es es' : List Entry) : Prop :=
  ∃ base, List.Forall₂ (fun e e' => Kept e e' ∨ Replaced e e') es base ∧
    (es' = base ∨ ∃ new : Entry, new.2.bssid = ind.bssid ∧ es' = base ++ [new])

theorem Kept.refl (e : Entry) : Kept e e := ⟨rfl, e.2.level, le_rfl, rfl⟩

theorem Kept.bssid (h : Kept e e') : e'.2.bssid = e.2.bssid := by
  obtain ⟨-, level, -, heq⟩ := h
  rw [heq]

theorem forall₂_kept_refl (es : List Entry) : List.Forall₂ Kept es es :=
  List.forall₂_same.mpr fun e _ => Kept.refl e

/-- Entries of which one got another level. -/
theorem forall₂_kept_middle (h : Kept e e') :
    List.Forall₂ Kept (pre ++ e :: post) (pre ++ e' :: post) :=
  List.rel_append (forall₂_kept_refl pre) (List.Forall₂.cons h (forall₂_kept_refl post))

/-! ## The search for the BSSID -/

/-- Entries of other BSSIDs are passed over. -/
theorem checkDuplicate_skip {ps : List Nat} {i : Nat} {r : Option Nat}
    (hitems : ∀ e ∈ pre, itemAt heap e.1 = some e.2) (hne : ∀ e ∈ pre, ind.bssid ≠ e.2.bssid) :
    checkDuplicate ind onChannel heap (pre.map Prod.fst ++ ps) i r =
      checkDuplicate ind onChannel heap ps (i + pre.length) r := by
  induction pre generalizing i with
  | nil => rfl
  | cons e pre ih =>
    rw [List.map_cons, List.cons_append, checkDuplicate, hitems e List.mem_cons_self]
    simp only [Option.bind_eq_bind, Option.bind_some, if_neg (hne e List.mem_cons_self)]
    rw [ih (fun e' he' => hitems e' (List.mem_cons_of_mem _ he'))
      (fun e' he' => hne e' (List.mem_cons_of_mem _ he')), List.length_cons]
    congr 1
    omega

/-- The search ends without a duplicate behind the last that was found. -/
theorem checkDuplicate_none {i : Nat} {r : Option Nat}
    (hitems : ∀ e ∈ es, itemAt heap e.1 = some e.2) (hne : ∀ e ∈ es, ind.bssid ≠ e.2.bssid) :
    checkDuplicate ind onChannel heap (es.map Prod.fst) i r = some (heap, .put r) := by
  have h : checkDuplicate ind onChannel heap (es.map Prod.fst ++ []) i r =
      checkDuplicate ind onChannel heap [] (i + es.length) r := checkDuplicate_skip hitems hne
  rw [List.append_nil] at h
  exact h

/-- The place that the verdict names: behind entries of other BSSIDs, or the slot of an entry
that a frame on its channel may replace. -/
def Place (ind : ScanInd) (onChannel : Bool) (es : List Entry) : Verdict → Prop
  | .exit => True
  | .put none => ∀ e ∈ es, ind.bssid ≠ e.2.bssid
  | .put (some i) => onChannel = true ∧ ∃ pre e post, es = pre ++ e :: post ∧ i = pre.length ∧
      ind.bssid = e.2.bssid ∧
      (e.2.onChannel = true → e.2.isProbersp = false ∧ ind.isProbersp = true)

/-- The level of an entry is raised, or was high enough. -/
theorem Table.updateRssi_eq (h : Table heap ptr (pre ++ e :: post) []) (ind : ScanInd) :
    ∃ heap' e', updateRssi ind heap e.1 e.2 = some heap' ∧
      Table heap' ptr (pre ++ e' :: post) [] ∧ Kept e e' := by
  rw [updateRssi]
  split
  · next hlt =>
    have hb : ({ e.2 with level := ind.rssi.toInt } : StaScanRes).bssid = e.2.bssid := rfl
    obtain ⟨heap', hst, -, htable, -⟩ := h.store_item hb
    exact ⟨heap', _, hst, htable, rfl, ind.rssi.toInt, hlt.le, rfl⟩
  · exact ⟨heap, e, rfl, h, Kept.refl e⟩

/-- The entry of the BSSID is found. -/
theorem Table.checkDuplicate_found (h : Table heap ptr (pre ++ e :: post) [])
    (hb : ind.bssid = e.2.bssid) :
    ∃ heap' es' verdict,
      checkDuplicate ind onChannel heap ((pre ++ e :: post).map Prod.fst) 0 none =
        some (heap', verdict) ∧
      Table heap' ptr es' [] ∧ List.Forall₂ Kept (pre ++ e :: post) es' ∧
      Place ind onChannel es' verdict := by
  have hnd := (h.owned.perm List.perm_middle).bssids
  rw [List.map_cons, List.nodup_cons] at hnd
  have hothers : ∀ e' ∈ pre ++ post, ind.bssid ≠ e'.2.bssid := by
    intro e' he' heq
    exact hnd.1 (hb ▸ heq ▸ List.mem_map_of_mem he')
  have hpost : ∀ e' ∈ post, ind.bssid ≠ e'.2.bssid := fun e' he' => hothers e' (by simp [he'])
  rw [List.map_append, List.map_cons, checkDuplicate_skip
    (fun e' he' => h.owned.items e' (by simp [he'])) (fun e' he' => hothers e' (by simp [he'])),
    checkDuplicate, h.owned.items e (by simp)]
  simp only [Option.bind_eq_bind, Option.bind_some, if_pos hb]
  by_cases hon : onChannel = false
  · exact ⟨heap, _, .exit, if_pos hon, h, forall₂_kept_refl _, trivial⟩
  rw [if_neg hon]
  have hon' : onChannel = true := by simpa using hon
  by_cases hentry : e.2.onChannel = true
  · obtain ⟨heap₁, e₁, hraise, htable, hkept⟩ := h.updateRssi_eq ind
    rw [if_pos hentry, hraise, Option.bind_some]
    by_cases hprobe : ind.isProbersp = true ∧ e.2.isProbersp = false
    · refine ⟨heap₁, _, .put (some (0 + pre.length)), ?_, htable, forall₂_kept_middle hkept, hon',
        pre, e₁, post, rfl, Nat.zero_add _, hb.trans hkept.bssid.symm, fun _ => ?_⟩
      · rw [if_pos hprobe]
        exact checkDuplicate_none (fun e' he' => htable.owned.items e' (by simp [he'])) hpost
      · obtain ⟨-, level, -, heq⟩ := hkept
        rw [heq]
        exact ⟨hprobe.2, hprobe.1⟩
    · exact ⟨heap₁, _, .exit, if_neg hprobe, htable, forall₂_kept_middle hkept, trivial⟩
  · refine ⟨heap, _, .put (some (0 + pre.length)), ?_, h, forall₂_kept_refl _, hon', pre, e, post,
      rfl, Nat.zero_add _, hb, fun ht => absurd ht hentry⟩
    rw [if_neg hentry]
    exact checkDuplicate_none (fun e' he' => h.owned.items e' (by simp [he'])) hpost

theorem Table.checkDuplicate_eq (h : Table heap ptr es []) (ind : ScanInd) (onChannel : Bool) :
    ∃ heap' es' verdict,
      checkDuplicate ind onChannel heap (es.map Prod.fst) 0 none = some (heap', verdict) ∧
      Table heap' ptr es' [] ∧ List.Forall₂ Kept es es' ∧ Place ind onChannel es' verdict := by
  by_cases hex : ∃ e ∈ es, ind.bssid = e.2.bssid
  · obtain ⟨e, he, hb⟩ := hex
    obtain ⟨pre, post, rfl⟩ := List.append_of_mem he
    exact h.checkDuplicate_found hb
  · have hne : ∀ e ∈ es, ind.bssid ≠ e.2.bssid := fun e he hb => hex ⟨e, he, hb⟩
    exact ⟨heap, es, .put none, checkDuplicate_none h.owned.items hne, h, forall₂_kept_refl es,
      hne⟩

/-! ## A result -/

theorem forall₂_kept_trans {base : List Entry} (h : List.Forall₂ Kept es es')
    (h' : List.Forall₂ (fun e e' => Kept e e' ∨ Replaced e e') es' base) :
    List.Forall₂ (fun e e' => Kept e e' ∨ Replaced e e') es base := by
  induction h generalizing base with
  | nil => exact h'
  | cons hk _ ih =>
    cases h' with
    | cons hkr hrest =>
      refine List.Forall₂.cons ?_ (ih hrest)
      obtain ⟨hptr, level, hle, heq⟩ := hk
      rcases hkr with ⟨hptr', level', hle', heq'⟩ | ⟨hb, hon, hprobe⟩
      · refine Or.inl ⟨hptr'.trans hptr, level', ?_, by rw [heq', heq]⟩
        rw [heq] at hle'
        exact hle.trans hle'
      · rw [heq] at hb hprobe
        exact Or.inr ⟨hb, hon, hprobe⟩

theorem Merged.of_kept (h : List.Forall₂ Kept es es') : Merged ind es es' :=
  ⟨es', h.imp fun _ _ hk => Or.inl hk, Or.inl rfl⟩

/-- The new item is put into the place that the search named. -/
theorem Table.addItem_eq (h : Table heap ptr es extra) {replaceIndex : Option Nat} {chann : Nat}
    {ies : List UInt8} (hlen : es.length < maxBssList)
    (hplace : Place ind onChannel es (.put replaceIndex)) :
    ∃ heap' es', addItem env ind allocs heap ptr chann onChannel replaceIndex ies = some heap' ∧
      Table heap' ptr es' extra ∧ Merged ind es es' := by
  rw [addItem]
  by_cases halloc : allocs.item = true
  · rw [if_pos halloc]
    have hmalloc := h.malloc (.item (itemOf env ind chann onChannel ies))
    have hitem : itemAt (heap.malloc (.item (itemOf env ind chann onChannel ies))) heap.next =
        some (itemOf env ind chann onChannel ies) := itemAt_eq.mpr Heap.block_malloc_same
    cases replaceIndex with
    | none =>
      obtain ⟨heap', hput, -, htable⟩ := hmalloc.putItem_append hitem hlen hplace
      refine ⟨heap', _, hput, htable, es, ?_, Or.inr ⟨_, rfl, rfl⟩⟩
      exact (forall₂_kept_refl es).imp fun _ _ hk => Or.inl hk
    | some i =>
      obtain ⟨hon, pre, e, post, rfl, rfl, hb, hprobe⟩ := hplace
      obtain ⟨heap', hput, -, htable⟩ := hmalloc.putItem_replace hitem hb
      refine ⟨heap', _, hput, htable, _, ?_, Or.inl rfl⟩
      have hrefl : ∀ l : List Entry, List.Forall₂ (fun e e' => Kept e e' ∨ Replaced e e') l l :=
        fun l => (forall₂_kept_refl l).imp fun _ _ hk => Or.inl hk
      exact List.rel_append (hrefl pre) (List.Forall₂.cons (Or.inr ⟨hb, hon, hprobe⟩) (hrefl post))
  · rw [if_neg halloc]
    exact ⟨heap, es, rfl, h, Merged.of_kept (forall₂_kept_refl es)⟩

theorem Table.mhdrScanuResultInd_eq (h : Table heap ptr es []) :
    ∃ heap' es', mhdrScanuResultInd env ind allocs heap ptr = some heap' ∧
      Table heap' ptr es' [] ∧ Merged ind es es' := by
  have hsame : Merged ind es es := Merged.of_kept (forall₂_kept_refl es)
  rw [mhdrScanuResultInd, h.shell]
  simp only [Option.bind_eq_bind, Option.bind_some, List.length_map]
  by_cases hfull : maxBssList ≤ es.length
  · exact ⟨heap, es, if_pos hfull, h, hsame⟩
  rw [if_neg hfull]
  cases channelOf env ind with
  | none => exact ⟨heap, es, rfl, h, hsame⟩
  | some ch =>
    obtain ⟨chann, onChannel⟩ := ch
    obtain ⟨heap₁, es₁, verdict, hcheck, h₁, hkept, hplace⟩ := h.checkDuplicate_eq ind onChannel
    simp only [hcheck, Option.bind_some]
    cases verdict with
    | exit => exact ⟨heap₁, es₁, rfl, h₁, Merged.of_kept hkept⟩
    | put replaceIndex =>
      have hlen : es₁.length < maxBssList := by
        rw [← hkept.length_eq]
        omega
      have hmerged : ∀ es', Merged ind es₁ es' → Merged ind es es' := by
        rintro es' ⟨base, hbase, hnew⟩
        exact ⟨base, forall₂_kept_trans hkept hbase, hnew⟩
      by_cases hscan : env.wpaIsScanOnly = true
      · simp only [if_pos hscan]
        by_cases hies : allocs.ies = true
        · simp only [if_pos hies]
          obtain ⟨heap₂, es₂, hadd, h₂, hm⟩ := (h₁.malloc _).addItem_eq hlen hplace
          obtain ⟨heap₃, hfree, -, h₃⟩ := h₂.free_extra
          rw [hadd, Option.bind_some]
          exact ⟨heap₃, es₂, hfree, h₃, hmerged es₂ hm⟩
        · simp only [if_neg hies]
          exact ⟨heap₁, es₁, rfl, h₁, Merged.of_kept hkept⟩
      · simp only [if_neg hscan]
        obtain ⟨heap₂, es₂, hadd, h₂, hm⟩ := h₁.addItem_eq hlen hplace
        exact ⟨heap₂, es₂, hadd, h₂, hmerged es₂ hm⟩

/-! ## Every message -/

/-- What the static variables stand for: no table and nothing allocated, or the table of the
entries. -/
def Good (s : State) : Option (Nat × List Entry) → Prop
  | none => s.scanRstSetPtr = none ∧ s.resultfulScanCfm = false ∧ ∀ p, ¬s.heap.Live p
  | some (ptr, es) => s.scanRstSetPtr = some ptr ∧ Table s.heap ptr es []

/-- The next result goes into a new table. -/
def Pending (s : State) : Prop := s.scanRstSetPtr = none ∨ s.resultfulScanCfm = true

/-- The effect of a message on the table; `pending` is whether a result starts a new one, and
`next` the first address that was not given out before it. -/
def Handled (pending : Prop) (next : Nat) (tab : Option (Nat × List Entry)) :
    Msg → Option (Nat × List Entry) → Prop
  | .scanuStartCfm, tab' =>
    match tab with
    | none => tab' = none
    | some (ptr, es) => ∃ es', tab' = some (ptr, es') ∧ es'.Perm es ∧
        es'.Pairwise fun a b => b.2.level ≤ a.2.level
  | .scanuResultInd ind _, tab' =>
    (pending → ∃ es', tab' = some (next, es') ∧ Merged ind [] es') ∧
      (¬pending →
        ∃ ptr es es', tab = some (ptr, es) ∧ tab' = some (ptr, es') ∧ Merged ind es es')
  | .smConnectInd, tab' => tab' = none
  | .srReleaseScanResults, tab' => tab' = none

/-- The message is a result. -/
def Msg.isResult : Msg → Bool
  | .scanuResultInd _ _ => true
  | _ => false

variable {s : State} {tab : Option (Nat × List Entry)}

theorem Good.release (h : Good s tab) :
    ∃ s', srReleaseScanResults s s.scanRstSetPtr = some s' ∧ Good s' none ∧
      s'.heap.next = s.heap.next := by
  cases tab with
  | none =>
    obtain ⟨hptr, -, hdead⟩ := h
    rw [hptr]
    exact ⟨_, rfl, ⟨rfl, rfl, hdead⟩, rfl⟩
  | some t =>
    obtain ⟨ptr, es⟩ := t
    obtain ⟨hptr, htable⟩ := h
    obtain ⟨heap', hfree, hnext, hdead⟩ := htable.srFreeAll_eq
    rw [hptr, srReleaseScanResults]
    simp only [hfree]
    exact ⟨_, rfl, ⟨rfl, rfl, hdead⟩, hnext⟩

/-- The table that a result goes into: an empty new one, or the old one. -/
theorem Good.shell (h : Good s tab) :
    ∃ s₁ s₂ ptr es, tableForResult s = some s₁ ∧ ensureShell s₁ = (s₂, ptr) ∧
      s₂.scanRstSetPtr = some ptr ∧ s₂.resultfulScanCfm = false ∧ Table s₂.heap ptr es [] ∧
      (Pending s → ptr = s.heap.next ∧ es = []) ∧ (¬Pending s → tab = some (ptr, es)) := by
  rw [tableForResult]
  by_cases hcfm : s.resultfulScanCfm ∧ s.scanRstSetPtr.isSome
  · obtain ⟨s₁, hrel, ⟨hptr, hflag, hdead⟩, hnext⟩ := h.release
    have hens : ensureShell s₁ = ({ s₁ with
        heap := s₁.heap.malloc (.shell [])
        scanRstSetPtr := some s₁.heap.next }, s₁.heap.next) := by rw [ensureShell, hptr]
    rw [if_pos hcfm]
    exact ⟨s₁, _, _, [], hrel, hens, rfl, hflag, Table.new hdead, fun _ => ⟨hnext, rfl⟩,
      fun hp => absurd (Or.inr hcfm.1) hp⟩
  rw [if_neg hcfm]
  cases tab with
  | none =>
    obtain ⟨hptr, hflag, hdead⟩ := h
    have hens : ensureShell s = ({ s with
        heap := s.heap.malloc (.shell [])
        scanRstSetPtr := some s.heap.next }, s.heap.next) := by rw [ensureShell, hptr]
    exact ⟨s, _, _, [], rfl, hens, rfl, hflag, Table.new hdead, fun _ => ⟨rfl, rfl⟩,
      fun hp => absurd (Or.inl hptr) hp⟩
  | some t =>
    obtain ⟨ptr, es⟩ := t
    obtain ⟨hptr, htable⟩ := h
    have hflag : s.resultfulScanCfm = false := by
      by_contra hflag
      exact hcfm ⟨by simpa using hflag, by rw [hptr]; rfl⟩
    have hens : ensureShell s = (s, ptr) := by rw [ensureShell, hptr]
    refine ⟨s, s, ptr, es, rfl, hens, hptr, hflag, htable, ?_, fun _ => rfl⟩
    rintro (hnone | hset)
    · cases hptr.symm.trans hnone
    · cases hflag.symm.trans hset

theorem Good.result (h : Good s tab) (env : Env) (ind : ScanInd) (allocs : Allocs) :
    ∃ s' tab', rwnxHandleRecvMsg env s (.scanuResultInd ind allocs) = some (s', ()) ∧
      Good s' tab' ∧ Handled (Pending s) s.heap.next tab (.scanuResultInd ind allocs) tab' ∧
      ¬Pending s' := by
  obtain ⟨s₁, s₂, ptr, es, hfor, hens, hptr, hflag, htable, hnew, hold⟩ := h.shell
  obtain ⟨heap', es', hres, htable', hm⟩ : ∃ heap' es',
      mhdrScanuResultInd env ind allocs s₂.heap ptr = some heap' ∧ Table heap' ptr es' [] ∧
        Merged ind es es' := htable.mhdrScanuResultInd_eq
  have hstep : rwnxHandleRecvMsg env s (.scanuResultInd ind allocs) =
      some ({ s₂ with heap := heap' }, ()) := by
    rw [rwnxHandleRecvMsg, hfor]
    simp only [Option.bind_eq_bind, Option.bind_some, hens, hres]
    rfl
  refine ⟨_, some (ptr, es'), hstep, ⟨hptr, htable'⟩, ⟨fun hp => ?_, fun hp => ?_⟩, ?_⟩
  · obtain ⟨rfl, rfl⟩ := hnew hp
    exact ⟨es', rfl, hm⟩
  · exact ⟨ptr, es, es', hold hp, rfl, hm⟩
  · rintro (hnone | hset)
    · cases hptr.symm.trans hnone
    · cases hflag.symm.trans hset

theorem Good.startCfm (h : Good s tab) (env : Env) :
    ∃ s' tab', rwnxHandleRecvMsg env s .scanuStartCfm = some (s', ()) ∧ Good s' tab' ∧
      Handled (Pending s) s.heap.next tab .scanuStartCfm tab' ∧ Pending s' := by
  rw [rwnxHandleRecvMsg]
  cases tab with
  | none =>
    have hptr := h.1
    have hset : setResultful s = s := by rw [setResultful, hptr]; rfl
    have hcfm : mhdrScanuStartCfm s = some s := by rw [mhdrScanuStartCfm, hptr]
    rw [hset, hcfm]
    exact ⟨s, none, rfl, h, rfl, Or.inl hptr⟩
  | some t =>
    obtain ⟨ptr, es⟩ := t
    obtain ⟨hptr, htable⟩ := h
    obtain ⟨heap', es', hsort, -, htable', hperm, hsorted⟩ := htable.sortScanResult_eq
    have hset : setResultful s = { s with resultfulScanCfm := true } := by
      rw [setResultful, hptr]
      rfl
    have hcfm : mhdrScanuStartCfm { s with resultfulScanCfm := true } =
        some { s with
          heap := heap'
          resultfulScanCfm := true
          sScanResultUploadPtr := some ptr } := by
      simp only [mhdrScanuStartCfm]
      split
      · next p hp =>
        cases hptr.symm.trans hp
        rw [hsort]
        rfl
      · next hp => cases hptr.symm.trans hp
    rw [hset, hcfm]
    exact ⟨_, some (ptr, es'), rfl, ⟨hptr, htable'⟩, ⟨es', rfl, hperm, hsorted⟩, Or.inr rfl⟩

/-- Every message is handled without a bad access, and does what it should to the table. -/
theorem Good.step (h : Good s tab) (env : Env) (msg : Msg) :
    ∃ s' tab', rwnxHandleRecvMsg env s msg = some (s', ()) ∧ Good s' tab' ∧
      Handled (Pending s) s.heap.next tab msg tab' ∧ (Pending s' ↔ msg.isResult = false) := by
  cases msg with
  | scanuStartCfm =>
    obtain ⟨s', tab', hstep, hgood, hhandled, hpend⟩ := h.startCfm env
    exact ⟨s', tab', hstep, hgood, hhandled, iff_of_true hpend rfl⟩
  | scanuResultInd ind allocs =>
    obtain ⟨s', tab', hstep, hgood, hhandled, hpend⟩ := h.result env ind allocs
    exact ⟨s', tab', hstep, hgood, hhandled, iff_of_false hpend (by simp [Msg.isResult])⟩
  | smConnectInd =>
    rw [rwnxHandleRecvMsg]
    by_cases hsome : s.scanRstSetPtr.isSome
    · obtain ⟨s', hrel, hgood, -⟩ := h.release
      rw [if_pos hsome, hrel]
      exact ⟨s', none, rfl, hgood, rfl, iff_of_true (Or.inl hgood.1) rfl⟩
    · rw [if_neg hsome]
      have hptr : s.scanRstSetPtr = none := by simpa using hsome
      cases tab with
      | none => exact ⟨s, none, rfl, h, rfl, iff_of_true (Or.inl hptr) rfl⟩
      | some t => cases hptr.symm.trans h.1
  | srReleaseScanResults =>
    obtain ⟨s', hrel, hgood, -⟩ := h.release
    rw [rwnxHandleRecvMsg, hrel]
    exact ⟨s', none, rfl, hgood, rfl, iff_of_true (Or.inl hgood.1) rfl⟩

/-- The last of the messages is a result. -/
def afterResult (msgs : List Msg) : Bool := msgs.getLast?.any Msg.isResult

theorem run_good (env : Env) (msgs : List Msg) :
    ∃ s tab os, Machine.run (rwnxHandleRecvMsg env) start msgs = some (s, os) ∧ Good s tab ∧
      (Pending s ↔ afterResult msgs = false) := by
  induction msgs using List.reverseRecOn with
  | nil =>
    exact ⟨start, none, [], rfl, ⟨rfl, rfl, Heap.not_live_empty⟩, iff_of_true (Or.inl rfl) rfl⟩
  | append_singleton msgs msg ih =>
    obtain ⟨s, tab, os, hrun, hgood, -⟩ := ih
    obtain ⟨s', tab', hstep, hgood', -, hpend⟩ := hgood.step env msg
    refine ⟨s', tab', os ++ [()], ?_, hgood', ?_⟩
    · exact Machine.run_append.mpr ⟨s, os, [()], hrun,
        Machine.run_cons.mpr ⟨s', (), [], hstep, rfl, rfl⟩, rfl⟩
    · rw [hpend, afterResult, List.getLast?_append]
      rfl

/-- After every sequence of messages the static variables stand for a table whose items and
shell are all that is allocated, and every further message is handled without a bad access: a
confirmed scan sorts the entries, a result is merged into the table, which is a new one after
any message but a result, and a connection and a release give everything back. -/
theorem scan_results_run (env : Env) (msgs : List Msg) (msg : Msg) :
    ∃ s tab os s' tab', Machine.run (rwnxHandleRecvMsg env) start msgs = some (s, os) ∧
      Good s tab ∧ rwnxHandleRecvMsg env s msg = some (s', ()) ∧ Good s' tab' ∧
      Handled (afterResult msgs = false) s.heap.next tab msg tab' := by
  obtain ⟨s, tab, os, hrun, hgood, hpend⟩ := run_good env msgs
  obtain ⟨s', tab', hstep, hgood', hhandled, -⟩ := hgood.step env msg
  rw [← hpend]
  exact ⟨s, tab, os, s', tab', hrun, hgood, hstep, hgood', hhandled⟩

end TuyaSdk.ScanResult
