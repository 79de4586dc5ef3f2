import TuyaSdk.ScanResult.Messages

/-!
# The scan results and the supplicant

The supplicant's thread copies the items of the table one by one (`wpa_get_scan_rst` of
`hostapd_intf.c`) and releases the table, beside the thread of `rwnx_handle_recv_msg`, which
releases it too. It reads the table through `s_scan_result_upload_ptr`. A handler, the copy of
one item and a release are one step each; `none` is a read of a block that is not allocated,
also through NULL, or a second free.
-/

namespace TuyaSdk.ScanResult

open TuyaSdk.Lib

/-- Where the supplicant's thread stands in `wpa_get_scan_rst`. -/
inductive Pc where
  | idle
  /-- before the loop condition for `i` -/
  | copying (i : Nat)
  /-- before `wpa_hostapd_release_scan_rst` at its end -/
  | releasing
  deriving DecidableEq

/-- The static variables, and the supplicant with the items it has copied. -/
structure World where
  s : State
  pc : Pc
  results : List StaScanRes

/-- What happens next. -/
inductive Input where
  | msg (msg : Msg)
  /-- `wpa_get_scan_rst` up to its loop; `cancelled` is the result of `rl_pre_sta_set_status` -/
  | getScanRst (cancelled : Bool)
  /-- a pass of its loop; `ok` is the outcome of `os_zalloc` -/
  | copy (ok : Bool)
  /-- the release at its end -/
  | release
  /-- the end of `wpa_send_assoc_req` -/
  | sendAssocReq
  /-- `wpa_hostapd_release_scan_rst` -/
  | releaseScanRst

/-- `wpa_hostapd_release_scan_rst` -/
def wpaHostapdReleaseScanRst (s : State) : Option State :=
  match s.sScanResultUploadPtr with
  | some ptr => (srReleaseScanResults s (some ptr)).map ({ · with sScanResultUploadPtr := none })
  | none => srReleaseScanResults s s.scanRstSetPtr

/-- `wpa_send_assoc_req` after the request was sent. -/
def wpaSendAssocReq (s : State) : Option State :=
  match s.sScanResultUploadPtr with
  | some ptr => (srReleaseScanResults s (some ptr)).map ({ · with sScanResultUploadPtr := none })
  | none => some s

/-- The loop condition of `wpa_get_scan_rst` and the body of its loop. -/
def copyItem (w : World) (i : Nat) (ok : Bool) : Option World := do
  let ptr ← w.s.sScanResultUploadPtr
  let res ← shellAt w.s.heap ptr
  match res[i]? with
  | some p => do
    let scanRstPtr ← itemAt w.s.heap p
    if ok then some { w with pc := .copying (i + 1), results := w.results ++ [scanRstPtr] }
    else some { w with pc := .releasing }
  | none => some { w with pc := .releasing }

/-- A step of the supplicant's thread is taken where the thread stands. -/
def supplicantStep (env : Env) : Machine World Input Unit := fun w input =>
  match input, w.pc with
  | .msg msg, _ => (rwnxHandleRecvMsg env w.s msg).map fun r => ({ w with s := r.1 }, ())
  | .getScanRst cancelled, .idle =>
    match w.s.sScanResultUploadPtr with
    | none => some ({ w with results := [] }, ())
    | some _ =>
      if cancelled then some ({ w with results := [] }, ())
      else some ({ w with pc := .copying 0, results := [] }, ())
  | .copy ok, .copying i => (copyItem w i ok).map (·, ())
  | .release, .releasing =>
    (wpaHostapdReleaseScanRst w.s).map fun s => ({ w with s := s, pc := .idle }, ())
  | .sendAssocReq, .idle => (wpaSendAssocReq w.s).map fun s => ({ w with s := s }, ())
  | .releaseScanRst, .idle => (wpaHostapdReleaseScanRst w.s).map fun s => ({ w with s := s }, ())
  | _, _ => some (w, ())

def World.start : World := ⟨ScanResult.start, .idle, []⟩

/-- `s_scan_result_upload_ptr` is NULL or the table. -/
def AliasOk (s : State) : Prop :=
  s.sScanResultUploadPtr = none ∨ s.sScanResultUploadPtr = s.scanRstSetPtr

/-- The run makes no access to a block that is not allocated and no second free, and the alias is
NULL or the table throughout. -/
def NeverAfterFree (env : Env) (inputs : List Input) : Prop :=
  (Machine.run (supplicantStep env) World.start inputs).isSome ∧
    ∀ n w os, Machine.run (supplicantStep env) World.start (inputs.take n) = some (w, os) →
      AliasOk w.s

/-- The loop of `wpa_get_scan_rst` tests its condition only with results. -/
def ResultsThere (w : World) : Input → Prop
  | .copy _ => w.pc = .idle ∨ w.pc = .releasing ∨ w.s.sScanResultUploadPtr.isSome
  | _ => True

instance (w : World) : (input : Input) → Decidable (ResultsThere w input)
  | .copy _ => inferInstanceAs (Decidable
      (w.pc = .idle ∨ w.pc = .releasing ∨ w.s.sScanResultUploadPtr.isSome))
  | .msg _ | .getScanRst _ | .release | .sendAssocReq | .releaseScanRst =>
    inferInstanceAs (Decidable True)

variable {env : Env} {s s' : State} {w w' : World} {tab : Option (Nat × List Entry)}

/-! ## The alias -/

theorem srReleaseScanResults_ptrs {ptr : Option Nat} (h : srReleaseScanResults s ptr = some s') :
    s'.sScanResultUploadPtr = none ∧ s'.scanRstSetPtr = none := by
  unfold srReleaseScanResults at h
  cases ptr with
  | none =>
    cases h
    exact ⟨rfl, rfl⟩
  | some ptr =>
    simp only [Option.bind_eq_bind, Option.bind_eq_some_iff, Option.pure_def, Option.some.injEq] at h
    obtain ⟨heap, -, rfl⟩ := h
    exact ⟨rfl, rfl⟩

theorem AliasOk.release {ptr : Option Nat} (h : srReleaseScanResults s ptr = some s') :
    AliasOk s' := Or.inl (srReleaseScanResults_ptrs h).1

theorem AliasOk.startCfm (h : AliasOk s)
    (hstep : rwnxHandleRecvMsg env s .scanuStartCfm = some (s', ())) : AliasOk s' := by
  simp only [rwnxHandleRecvMsg, Option.bind_eq_bind, Option.bind_eq_some_iff, Option.pure_def,
    Option.some.injEq, Prod.mk.injEq, and_true] at hstep
  obtain ⟨s₁, hcfm, rfl⟩ := hstep
  have hset : (setResultful s).scanRstSetPtr = s.scanRstSetPtr ∧
      (setResultful s).sScanResultUploadPtr = s.sScanResultUploadPtr := by
    rw [setResultful]
    split <;> exact ⟨rfl, rfl⟩
  rw [mhdrScanuStartCfm, hset.1] at hcfm
  cases hptr : s.scanRstSetPtr with
  | none =>
    rw [hptr] at hcfm
    cases hcfm
    rw [AliasOk, hset.1, hset.2]
    exact h
  | some ptr =>
    rw [hptr] at hcfm
    simp only [Option.bind_eq_bind, Option.bind_eq_some_iff, Option.pure_def,
      Option.some.injEq] at hcfm
    obtain ⟨heap, -, rfl⟩ := hcfm
    exact Or.inr rfl

/-- A new table is made only where the alias is NULL. -/
theorem AliasOk.resultInd {ind : ScanInd} {allocs : Allocs} (h : AliasOk s)
    (hstep : rwnxHandleRecvMsg env s (.scanuResultInd ind allocs) = some (s', ())) : AliasOk s' := by
  simp only [rwnxHandleRecvMsg, Option.bind_eq_bind, Option.bind_eq_some_iff, Option.pure_def,
    Option.some.injEq, Prod.mk.injEq, and_true] at hstep
  obtain ⟨s₁, hfor, heap, -, rfl⟩ := hstep
  have h₁ : AliasOk s₁ := by
    rw [tableForResult] at hfor
    split at hfor
    · exact AliasOk.release hfor
    · cases hfor
      exact h
  change AliasOk (ensureShell s₁).1
  unfold ensureShell
  cases hptr : s₁.scanRstSetPtr with
  | none =>
    rw [AliasOk, hptr, or_self] at h₁
    exact Or.inl h₁
  | some ptr => exact h₁

/-- No handler parts the alias from the table. -/
theorem AliasOk.handle {msg : Msg} (h : AliasOk s)
    (hstep : rwnxHandleRecvMsg env s msg = some (s', ())) : AliasOk s' := by
  cases msg with
  | scanuStartCfm => exact h.startCfm hstep
  | scanuResultInd ind allocs => exact h.resultInd hstep
  | smConnectInd =>
    rw [rwnxHandleRecvMsg] at hstep
    split at hstep
    · obtain ⟨s₁, hrel, hpair⟩ := Option.map_eq_some_iff.mp hstep
      cases hpair
      exact AliasOk.release hrel
    · cases hstep
      exact h
  | srReleaseScanResults =>
    obtain ⟨s₁, hrel, hpair⟩ := Option.map_eq_some_iff.mp hstep
    cases hpair
    exact AliasOk.release hrel

/-! ## Releases by the supplicant -/

/-- What holds between the steps: the table is whole, and the alias is NULL or the table. -/
def Sound (s : State) : Prop := (∃ tab, Good s tab) ∧ AliasOk s

theorem Sound.table (h : Sound s) {ptr : Nat} (hptr : s.sScanResultUploadPtr = some ptr) :
    s.scanRstSetPtr = some ptr := by
  rcases h.2 with hnone | heq
  · rw [hptr] at hnone
    cases hnone
  · rw [← heq, hptr]

theorem Sound.srRelease (h : Sound s) :
    ∃ s', srReleaseScanResults s s.scanRstSetPtr = some s' ∧ Sound s' := by
  obtain ⟨⟨tab, hgood⟩, -⟩ := h
  obtain ⟨s', hrel, hgood', -⟩ := hgood.release
  exact ⟨s', hrel, ⟨none, hgood'⟩, AliasOk.release hrel⟩

/-- The release through the alias, which is cleared once more. -/
theorem Sound.aliasRelease (h : Sound s) {ptr : Nat} (hptr : s.sScanResultUploadPtr = some ptr) :
    ∃ s', (srReleaseScanResults s (some ptr)).map ({ · with sScanResultUploadPtr := none }) =
        some s' ∧ Sound s' := by
  obtain ⟨s', hrel, hsound⟩ := h.srRelease
  rw [h.table hptr] at hrel
  have hsame : ({ s' with sScanResultUploadPtr := none } : State) = s' := by
    rw [← (srReleaseScanResults_ptrs hrel).1]
  exact ⟨s', by rw [hrel, Option.map_some, hsame], hsound⟩

theorem Sound.releaseScanRst (h : Sound s) :
    ∃ s', wpaHostapdReleaseScanRst s = some s' ∧ Sound s' := by
  rw [wpaHostapdReleaseScanRst]
  cases hptr : s.sScanResultUploadPtr with
  | none => exact h.srRelease
  | some ptr => exact h.aliasRelease hptr

theorem Sound.sendAssocReq (h : Sound s) : ∃ s', wpaSendAssocReq s = some s' ∧ Sound s' := by
  rw [wpaSendAssocReq]
  cases hptr : s.sScanResultUploadPtr with
  | none => exact ⟨s, rfl, h⟩
  | some ptr => exact h.aliasRelease hptr

theorem Sound.handle (h : Sound s) (env : Env) (msg : Msg) :
    ∃ s', rwnxHandleRecvMsg env s msg = some (s', ()) ∧ Sound s' := by
  obtain ⟨⟨tab, hgood⟩, halias⟩ := h
  obtain ⟨s', tab', hstep, hgood', -⟩ := hgood.step env msg
  exact ⟨s', hstep, ⟨tab', hgood'⟩, halias.handle hstep⟩

/-- The table behind the alias can be read. -/
theorem Sound.read (h : Sound s) {ptr : Nat} (hptr : s.sScanResultUploadPtr = some ptr) :
    ∃ es : List Entry, shellAt s.heap ptr = some (es.map Prod.fst) ∧
      ∀ e ∈ es, itemAt s.heap e.1 = some e.2 := by
  have htab := h.table hptr
  obtain ⟨⟨tab, hgood⟩, -⟩ := h
  cases tab with
  | none => cases htab.symm.trans hgood.1
  | some t =>
    obtain ⟨hset, htable⟩ := hgood
    cases hset.symm.trans htab
    exact ⟨t.2, htable.shell, htable.owned.items⟩

/-! ## Steps of the supplicant -/

/-- A pass of the loop accesses no freed block exactly if the alias is not NULL. -/
theorem Sound.copyItem (h : Sound w.s) (i : Nat) (ok : Bool) :
    match w.s.sScanResultUploadPtr with
    | none => ScanResult.copyItem w i ok = none
    | some _ => ∃ w', ScanResult.copyItem w i ok = some w' ∧ w'.s = w.s := by
  rw [ScanResult.copyItem]
  cases hptr : w.s.sScanResultUploadPtr with
  | none => rfl
  | some ptr =>
    obtain ⟨es, hshell, hitems⟩ := h.read hptr
    simp only [Option.bind_eq_bind, Option.bind_some, hshell]
    cases hi : (es.map Prod.fst)[i]? with
    | none => exact ⟨_, rfl, rfl⟩
    | some p =>
      obtain ⟨e, he, rfl⟩ := List.mem_map.mp (List.mem_of_getElem? hi)
      simp only [hitems e he, Option.bind_some]
      cases ok
      · exact ⟨_, rfl, rfl⟩
      · exact ⟨_, rfl, rfl⟩

/-- What the induction over a run needs of a step. -/
def StepKept (env : Env) (w : World) (input : Input) : Prop :=
  ((supplicantStep env w input).isSome ↔ ResultsThere w input) ∧
    ∀ w' o, supplicantStep env w input = some (w', o) → Sound w'.s

theorem stepKept_of_eq (w' : World) {input : Input}
    (hstep : supplicantStep env w input = some (w', ())) (hs : Sound w'.s)
    (hok : ResultsThere w input) : StepKept env w input := by
  refine ⟨iff_of_true (by rw [hstep]; rfl) hok, fun w₁ o h₁ => ?_⟩
  rw [hstep] at h₁
  cases h₁
  exact hs

/-- A step that changes the static variables only, apart from where the thread stands. -/
theorem stepKept_of_map {r : Option State} (pc : Pc) {input : Input}
    (hstep : supplicantStep env w input = r.map fun s => ({ w with s := s, pc := pc }, ()))
    (hr : r = some s') (hs : Sound s') (hok : ResultsThere w input) : StepKept env w input := by
  rw [hr] at hstep
  exact stepKept_of_eq { w with s := s', pc := pc } hstep hs hok

theorem Sound.getScanRst (h : Sound w.s) (cancelled : Bool) :
    StepKept env w (.getScanRst cancelled) := by
  obtain ⟨s, pc, results⟩ := w
  cases pc with
  | idle =>
    have hstep : supplicantStep env ⟨s, .idle, results⟩ (.getScanRst cancelled) =
        some (⟨s, if s.sScanResultUploadPtr.isNone ∨ cancelled then .idle else .copying 0, []⟩,
          ()) := by
      unfold supplicantStep
      cases hptr : s.sScanResultUploadPtr with
      | none => simp only [Option.isNone_none, true_or, if_true]
      | some ptr =>
        cases cancelled <;> simp only [Option.isNone_some, Bool.false_eq_true, or_self, or_true,
          if_true, if_false]
    exact stepKept_of_eq _ hstep h trivial
  | copying i => exact stepKept_of_eq _ rfl h trivial
  | releasing => exact stepKept_of_eq _ rfl h trivial

theorem Sound.copy (h : Sound w.s) (ok : Bool) : StepKept env w (.copy ok) := by
  obtain ⟨s, pc, results⟩ := w
  cases pc with
  | idle => exact stepKept_of_eq _ rfl h (Or.inl rfl)
  | releasing => exact stepKept_of_eq _ rfl h (Or.inr (Or.inl rfl))
  | copying i =>
    have hstep : supplicantStep env ⟨s, .copying i, results⟩ (.copy ok) =
        (ScanResult.copyItem ⟨s, .copying i, results⟩ i ok).map (·, ()) := rfl
    have hitem := h.copyItem i ok
    cases hptr : s.sScanResultUploadPtr with
    | none =>
      simp only [hptr] at hitem
      rw [hitem] at hstep
      refine ⟨iff_of_false (by rw [hstep]; exact nofun) ?_, fun w' o hw' => ?_⟩
      · rintro (hpc | hpc | hsome)
        · cases hpc
        · cases hpc
        · rw [hptr] at hsome
          cases hsome
      · rw [hstep] at hw'
        cases hw'
    | some ptr =>
      simp only [hptr] at hitem
      obtain ⟨w', hcopy, hs⟩ := hitem
      rw [hcopy] at hstep
      exact stepKept_of_eq w' hstep (hs ▸ h) (Or.inr (Or.inr (by rw [hptr]; rfl)))

/-- The releases, each at its place. -/
theorem Sound.releases (h : Sound w.s) :
    StepKept env w .release ∧ StepKept env w .sendAssocReq ∧ StepKept env w .releaseScanRst := by
  obtain ⟨s, pc, results⟩ := w
  obtain ⟨s₁, hrel, h₁⟩ := h.releaseScanRst
  obtain ⟨s₂, hassoc, h₂⟩ := h.sendAssocReq
  cases pc with
  | idle =>
    exact ⟨stepKept_of_eq _ rfl h trivial, stepKept_of_map .idle rfl hassoc h₂ trivial,
      stepKept_of_map .idle rfl hrel h₁ trivial⟩
  | copying i =>
    exact ⟨stepKept_of_eq _ rfl h trivial, stepKept_of_eq _ rfl h trivial,
      stepKept_of_eq _ rfl h trivial⟩
  | releasing =>
    exact ⟨stepKept_of_map .idle rfl hrel h₁ trivial, stepKept_of_eq _ rfl h trivial,
      stepKept_of_eq _ rfl h trivial⟩

theorem Sound.step (h : Sound w.s) (env : Env) (input : Input) : StepKept env w input := by
  cases input with
  | msg msg =>
    obtain ⟨s', hstep, hs⟩ := h.handle env msg
    have hmsg : supplicantStep env w (.msg msg) =
        (rwnxHandleRecvMsg env w.s msg).map fun r => ({ w with s := r.1 }, ()) := rfl
    rw [hstep] at hmsg
    exact stepKept_of_eq { w with s := s' } hmsg hs trivial
  | getScanRst cancelled => exact h.getScanRst cancelled
  | copy ok => exact h.copy ok
  | release => exact h.releases.1
  | sendAssocReq => exact h.releases.2.1
  | releaseScanRst => exact h.releases.2.2

/-! ## Runs -/

theorem sound_start : Sound World.start.s :=
  ⟨⟨none, rfl, rfl, Heap.not_live_empty⟩, Or.inl rfl⟩

theorem run_sound {inputs : List Input} {os : List Unit}
    (hrun : Machine.run (supplicantStep env) World.start inputs = some (w, os)) : Sound w.s := by
  have hkeep : ∀ w (_ : List Unit) input w' o, Sound w.s → True →
      supplicantStep env w input = some (w', o) → Sound w'.s :=
    fun w _ input w' o h _ hstep => (h.step env input).2 w' o hstep
  exact @Machine.run_invariant World Input Unit (supplicantStep env) (fun _ _ => True)
    (fun w _ => Sound w.s) hkeep World.start w inputs [] os sound_start
    (Machine.legal_true _ _) hrun

/-- In every order of the steps of both threads, the scan results are never read or freed after
they were freed exactly if the loop of `wpa_get_scan_rst` never tests its condition after a
release; the alias is NULL or the table in any case. -/
theorem neverAfterFree_iff (env : Env) (inputs : List Input) :
    NeverAfterFree env inputs ↔
      Machine.Legal (supplicantStep env) ResultsThere World.start inputs := by
  have hiff : (Machine.run (supplicantStep env) World.start inputs).isSome ↔
      Machine.Legal (supplicantStep env) ResultsThere World.start inputs :=
    Machine.run_isSome_iff (fun w input (h : Sound w.s) => (h.step env input).1)
      (fun w input w' o h hstep => (h.step env input).2 w' o hstep) sound_start
  exact ⟨fun h => hiff.mp h.1, fun h => ⟨hiff.mpr h, fun n w os hrun => (run_sound hrun).2⟩⟩

/-! ## A release between two copies -/

/-- Plain settings, and a frame without elements. -/
def plainEnv : Env :=
  ⟨fun _ _ _ _ => none, fun _ _ _ _ => 0, fun _ _ _ => [], false, ⟨false, 1, 13⟩⟩

def plainInd : ScanInd := ⟨36, 2412, -50, fun _ => 0⟩

/-- A scan with one result is confirmed; the results are released by a connection after the
result was copied, and before the loop ends. -/
def releasedInputs : List Input :=
  [.msg (.scanuResultInd plainInd ⟨true, true⟩), .msg .scanuStartCfm, .getScanRst false,
    .copy true, .msg .smConnectInd, .copy true]

theorem not_forall_neverAfterFree : ¬∀ env inputs, NeverAfterFree env inputs := by
  intro h
  have hrun : (Machine.run (supplicantStep plainEnv) World.start releasedInputs).isSome = false := by
    decide +kernel
  have hsome := (h plainEnv releasedInputs).1
  rw [hrun] at hsome
  cases hsome

end TuyaSdk.ScanResult
