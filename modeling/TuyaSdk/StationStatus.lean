import TuyaSdk.Lib.Machine

/-!
# The status of the station (`rw_msg_rx.c`, `tkl_wifi.c`)

Any thread may set the status of the station. `mhdr_set_station_status` exchanges it with interrupts
off and tells the callback of a change with interrupts on again, so that changes of several threads
can be on their way at once. Every change is told, and told once, in every order of the threads'
steps (`told_once`).

The callback is `_wifi_station_status_cb`, which keeps a status of its own and tells the application
of it. Where the calls do not overlap, it is told the changes in order (`calls_follow`).
-/

namespace TuyaSdk.StationStatus
open TuyaSdk.Lib

/-- `rw_evt_type` -/
inductive RwEvtType where
  | staIdle
  | staScanning
  | staScanOver
  | staConnecting
  | staBeaconLose
  | staPasswordWrong
  | staNoApFound
  | staAssocFull
  | staDisconnected
  | staConnectFailed
  | staDhcpFailed
  | staConnected
  | staGotIp
  | apConnected
  | apDisconnected
  | apConnectFailed
  deriving DecidableEq

/-! ## `rw_msg_rx.c` -/

/-- `g_connect_transient_status`, `g_connect_abnormal_status`, and whether `station_status_cb` is
set. -/
structure Status where
  transient : RwEvtType
  abnormal : RwEvtType
  cb : Bool

/-- The static variables at the start. -/
def Status.start : Status := ⟨.staIdle, .staIdle, false⟩

/-- `mhdr_is_station_abnormal_status` -/
def mhdrIsStationAbnormalStatus (val : RwEvtType) : Bool :=
  val = .staPasswordWrong ∨ val = .staNoApFound ∨ val = .staBeaconLose ∨ val = .staAssocFull ∨
    val = .staDisconnected ∨ val = .staConnectFailed

/-- The statuses that `mhdr_set_abnormal_status` does not replace. -/
def lasting (val : RwEvtType) : Bool := val = .staPasswordWrong ∨ val = .staNoApFound

/-- `mhdr_set_abnormal_status` -/
def mhdrSetAbnormalStatus (s : Status) (val : RwEvtType) : Status :=
  if lasting s.abnormal then s else { s with abnormal := val }

/-- The critical section of `mhdr_set_station_status`, without `tmp`. -/
def Status.enter (s : Status) (val : RwEvtType) : Status :=
  let s' := { s with transient := val }
  if mhdrIsStationAbnormalStatus val then mhdrSetAbnormalStatus s' val else s'

/-- The conditions of `mhdr_set_station_status_when_reconnect_over`. -/
def Status.Over (s : Status) : Prop :=
  .staConnected ≠ s.transient ∧ s.transient ≠ s.abnormal

instance (s : Status) : Decidable s.Over := inferInstanceAs (Decidable (_ ∧ _))

/-- The assignment there. -/
def Status.assign (s : Status) (val : RwEvtType) : Status := { s with transient := val }

@[simp] theorem cb_assign (s : Status) (val : RwEvtType) : (s.assign val).cb = s.cb := rfl

/-- The assignment of `mhdr_set_station_status_cb`. -/
def Status.register (s : Status) : Status := { s with cb := true }

/-! ## Threads -/

/-- Where a thread stands. -/
inductive Pc where
  | idle
  /-- behind the critical section of `mhdr_set_station_status`, which changed the status -/
  | changed (val : RwEvtType)
  /-- behind the first condition of `mhdr_set_station_status_when_reconnect_over` -/
  | unconnected
  /-- in the second, with the transient status read -/
  | comparing (val : RwEvtType)
  /-- behind it -/
  | checked
  /-- in the assignment, with the abnormal status read -/
  | loaded (val : RwEvtType)
  /-- behind it -/
  | assigned
  /-- behind the assignment of `mhdr_set_station_status_cb` -/
  | registered
  deriving DecidableEq

variable {n : Nat}

/-- The static variables, and `n` threads. -/
structure World (n : Nat) where
  status : Status
  pc : Fin n → Pc

def World.start (n : Nat) : World n := ⟨.start, fun _ => .idle⟩

/-- The thread that is to go on, and the call it makes if it is in none. -/
inductive Input (n : Nat) where
  | set (t : Fin n) (val : RwEvtType)
  | reconnectOver (t : Fin n)
  | register (t : Fin n)
  | go (t : Fin n)

/-- What a step shows. -/
inductive Shown where
  | nothing
  /-- a critical section of `mhdr_set_station_status`, and whether it changed the status -/
  | set (val : RwEvtType) (changed : Bool)
  /-- its call of `station_status_cb` -/
  | told (val : RwEvtType)
  /-- its end without one, `station_status_cb` being NULL -/
  | untold (val : RwEvtType)
  /-- what the assignment of `mhdr_set_station_status_when_reconnect_over` reads and stores, and the
  end of that -/
  | loaded (val : RwEvtType)
  | assigned (val : RwEvtType)
  | overTold (val : RwEvtType)
  | overUntold
  /-- the assignment of `mhdr_set_station_status_cb`, and its call -/
  | registered
  | first (val : RwEvtType)
  deriving DecidableEq

def World.goto (w : World n) (t : Fin n) (p : Pc) : World n :=
  { w with pc := Function.update w.pc t p }

def World.store (w : World n) (status : Status) : World n := { w with status := status }

/-- A step of the thread `t` inside of a call. -/
def World.go (w : World n) (t : Fin n) : World n × Shown :=
  match w.pc t with
  | .idle => (w, .nothing)
  | .changed val => (w.goto t .idle, if w.status.cb then .told val else .untold val)
  | .unconnected => (w.goto t (.comparing w.status.transient), .nothing)
  | .comparing val => (w.goto t (if val ≠ w.status.abnormal then .checked else .idle), .nothing)
  | .checked => (w.goto t (.loaded w.status.abnormal), .loaded w.status.abnormal)
  | .loaded val => ((w.store (w.status.assign val)).goto t .assigned, .assigned val)
  | .assigned =>
    (w.goto t .idle, if w.status.cb then .overTold w.status.transient else .overUntold)
  | .registered => (w.goto t .idle, .first w.status.transient)

/-- A step. -/
def World.next (w : World n) : Input n → World n × Shown
  | .set t val =>
    if w.pc t = .idle then
      let changed := w.status.transient ≠ val
      ((w.store (w.status.enter val)).goto t (if changed then .changed val else .idle),
        .set val changed)
    else (w, .nothing)
  | .reconnectOver t =>
    if w.pc t = .idle ∧ .staConnected ≠ w.status.transient then (w.goto t .unconnected, .nothing)
    else (w, .nothing)
  | .register t =>
    if w.pc t = .idle then
      ((w.store w.status.register).goto t .registered, .registered)
    else (w, .nothing)
  | .go t => w.go t

def step : Machine (World n) (Input n) Shown := fun w i => some (w.next i)

/-! ## Every change is told once -/

/-- The number of threads that stand at `p`. -/
def waiting (pc : Fin n → Pc) (p : Pc) : Nat := ∑ t, if pc t = p then 1 else 0

/-- A change is not told. -/
def Shown.Untold : Shown → Prop
  | .untold _ | .overUntold => True
  | _ => False

def Shown.isAssigned : Shown → Bool
  | .assigned _ => true
  | _ => false

def Shown.isOverTold : Shown → Bool
  | .overTold _ => true
  | _ => false

/-- Each change is told, or is found with no callback set, or its thread is on the way there; and
with the callback set no change is left untold. -/
structure Accounts (w : World n) (outs : List Shown) : Prop where
  sets : ∀ val, outs.count (.set val true) =
    outs.count (.told val) + outs.count (.untold val) + waiting w.pc (.changed val)
  overs : outs.countP Shown.isAssigned =
    outs.countP Shown.isOverTold + outs.count .overUntold + waiting w.pc .assigned
  cb : .registered ∈ outs → w.status.cb = true
  after : outs.Pairwise fun a b => a = .registered → ¬b.Untold

section
variable {w w' : World n} {t : Fin n} {p q : Pc} {i : Input n} {o : Shown} {outs : List Shown}

theorem waiting_update (pc : Fin n → Pc) (t : Fin n) (p q : Pc) :
    waiting (Function.update pc t q) p + (if pc t = p then 1 else 0) =
      waiting pc p + (if q = p then 1 else 0) := by
  have hrest : ∑ u ∈ Finset.univ.erase t, (if Function.update pc t q u = p then 1 else 0) =
      ∑ u ∈ Finset.univ.erase t, (if pc u = p then 1 else 0) :=
    Finset.sum_congr rfl fun u hu => by rw [Function.update_of_ne (Finset.ne_of_mem_erase hu)]
  rw [waiting, waiting, ← Finset.add_sum_erase _ _ (Finset.mem_univ t), hrest,
    ← Finset.add_sum_erase _ (fun u => if pc u = p then 1 else 0) (Finset.mem_univ t),
    Function.update_self]
  omega

theorem count_concat (outs : List Shown) (o x : Shown) :
    (outs ++ [o]).count x = outs.count x + if o = x then 1 else 0 := by
  rw [List.count_append, List.count_singleton]
  simp only [beq_iff_eq]

/-- A thread moves on, and the static variables may change. -/
theorem Accounts.move (h : Accounts w outs) (status : Status) (t : Fin n) (q : Pc) (o : Shown)
    (hsets : ∀ val, (if o = .set val true then 1 else 0) +
        (if w.pc t = .changed val then 1 else 0) =
      (if o = .told val then 1 else 0) + (if o = .untold val then 1 else 0) +
        if q = .changed val then 1 else 0)
    (hovers : (if o.isAssigned then 1 else 0) + (if w.pc t = .assigned then 1 else 0) =
      (if o.isOverTold then 1 else 0) + (if o = .overUntold then 1 else 0) +
        if q = .assigned then 1 else 0)
    (hcb : w.status.cb = true ∨ o = .registered → status.cb = true)
    (hafter : o.Untold → w.status.cb = false) :
    Accounts ((w.store status).goto t q) (outs ++ [o]) where
  sets val := by
    have hw := h.sets val
    have hgoto := waiting_update w.pc t (.changed val) q
    have hval := hsets val
    simp only [count_concat, World.goto, World.store]
    omega
  overs := by
    have hw := h.overs
    have hgoto := waiting_update w.pc t .assigned q
    simp only [count_concat, List.countP_append, List.countP_singleton, World.goto, World.store]
    omega
  cb hmem := by
    rcases List.mem_append.mp hmem with hmem | hmem
    · exact hcb (Or.inl (h.cb hmem))
    · exact hcb (Or.inr (List.mem_singleton.mp hmem).symm)
  after := by
    refine List.pairwise_append.mpr ⟨h.after, List.pairwise_singleton _ _, ?_⟩
    rintro a ha b hb rfl huntold
    rw [List.mem_singleton.mp hb] at huntold
    cases (h.cb ha).symm.trans (hafter huntold)

/-- Nothing happens. -/
theorem Accounts.nothing (h : Accounts w outs) : Accounts w (outs ++ [.nothing]) where
  sets val := by
    rw [count_concat, count_concat, count_concat]
    exact h.sets val
  overs := by
    rw [count_concat, List.countP_append, List.countP_append]
    exact h.overs
  cb hmem := by
    rcases List.mem_append.mp hmem with hmem | hmem
    · exact h.cb hmem
    · cases List.mem_singleton.mp hmem
  after := by
    refine List.pairwise_append.mpr ⟨h.after, List.pairwise_singleton _ _, ?_⟩
    rintro a - b hb - huntold
    rw [List.mem_singleton.mp hb] at huntold
    exact huntold

theorem enter_cb (s : Status) (val : RwEvtType) : (s.enter val).cb = s.cb := by
  simp only [Status.enter, mhdrSetAbnormalStatus]
  split
  · split <;> rfl
  · rfl

theorem enter_transient (s : Status) (val : RwEvtType) : (s.enter val).transient = val := by
  simp only [Status.enter, mhdrSetAbnormalStatus]
  split
  · split <;> rfl
  · rfl

theorem Accounts.go (h : Accounts w outs) (t : Fin n) :
    Accounts (w.go t).1 (outs ++ [(w.go t).2]) := by
  unfold World.go
  cases hpc : w.pc t with
  | idle => exact h.nothing
  | changed val =>
    refine h.move w.status t .idle _ (fun v => ?_) ?_ ?_ ?_
    · rw [hpc]
      cases w.status.cb <;> simp
    · rw [hpc]
      cases w.status.cb <;> simp [Shown.isAssigned, Shown.isOverTold]
    · cases w.status.cb <;> simp
    · cases w.status.cb <;> simp [Shown.Untold]
  | unconnected =>
    exact h.move w.status t (.comparing _) .nothing (fun v => by simp [hpc])
      (by simp [hpc, Shown.isAssigned, Shown.isOverTold]) (by simp) False.elim
  | comparing val =>
    refine h.move w.status t (if val ≠ w.status.abnormal then .checked else .idle) .nothing
      (fun v => ?_) ?_ (by simp) False.elim
    · rw [hpc]
      by_cases hval : val = w.status.abnormal <;> simp [hval]
    · rw [hpc]
      by_cases hval : val = w.status.abnormal <;>
        simp [hval, Shown.isAssigned, Shown.isOverTold]
  | checked =>
    exact h.move w.status t (.loaded _) (.loaded _) (fun v => by simp [hpc])
      (by simp [hpc, Shown.isAssigned, Shown.isOverTold]) (by simp) False.elim
  | loaded val =>
    exact h.move (w.status.assign val) t .assigned (.assigned val) (fun v => by simp [hpc])
      (by simp [hpc, Shown.isAssigned, Shown.isOverTold]) (by simp) False.elim
  | assigned =>
    refine h.move w.status t .idle _ (fun v => ?_) ?_ ?_ ?_
    · rw [hpc]
      cases w.status.cb <;> simp
    · rw [hpc]
      cases w.status.cb <;> simp [Shown.isAssigned, Shown.isOverTold]
    · cases w.status.cb <;> simp
    · cases w.status.cb <;> simp [Shown.Untold]
  | registered =>
    exact h.move w.status t .idle (.first w.status.transient) (fun v => by simp [hpc])
      (by simp [hpc, Shown.isAssigned, Shown.isOverTold]) (by simp) False.elim

theorem Accounts.next (h : Accounts w outs) (i : Input n) :
    Accounts (w.next i).1 (outs ++ [(w.next i).2]) := by
  cases i with
  | set t val =>
    by_cases hpc : w.pc t = .idle
    · simp only [World.next, if_pos hpc]
      refine h.move (w.status.enter val) t _ _ (fun v => ?_) ?_ ?_ False.elim
      · rw [hpc]
        by_cases hval : w.status.transient = val <;> simp [hval]
      · rw [hpc]
        by_cases hval : w.status.transient = val <;> simp [hval, Shown.isAssigned, Shown.isOverTold]
      · rw [enter_cb]
        simp
    · simp only [World.next, if_neg hpc]
      exact h.nothing
  | reconnectOver t =>
    by_cases hover : w.pc t = .idle ∧ .staConnected ≠ w.status.transient
    · simp only [World.next, if_pos hover]
      exact h.move w.status t .unconnected .nothing (fun v => by simp [hover.1])
        (by simp [hover.1, Shown.isAssigned, Shown.isOverTold]) (by simp) False.elim
    · simp only [World.next, if_neg hover]
      exact h.nothing
  | register t =>
    by_cases hpc : w.pc t = .idle
    · simp only [World.next, if_pos hpc]
      exact h.move w.status.register t .registered .registered (fun v => by simp [hpc])
        (by simp [hpc, Shown.isAssigned, Shown.isOverTold]) (fun _ => rfl) False.elim
    · simp only [World.next, if_neg hpc]
      exact h.nothing
  | go t => exact h.go t

theorem accounts_start (n : Nat) : Accounts (World.start n) [] where
  sets val := by simp [World.start, waiting]
  overs := by simp [World.start, waiting]
  cb := nofun
  after := .nil

/-- In every order of the steps of any number of threads, each change of the status is told once, or
was found with no callback set, or is on its way; once the callback is set none is left out. -/
theorem told_once (n : Nat) (inputs : List (Input n)) :
    ∃ w outs, Machine.run step (World.start n) inputs = some (w, outs) ∧ Accounts w outs :=
  Machine.run_total (fun w _ i h _ => ⟨(w.next i).1, (w.next i).2, rfl, h.next i⟩)
    (accounts_start n) (Machine.legal_true _ _)

end

/-! ## The abnormal status -/

/-- The statuses that were set, in order. -/
def history (outs : List Shown) : List RwEvtType := outs.filterMap fun
  | .set val _ => some val
  | _ => none

/-- The first lasting status, or else the last abnormal one. -/
def worst (hist : List RwEvtType) : RwEvtType :=
  match hist.find? lasting with
  | some val => val
  | none => ((hist.filter mhdrIsStationAbnormalStatus).getLast?).getD .staIdle

section
variable {hist : List RwEvtType} {val : RwEvtType}

theorem worst_of_find (h : hist.find? lasting = some val) : worst hist = val := by
  rw [worst, h]

theorem worst_of_none (h : hist.find? lasting = none) :
    worst hist = ((hist.filter mhdrIsStationAbnormalStatus).getLast?).getD .staIdle := by
  rw [worst, h]

/-- The worst status is a lasting one just when one was set. -/
theorem lasting_worst : lasting (worst hist) ↔ hist.find? lasting = some (worst hist) := by
  cases hfind : hist.find? lasting with
  | some val =>
    rw [worst_of_find hfind]
    exact iff_of_true (List.find?_some hfind) rfl
  | none =>
    refine iff_of_false ?_ nofun
    rw [worst_of_none hfind]
    cases hlast : (hist.filter mhdrIsStationAbnormalStatus).getLast? with
    | none => decide
    | some val =>
      have hmem := List.mem_of_mem_filter (List.mem_of_getLast? hlast)
      exact List.find?_eq_none.mp hfind val hmem

/-- A lasting status stays the worst. -/
theorem worst_append (h : lasting (worst hist)) (post : List RwEvtType) :
    worst (hist ++ post) = worst hist := by
  refine worst_of_find ?_
  rw [List.find?_append, lasting_worst.mp h, Option.some_or]

theorem find_none (h : ¬lasting (worst hist)) : hist.find? lasting = none := by
  cases hfind : hist.find? lasting with
  | none => rfl
  | some val =>
    rw [worst_of_find hfind] at h
    exact absurd (List.find?_some hfind) h

theorem abnormal_of_lasting (h : lasting val) : mhdrIsStationAbnormalStatus val = true := by
  rcases of_decide_eq_true h with rfl | rfl <;> rfl

theorem worst_concat (hist : List RwEvtType) (val : RwEvtType) :
    worst (hist ++ [val]) =
      if mhdrIsStationAbnormalStatus val ∧ ¬lasting (worst hist) then val else worst hist := by
  by_cases hlasting : lasting (worst hist)
  · rw [if_neg fun h => h.2 hlasting, worst_append hlasting]
  have hnone := find_none hlasting
  cases hval : lasting val with
  | true =>
    rw [if_pos ⟨abnormal_of_lasting hval, hlasting⟩]
    exact worst_of_find (by simp [List.find?_append, hnone, hval])
  | false =>
    rw [worst_of_none (by simp [List.find?_append, hnone, hval]), List.filter_append]
    cases hab : mhdrIsStationAbnormalStatus val with
    | true => simp [hab, hlasting]
    | false => simp [hab, worst_of_none hnone]

theorem enter_abnormal (s : Status) (val : RwEvtType) : (s.enter val).abnormal =
    if mhdrIsStationAbnormalStatus val ∧ ¬lasting s.abnormal then val else s.abnormal := by
  simp only [Status.enter, mhdrSetAbnormalStatus]
  cases mhdrIsStationAbnormalStatus val <;> cases lasting s.abnormal <;> simp

theorem history_append (outs outs' : List Shown) :
    history (outs ++ outs') = history outs ++ history outs' := List.filterMap_append

end

/-- The abnormal status is the worst that was set, and that is what the end of a reconnection reads
and then assigns. -/
structure KeepsWorst (w : World n) (outs : List Shown) : Prop where
  abnormal : w.status.abnormal = worst (history outs)
  loaded : ∀ pre val post, outs = pre ++ .loaded val :: post → val = worst (history pre)
  assigned : ∀ pre val post, outs = pre ++ .assigned val :: post → .loaded val ∈ pre
  held : ∀ t val, w.pc t = .loaded val → .loaded val ∈ outs

section
variable {w : World n} {outs : List Shown} {o : Shown}

/-- What is shown last stands last. -/
theorem eq_concat {pre post : List Shown} {x : Shown} (h : outs ++ [o] = pre ++ x :: post) :
    pre = outs ∧ x = o ∨ ∃ post', outs = pre ++ x :: post' := by
  rcases List.eq_nil_or_concat post with rfl | ⟨post', b, rfl⟩
  · obtain ⟨rfl, ho⟩ := List.append_inj' h rfl
    exact Or.inl ⟨rfl, (List.singleton_inj.mp ho).symm⟩
  · have heq : outs ++ [o] = (pre ++ x :: post') ++ [b] := by
      rw [h, List.concat_eq_append, List.append_assoc, List.cons_append]
    exact Or.inr ⟨post', (List.append_inj' heq rfl).1⟩

/-- A thread moves on, and the static variables may change. -/
theorem KeepsWorst.move (h : KeepsWorst w outs) (status : Status) (t : Fin n) (q : Pc) (o : Shown)
    (habnormal : status.abnormal = worst (history (outs ++ [o])))
    (hloaded : ∀ val, o = .loaded val → val = w.status.abnormal)
    (hassigned : ∀ val, o = .assigned val → w.pc t = .loaded val)
    (hheld : ∀ val, q = .loaded val → o = .loaded val) :
    KeepsWorst ((w.store status).goto t q) (outs ++ [o]) where
  abnormal := habnormal
  loaded pre val post heq := by
    rcases eq_concat heq with ⟨rfl, ho⟩ | ⟨post', houts⟩
    · rw [hloaded val ho.symm, h.abnormal]
    · exact h.loaded pre val post' houts
  assigned pre val post heq := by
    rcases eq_concat heq with ⟨rfl, ho⟩ | ⟨post', houts⟩
    · exact h.held t val (hassigned val ho.symm)
    · exact h.assigned pre val post' houts
  held u val hu := by
    by_cases htu : u = t
    · subst htu
      have hq : Function.update w.pc u q u = .loaded val := hu
      rw [Function.update_self] at hq
      exact List.mem_append_right _ (List.mem_singleton.mpr (hheld val hq).symm)
    · have hold : Function.update w.pc t q u = .loaded val := hu
      rw [Function.update_of_ne htu] at hold
      exact List.mem_append_left _ (h.held u val hold)

/-- A step that sets no status. -/
theorem KeepsWorst.other (h : KeepsWorst w outs) (status : Status) (t : Fin n) (q : Pc) (o : Shown)
    (habnormal : status.abnormal = w.status.abnormal) (ho : history [o] = [])
    (hloaded : ∀ val, o = .loaded val → val = w.status.abnormal)
    (hassigned : ∀ val, o = .assigned val → w.pc t = .loaded val)
    (hheld : ∀ val, q = .loaded val → o = .loaded val) :
    KeepsWorst ((w.store status).goto t q) (outs ++ [o]) := by
  refine h.move status t q o ?_ hloaded hassigned hheld
  rw [habnormal, h.abnormal, history_append, ho, List.append_nil]

/-- Nothing happens. -/
theorem KeepsWorst.nothing (h : KeepsWorst w outs) : KeepsWorst w (outs ++ [.nothing]) where
  abnormal := by
    rw [h.abnormal, history_append]
    exact congrArg worst (List.append_nil _).symm
  loaded pre val post heq := by
    rcases eq_concat heq with ⟨-, ho⟩ | ⟨post', houts⟩
    · cases ho
    · exact h.loaded pre val post' houts
  assigned pre val post heq := by
    rcases eq_concat heq with ⟨-, ho⟩ | ⟨post', houts⟩
    · cases ho
    · exact h.assigned pre val post' houts
  held u val hu := List.mem_append_left _ (h.held u val hu)

theorem KeepsWorst.go (h : KeepsWorst w outs) (t : Fin n) :
    KeepsWorst (w.go t).1 (outs ++ [(w.go t).2]) := by
  unfold World.go
  cases hpc : w.pc t with
  | idle => exact h.nothing
  | changed val => cases w.status.cb <;> exact h.other w.status t .idle _ rfl rfl nofun nofun nofun
  | unconnected => exact h.other w.status t (.comparing _) .nothing rfl rfl nofun nofun nofun
  | comparing val =>
    refine h.other w.status t _ .nothing rfl rfl nofun nofun fun v => ?_
    split <;> exact nofun
  | checked =>
    exact h.other w.status t (.loaded _) (.loaded _) rfl rfl
      (fun v heq => (Shown.loaded.inj heq).symm) nofun
      (fun v heq => congrArg Shown.loaded (Pc.loaded.inj heq))
  | loaded val =>
    exact h.other (w.status.assign val) t .assigned (.assigned val) rfl rfl nofun
      (fun v heq => hpc.trans (congrArg Pc.loaded (Shown.assigned.inj heq))) nofun
  | assigned => cases w.status.cb <;> exact h.other w.status t .idle _ rfl rfl nofun nofun nofun
  | registered => exact h.other w.status t .idle (.first _) rfl rfl nofun nofun nofun

theorem KeepsWorst.next (h : KeepsWorst w outs) (i : Input n) :
    KeepsWorst (w.next i).1 (outs ++ [(w.next i).2]) := by
  cases i with
  | set t val =>
    by_cases hpc : w.pc t = .idle
    · simp only [World.next, if_pos hpc]
      refine h.move (w.status.enter val) t _ _ ?_ nofun nofun fun v => ?_
      · rw [enter_abnormal, h.abnormal, history_append]
        exact (worst_concat _ val).symm
      · split <;> exact nofun
    · simp only [World.next, if_neg hpc]
      exact h.nothing
  | reconnectOver t =>
    by_cases hover : w.pc t = .idle ∧ .staConnected ≠ w.status.transient
    · simp only [World.next, if_pos hover]
      exact h.other w.status t .unconnected .nothing rfl rfl nofun nofun nofun
    · simp only [World.next, if_neg hover]
      exact h.nothing
  | register t =>
    by_cases hpc : w.pc t = .idle
    · simp only [World.next, if_pos hpc]
      exact h.other w.status.register t .registered .registered rfl rfl nofun nofun nofun
    · simp only [World.next, if_neg hpc]
      exact h.nothing
  | go t => exact h.go t

theorem keepsWorst_start (n : Nat) : KeepsWorst (World.start n) [] where
  abnormal := rfl
  loaded _ _ _ heq := by cases (List.append_eq_nil_iff.mp heq.symm).2
  assigned _ _ _ heq := by cases (List.append_eq_nil_iff.mp heq.symm).2
  held := nofun

theorem keepsWorst_run (n : Nat) (inputs : List (Input n)) :
    ∃ w outs, Machine.run step (World.start n) inputs = some (w, outs) ∧ KeepsWorst w outs :=
  Machine.run_total (fun w _ i h _ => ⟨(w.next i).1, (w.next i).2, rfl, h.next i⟩)
    (keepsWorst_start n) (Machine.legal_true _ _)

end

/-- In every order of the steps, what `mhdr_set_station_status_when_reconnect_over` reads to assign
is the first wrong password or missing access point that was ever set, and the last abnormal status
only if there was none of them: once there is one, it stays. -/
theorem reconnect_over_worst (n : Nat) (inputs : List (Input n)) :
    ∃ w outs, Machine.run step (World.start n) inputs = some (w, outs) ∧
      (∀ pre val post, outs = pre ++ .loaded val :: post → val = worst (history pre)) ∧
      (∀ pre val post, outs = pre ++ .assigned val :: post → .loaded val ∈ pre) ∧
      ∀ pre post, outs = pre ++ post → lasting (worst (history pre)) →
        w.status.abnormal = worst (history pre) := by
  obtain ⟨w, outs, hrun, h⟩ := keepsWorst_run n inputs
  refine ⟨w, outs, hrun, h.loaded, h.assigned, fun pre post heq hlasting => ?_⟩
  rw [h.abnormal, heq, history_append, worst_append hlasting]

/-! ## `tkl_wifi.c` -/

/-- The events of `WF_EVENT_E` that the station is told of. -/
inductive WfEvent where
  | connected
  | connectFailed
  | disconnected
  deriving DecidableEq

/-- Whether `wifi_event_cb` is set, `connect_status` and `set_station_flag`. -/
structure Tkl where
  eventCb : Bool
  connectStatus : RwEvtType
  setStationFlag : Bool

/-- `_wifi_station_status_cb` -/
def wifiStationStatusCb (t : Tkl) (type : RwEvtType) : Tkl × Option WfEvent :=
  if t.eventCb then
    match type with
    | .staGotIp => ({ t with connectStatus := type }, some .connected)
    | .staConnectFailed | .staNoApFound | .staAssocFull | .staPasswordWrong | .staDhcpFailed =>
      ({ t with connectStatus := type }, some .connectFailed)
    | .staDisconnected | .staBeaconLose => ({ t with connectStatus := type }, some .disconnected)
    | .staScanning => ({ t with connectStatus := type }, none)
    | _ => (t, none)
  else (t, none)

/-- The static variables of both files. -/
structure Station where
  status : Status
  tkl : Tkl

def Station.start : Station := ⟨.start, false, .staIdle, false⟩

/-- A call of `station_status_cb`: the status, whether it finds `wifi_event_cb` set, and what it
calls that with. -/
structure Told where
  type : RwEvtType
  heard : Bool
  event : Option WfEvent

/-- `station_status_cb(val)` -/
def Station.tell (s : Station) (val : RwEvtType) : Station × Option Told :=
  let r := wifiStationStatusCb s.tkl val
  ({ s with tkl := r.1 }, some ⟨val, s.tkl.eventCb, r.2⟩)

/-- `mhdr_set_station_status` -/
def mhdrSetStationStatus (s : Station) (val : RwEvtType) : Station × Option Told :=
  let tmp := s.status.transient
  let s := { s with status := s.status.enter val }
  if tmp ≠ val then if s.status.cb then s.tell val else (s, none) else (s, none)

/-- `mhdr_set_station_status_when_reconnect_over` -/
def mhdrSetStationStatusWhenReconnectOver (s : Station) : Station × Option Told :=
  if s.status.Over then
    let s := { s with status := s.status.assign s.status.abnormal }
    if s.status.cb then s.tell s.status.transient else (s, none)
  else (s, none)

/-- `mhdr_set_station_status_cb` -/
def mhdrSetStationStatusCb (s : Station) : Station × Option Told :=
  let s := { s with status := s.status.register }
  s.tell s.status.transient

/-- `tkl_wifi_init` -/
def tklWifiInit (s : Station) (cb : Bool) : Station × Option Told :=
  ({ s with tkl := { s.tkl with eventCb := cb } }, none)

/-- `tkl_wifi_station_connect` and `tkl_wifi_station_fast_connect` before they start the station. -/
def tklWifiStationConnect (s : Station) : Station × Option Told :=
  if s.tkl.setStationFlag then (s, none)
  else mhdrSetStationStatusCb { s with tkl := { s.tkl with setStationFlag := true } }

/-- A call. -/
inductive Call where
  | wifiInit (cb : Bool)
  | stationConnect
  | set (val : RwEvtType)
  | reconnectOver

def Call.make (s : Station) : Call → Station × Option Told
  | .wifiInit cb => tklWifiInit s cb
  | .stationConnect => tklWifiStationConnect s
  | .set val => mhdrSetStationStatus s val
  | .reconnectOver => mhdrSetStationStatusWhenReconnectOver s

/-- Calls that do not overlap. -/
def calls : Machine Station Call (Option Told) := fun s c => some (c.make s)

/-! ## Calls that do not overlap -/

/-- The event for a status. -/
def wfEvent : RwEvtType → Option WfEvent
  | .staGotIp => some .connected
  | .staConnectFailed | .staNoApFound | .staAssocFull | .staPasswordWrong | .staDhcpFailed =>
    some .connectFailed
  | .staDisconnected | .staBeaconLose => some .disconnected
  | _ => none

/-- `connect_status` follows the status. -/
def tracked (val : RwEvtType) : Bool := (wfEvent val).isSome || val = .staScanning

/-- The statuses that the callback was told, and of these those with `wifi_event_cb` set. -/
def types (outs : List (Option Told)) : List RwEvtType := (outs.filterMap id).map Told.type

def heard (outs : List (Option Told)) : List RwEvtType :=
  ((outs.filterMap id).filter Told.heard).map Told.type

/-- The events that the application was told. -/
def events (outs : List (Option Told)) : List WfEvent := (outs.filterMap id).filterMap Told.event

/-- The callback is told no status twice in a row, and the last is the status now; the events are
those of the statuses, and `connect_status` is the last of them that it follows. -/
structure Follows (s : Station) (outs : List (Option Told)) : Prop where
  flag : s.tkl.setStationFlag = s.status.cb
  last : (types outs).getLast? = if s.status.cb then some s.status.transient else none
  chain : (types outs).IsChain (· ≠ ·)
  events : events outs = (heard outs).filterMap wfEvent
  kept : s.tkl.connectStatus = ((heard outs).filter tracked).getLast?.getD .staIdle

section
variable {s s' : Station} {outs : List (Option Told)} {o : Option Told}

theorem wifiStationStatusCb_eq (t : Tkl) (type : RwEvtType) : wifiStationStatusCb t type =
    if t.eventCb then
      ({ t with connectStatus := if tracked type then type else t.connectStatus }, wfEvent type)
    else (t, none) := by
  unfold wifiStationStatusCb
  cases type <;> rfl

theorem types_concat (outs : List (Option Told)) (o : Option Told) :
    types (outs ++ [o]) = types outs ++ (o.map Told.type).toList := by
  cases o <;> simp [types]

theorem heard_concat (outs : List (Option Told)) (o : Option Told) :
    heard (outs ++ [o]) = heard outs ++ ((o.filter Told.heard).map Told.type).toList := by
  cases o with
  | none => simp [heard]
  | some told => cases hheard : told.heard <;> simp [heard, hheard, Option.filter]

theorem events_concat (outs : List (Option Told)) (o : Option Told) :
    events (outs ++ [o]) = events outs ++ (o.bind Told.event).toList := by
  cases o with
  | none => simp [StationStatus.events]
  | some told => cases hevent : told.event <;> simp [StationStatus.events, hevent]

/-- A call that does not come to the callback. -/
theorem Follows.silent (h : Follows s outs) (hcb : s'.status.cb = s.status.cb)
    (hsame : s.status.cb = true → s'.status.transient = s.status.transient)
    (hflag : s'.tkl.setStationFlag = s.tkl.setStationFlag)
    (hkept : s'.tkl.connectStatus = s.tkl.connectStatus) : Follows s' (outs ++ [none]) where
  flag := by rw [hflag, hcb, h.flag]
  last := by
    rw [types_concat, hcb]
    cases hset : s.status.cb with
    | false => simpa [hset] using h.last
    | true => simpa [hset, hsame hset] using h.last
  chain := by simpa [types_concat] using h.chain
  events := by simpa [events_concat, heard_concat] using h.events
  kept := by simpa [hkept, heard_concat] using h.kept

/-- Without a callback nothing is told. -/
theorem Follows.unheard (h : Follows s outs) (hset : s.status.cb = false)
    (hcb : s'.status.cb = s.status.cb) (hflag : s'.tkl.setStationFlag = s.tkl.setStationFlag)
    (hkept : s'.tkl.connectStatus = s.tkl.connectStatus) : Follows s' (outs ++ [none]) :=
  h.silent hcb (fun hset' => absurd (hset.symm.trans hset') Bool.false_ne_true) hflag hkept

/-- The callback is told a status that is new, or the first. -/
theorem Follows.tell (h : Follows s outs) (s' : Station) (hcb : s'.status.cb = true)
    (hflag : s'.tkl.setStationFlag = true)
    (hnew : s.status.cb = true → s.status.transient ≠ s'.status.transient)
    (hkept : s'.tkl.connectStatus = s.tkl.connectStatus) :
    Follows (s'.tell s'.status.transient).1 (outs ++ [(s'.tell s'.status.transient).2]) := by
  unfold Station.tell
  rw [wifiStationStatusCb_eq]
  constructor
  · cases s'.tkl.eventCb <;> exact hflag.trans hcb.symm
  · simp [types_concat, hcb]
  · rw [types_concat, Option.map_some, Option.toList_some, List.isChain_append]
    refine ⟨h.chain, List.isChain_singleton _, ?_⟩
    intro x hx y hy
    rw [h.last] at hx
    cases hset : s.status.cb with
    | false => simp [hset] at hx
    | true =>
      simp only [hset, if_true, Option.mem_some_iff] at hx
      cases Option.mem_some_iff.mp hy
      exact hx ▸ hnew hset
  · cases hev : s'.tkl.eventCb with
    | false => simpa [events_concat, heard_concat, Option.filter] using h.events
    | true =>
      rw [events_concat, heard_concat, h.events]
      cases hwf : wfEvent s'.status.transient <;> simp [Option.filter, hwf]
  · cases hev : s'.tkl.eventCb with
    | false => simpa [heard_concat, Option.filter, hkept] using h.kept
    | true =>
      rw [heard_concat]
      cases htr : tracked s'.status.transient
      · simpa [Option.filter, htr, hkept] using h.kept
      · simp [Option.filter, htr]

theorem Follows.set (h : Follows s outs) (val : RwEvtType) :
    Follows (mhdrSetStationStatus s val).1 (outs ++ [(mhdrSetStationStatus s val).2]) := by
  have hcb : (s.status.enter val).cb = s.status.cb := enter_cb _ _
  have htransient : (s.status.enter val).transient = val := enter_transient _ _
  unfold mhdrSetStationStatus
  simp only
  by_cases hval : s.status.transient = val
  · rw [if_neg (not_not_intro hval)]
    exact h.silent hcb (fun _ => htransient.trans hval.symm) rfl rfl
  · rw [if_pos hval]
    cases hset : s.status.cb with
    | false =>
      rw [hcb, hset, if_neg Bool.false_ne_true]
      exact h.unheard hset hcb rfl rfl
    | true =>
      rw [hcb, hset, if_pos rfl]
      have htell := h.tell { s with status := s.status.enter val } (hcb.trans hset)
        (h.flag.trans hset) (fun _ => htransient.symm ▸ hval) rfl
      rwa [htransient] at htell

theorem Follows.reconnectOver (h : Follows s outs) :
    Follows (mhdrSetStationStatusWhenReconnectOver s).1
      (outs ++ [(mhdrSetStationStatusWhenReconnectOver s).2]) := by
  unfold mhdrSetStationStatusWhenReconnectOver
  by_cases hover : s.status.Over
  · rw [if_pos hover]
    simp only
    cases hset : s.status.cb with
    | false =>
      rw [cb_assign, hset, if_neg Bool.false_ne_true]
      exact h.unheard hset rfl rfl rfl
    | true =>
      rw [cb_assign, hset, if_pos rfl]
      exact h.tell { s with status := s.status.assign s.status.abnormal } hset
        (h.flag.trans hset) (fun _ => hover.2) rfl
  · rw [if_neg hover]
    exact h.silent rfl (fun _ => rfl) rfl rfl

theorem Follows.make (h : Follows s outs) (c : Call) :
    Follows (c.make s).1 (outs ++ [(c.make s).2]) := by
  cases c with
  | wifiInit cb => exact h.silent rfl (fun _ => rfl) rfl rfl
  | stationConnect =>
    simp only [Call.make, tklWifiStationConnect]
    cases hflag : s.tkl.setStationFlag with
    | true =>
      rw [if_pos rfl]
      exact h.silent rfl (fun _ => rfl) rfl rfl
    | false =>
      rw [if_neg Bool.false_ne_true]
      exact h.tell ⟨s.status.register, { s.tkl with setStationFlag := true }⟩ rfl
        rfl (fun hset => by rw [← h.flag, hflag] at hset; cases hset) rfl
  | set val => exact h.set val
  | reconnectOver => exact h.reconnectOver

end

/-- In every sequence of calls the callback is told what the status becomes, never the same twice in
a row, and from the registration on the last is the status now; while `wifi_event_cb` is set the
application is told the events of just these statuses in their order. -/
theorem calls_follow (cs : List Call) :
    ∃ s outs, Machine.run calls .start cs = some (s, outs) ∧ Follows s outs :=
  Machine.run_total (fun s _ c h _ => ⟨(c.make s).1, (c.make s).2, rfl, h.make c⟩)
    ⟨rfl, rfl, .nil, rfl, rfl⟩ (Machine.legal_true _ _)

/-! ## A call is the steps of one thread -/

/-- The status that a step calls `station_status_cb` with. -/
def Shown.call : Shown → Option RwEvtType
  | .told val | .overTold val | .first val => some val
  | _ => none

section
variable {w : World n} {t : Fin n}

@[simp] theorem status_goto (w : World n) (t : Fin n) (p : Pc) : (w.goto t p).status = w.status :=
  rfl

@[simp] theorem status_store (w : World n) (s : Status) : (w.store s).status = s := rfl

@[simp] theorem pc_store (w : World n) (s : Status) : (w.store s).pc = w.pc := rfl

@[simp] theorem pc_goto (w : World n) (t : Fin n) (p : Pc) : (w.goto t p).pc t = p :=
  Function.update_self ..

@[simp] theorem store_goto (w : World n) (t : Fin n) (p : Pc) (s : Status) :
    (w.goto t p).store s = (w.store s).goto t p := rfl

@[simp] theorem goto_goto (w : World n) (t : Fin n) (p q : Pc) :
    (w.goto t p).goto t q = w.goto t q := by
  rw [World.goto, World.goto, World.goto, Function.update_idem]

theorem goto_idle (h : w.pc t = .idle) : w.goto t .idle = w := by
  rw [World.goto, ← h, Function.update_eq_self]

theorem store_goto_idle (h : w.pc t = .idle) (s : Status) : (w.store s).goto t .idle = w.store s :=
  goto_idle (w := w.store s) h

/-- A thread that is alone in `mhdr_set_station_status` does what the call does. -/
theorem set_alone (hpc : w.pc t = .idle) (tkl : Tkl) (val : RwEvtType) :
    ∃ outs, Machine.run step w [.set t val, .go t] =
        some (w.store (mhdrSetStationStatus ⟨w.status, tkl⟩ val).1.status, outs) ∧
      outs.filterMap Shown.call =
        ((mhdrSetStationStatus ⟨w.status, tkl⟩ val).2.map Told.type).toList := by
  have hidle := store_goto_idle hpc (w.status.enter val)
  have hcb := enter_cb w.status val
  by_cases hval : w.status.transient = val
  · refine ⟨[.set val false, .nothing], ?_, ?_⟩
    · simp [Machine.run, step, World.next, World.go, hpc, hval, hidle, mhdrSetStationStatus]
    · simp [Shown.call, mhdrSetStationStatus, hval]
  · cases hset : w.status.cb with
    | false =>
      refine ⟨[.set val true, .untold val], ?_, ?_⟩
      · simp [Machine.run, step, World.next, World.go, hpc, hval, hidle, hcb, hset,
          mhdrSetStationStatus]
      · simp [Shown.call, mhdrSetStationStatus, hval, hcb, hset]
    | true =>
      refine ⟨[.set val true, .told val], ?_, ?_⟩
      · simp [Machine.run, step, World.next, World.go, hpc, hval, hidle, hcb, hset,
          mhdrSetStationStatus, Station.tell]
      · have htold : (mhdrSetStationStatus ⟨w.status, tkl⟩ val).2.map Told.type = some val := by
          simp [mhdrSetStationStatus, Station.tell, hval, hcb, hset]
        rw [htold]
        rfl

/-- So does one in `mhdr_set_station_status_when_reconnect_over`. -/
theorem reconnectOver_alone (hpc : w.pc t = .idle) (tkl : Tkl) :
    ∃ outs, Machine.run step w [.reconnectOver t, .go t, .go t, .go t, .go t, .go t] = some
        (w.store (mhdrSetStationStatusWhenReconnectOver ⟨w.status, tkl⟩).1.status, outs) ∧
      outs.filterMap Shown.call =
        ((mhdrSetStationStatusWhenReconnectOver ⟨w.status, tkl⟩).2.map Told.type).toList := by
  have hwhole : w.store w.status = w := rfl
  have hback := goto_idle hpc
  by_cases hconnected : .staConnected = w.status.transient
  · have hover : ¬w.status.Over := fun h => h.1 hconnected
    refine ⟨List.replicate 6 .nothing, ?_, ?_⟩
    · simp [Machine.run, step, World.next, World.go, hpc, hconnected, hover, hwhole,
        mhdrSetStationStatusWhenReconnectOver, List.replicate]
    · simp [Shown.call, mhdrSetStationStatusWhenReconnectOver, hover, List.replicate]
  by_cases hsame : w.status.transient = w.status.abnormal
  · have hover : ¬w.status.Over := fun h => h.2 hsame
    rw [hsame] at hconnected
    refine ⟨List.replicate 6 .nothing, ?_, ?_⟩
    · simp [Machine.run, step, World.next, World.go, hpc, hconnected, hsame, hback, hover, hwhole,
        mhdrSetStationStatusWhenReconnectOver, List.replicate]
    · simp [Shown.call, mhdrSetStationStatusWhenReconnectOver, hover, List.replicate]
  have hover : w.status.Over := ⟨hconnected, hsame⟩
  have hidle := store_goto_idle hpc (w.status.assign w.status.abnormal)
  cases hset : w.status.cb with
  | false =>
    refine ⟨[.nothing, .nothing, .nothing, .loaded w.status.abnormal, .assigned w.status.abnormal,
      .overUntold], ?_, ?_⟩
    · simp [Machine.run, step, World.next, World.go, hpc, hconnected, hsame, hover, hidle, hset,
        mhdrSetStationStatusWhenReconnectOver]
    · simp [Shown.call, mhdrSetStationStatusWhenReconnectOver, hover, hset]
  | true =>
    refine ⟨[.nothing, .nothing, .nothing, .loaded w.status.abnormal, .assigned w.status.abnormal,
      .overTold (w.status.assign w.status.abnormal).transient], ?_, ?_⟩
    · simp [Machine.run, step, World.next, World.go, hpc, hconnected, hsame, hover, hidle, hset,
        mhdrSetStationStatusWhenReconnectOver, Station.tell]
    · have htold : (mhdrSetStationStatusWhenReconnectOver ⟨w.status, tkl⟩).2.map Told.type =
          some (w.status.assign w.status.abnormal).transient := by
        simp [mhdrSetStationStatusWhenReconnectOver, Station.tell, hover, hset]
      rw [htold]
      rfl

/-- So does one in `mhdr_set_station_status_cb`. -/
theorem register_alone (hpc : w.pc t = .idle) (tkl : Tkl) :
    ∃ outs, Machine.run step w [.register t, .go t] =
        some (w.store (mhdrSetStationStatusCb ⟨w.status, tkl⟩).1.status, outs) ∧
      outs.filterMap Shown.call =
        ((mhdrSetStationStatusCb ⟨w.status, tkl⟩).2.map Told.type).toList := by
  refine ⟨[.registered, .first w.status.transient], ?_, rfl⟩
  simp [Machine.run, step, World.next, World.go, hpc, store_goto_idle hpc w.status.register,
    mhdrSetStationStatusCb, Station.tell]
  rfl

end

end TuyaSdk.StationStatus
