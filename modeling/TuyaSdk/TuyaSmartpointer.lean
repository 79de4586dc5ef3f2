import TuyaSdk.Lib.Bytes
import TuyaSdk.Lib.Machine

/-!
# The smart pointer (`tuya_smartpointer.c`)

An object with a reference count, shared by any number of tasks. `get` and `put` change the
count under the object's mutex, so each critical section is one step; a `put` then decides
outside it, by the count it saw, whether to release the object, and frees the data and the
object in two further steps. Steps of different tasks interleave freely. A step that reads
the object after it was freed has no result.
-/

namespace TuyaSdk.TuyaSmartpointer

open Lib

abbrev Task := Nat

/-- `SIZEOF(SMARTPOINTER_T)` -/
abbrev sizeofSmartpointer : Nat := 20

/-- `SMARTPOINTER_T`, less the mutex. -/
structure Smartpointer where
  malk : Bool
  rfc : Nat
  dataLen : Nat
  data : Nat
  deriving DecidableEq, Repr

/-- `tuya_smartpointer_create`: the address and the contents of the object, or `none` for
`NULL`. `malloc` maps the size asked for to the address returned. -/
def tuyaSmartpointerCreate (data dataLen : Nat) (malk : Bool) (cnt : Nat) (malloc : Nat → Nat) :
    Option (Nat × Smartpointer) :=
  if dataLen = 0 ∨ data = 0 then none
  else
    let spData :=
      if malk then malloc (u32 (sizeofSmartpointer + dataLen)) else malloc sizeofSmartpointer
    if spData = 0 then none
    else
      -- memset(sp_data, 0, SIZEOF(SMARTPOINTER_T))
      let sp : Smartpointer := ⟨false, 0, 0, 0⟩
      let sp := { sp with data := if malk then spData + sizeofSmartpointer else data }
      some (spData, { sp with dataLen := dataLen, rfc := cnt })

/-- Where a `put` is, after its critical section. -/
inductive Stage where
  /-- The count it saw is not tested yet. -/
  | counted (rfc : Nat)
  /-- The data is freed, the object is not. -/
  | dataFreed
  deriving DecidableEq, Repr

/-- The object, the addresses given to `tkl_system_free` in order, the task behind each
counted reference, and the calls of `put` under way. -/
structure Sys where
  spData : Nat
  sp : Smartpointer
  freed : List Nat
  refs : List Task
  puts : List (Task × Stage)
  deriving DecidableEq, Repr

/-- One step of a task. -/
inductive Action where
  /-- `tuya_smartpointer_get` by `task`, for a reference of the task `owner`. -/
  | get (task owner : Task)
  /-- The critical section of `tuya_smartpointer_put`. -/
  | put (task : Task)
  /-- The next step of a `put` behind its critical section. -/
  | next (put : Task × Stage)
  deriving DecidableEq, Repr

/-- What a step does that is seen outside the object. -/
inductive Reply where
  | got
  | counted (rfc : Nat)
  | freed (addr : Nat)
  | returned
  deriving DecidableEq, Repr

/-- `tkl_system_free` -/
def Sys.free (s : Sys) (addr : Nat) : Sys := { s with freed := s.freed ++ [addr] }

/-- The critical section of `tuya_smartpointer_get`. -/
def tuyaSmartpointerGet (sp : Smartpointer) : Smartpointer := { sp with rfc := u32 (sp.rfc + 1) }

/-- The critical section of `tuya_smartpointer_put`; its `rfc` is the new count. -/
def tuyaSmartpointerPut (sp : Smartpointer) : Smartpointer := { sp with rfc := sub32 sp.rfc 1 }

theorem withRfc_malk (sp : Smartpointer) (n : Nat) : { sp with rfc := n }.malk = sp.malk := rfl

theorem withRfc_data (sp : Smartpointer) (n : Nat) : { sp with rfc := n }.data = sp.data := rfl

theorem put_malk (sp : Smartpointer) : (tuyaSmartpointerPut sp).malk = sp.malk :=
  withRfc_malk sp (sub32 sp.rfc 1)

theorem put_data (sp : Smartpointer) : (tuyaSmartpointerPut sp).data = sp.data :=
  withRfc_data sp (sub32 sp.rfc 1)

/-- One step of the system. -/
def step (s : Sys) : Action → Option (Sys × Reply)
  | .get _ owner =>
    if s.spData ∈ s.freed then none
    else some ({ s with sp := tuyaSmartpointerGet s.sp, refs := owner :: s.refs }, .got)
  | .put task =>
    if s.spData ∈ s.freed then none
    else
      let sp := tuyaSmartpointerPut s.sp
      some ({ s with
        sp := sp, refs := s.refs.erase task, puts := (task, .counted sp.rfc) :: s.puts },
        .counted sp.rfc)
  | .next (task, .counted 0) =>
    if s.spData ∈ s.freed then none
    else
      let s := { s with puts := s.puts.erase (task, .counted 0) }
      if s.sp.malk = false then
        some ({ s.free s.sp.data with puts := (task, .dataFreed) :: s.puts }, .freed s.sp.data)
      else some (s.free s.spData, .freed s.spData)
  | .next (task, .counted (rfc + 1)) =>
    some ({ s with puts := s.puts.erase (task, .counted (rfc + 1)) }, .returned)
  | .next (task, .dataFreed) =>
    let s := { s with puts := s.puts.erase (task, .dataFreed) }
    some (s.free s.spData, .freed s.spData)

/-- The system after a `create` that succeeded, with the tasks that hold its references. -/
def start (data dataLen : Nat) (malk : Bool) (cnt : Nat) (malloc : Nat → Nat)
    (refs : List Task) : Option Sys :=
  (tuyaSmartpointerCreate data dataLen malk cnt malloc).map fun r => ⟨r.1, r.2, [], refs, []⟩

/-! ## Ownership -/

/-- `get` and `put` are called by a task that holds a reference. -/
def Holding (s : Sys) : Action → Prop
  | .get task _ => task ∈ s.refs
  | .put task => task ∈ s.refs
  | .next put => put ∈ s.puts

/-- A `get` is called with fewer than `2 ^ 32 - 1` references. -/
def Countable (s : Sys) : Action → Prop
  | .get _ _ => s.refs.length + 1 < 2 ^ 32
  | _ => True

instance (s : Sys) (a : Action) : Decidable (Holding s a) := by
  unfold Holding
  split <;> infer_instance

instance (s : Sys) (a : Action) : Decidable (Countable s a) := by
  unfold Countable
  split <;> infer_instance

/-- The blocks that the object owns, in the order of their release. -/
def ownedBlocks (data : Nat) (malk : Bool) (spData : Nat) : List Nat :=
  if malk then [spData] else [data, spData]

/-- What holds of an object at any time: the blocks freed so far are owned by it, none is
freed while there are references, all are once every `put` has returned, and exactly one
`put` saw the count 0. -/
structure Owned (data : Nat) (malk : Bool) (spData : Nat) (s : Sys) (replies : List Reply) :
    Prop where
  freed_prefix : s.freed <+: ownedBlocks data malk spData
  freed_early : s.refs ≠ [] → s.freed = []
  freed_all : s.refs = [] → s.puts = [] → s.freed = ownedBlocks data malk spData
  counted_once : replies.count (.counted 0) = if s.refs = [] then 1 else 0

/-- A `put` that is releasing the object. -/
def Stage.releasing : Stage → Bool
  | .counted 0 => true
  | .counted (_ + 1) => false
  | .dataFreed => true

/-- The calls of `put` that are releasing the object. -/
def Sys.releasing (s : Sys) : List (Task × Stage) := s.puts.filter (·.2.releasing)

/-- How far the release is: what is freed, who is releasing, how many saw the count 0. -/
inductive Phase (data spData : Nat) :
    (refs : List Task) → (freed : List Nat) → List (Task × Stage) → Nat → Prop where
  | held {refs} (h : refs ≠ []) : Phase data spData refs [] [] 0
  | deciding (task) : Phase data spData [] [] [(task, .counted 0)] 1
  | half (task) : Phase data spData [] [data] [(task, .dataFreed)] 1
  | gone : Phase data spData [] [data, spData] [] 1

/-- The invariant of an object whose data is not embedded. -/
structure Inv (data spData : Nat) (s : Sys) (replies : List Reply) : Prop where
  spData_eq : s.spData = spData
  malk_eq : s.sp.malk = false
  data_eq : s.sp.data = data
  rfc_eq : s.sp.rfc = s.refs.length
  rfc_lt : s.sp.rfc < 2 ^ 32
  phase : Phase data spData s.refs s.freed s.releasing (replies.count (.counted 0))

section Steps

variable {data spData : Nat} {s : Sys} {replies : List Reply}

/-- Who is releasing after a call of `put` is taken out. -/
theorem filter_releasing_erase (puts : List (Task × Stage)) (p : Task × Stage) :
    (puts.erase p).filter (·.2.releasing) = (puts.filter (·.2.releasing)).erase p :=
  List.erase_filter.symm

theorem Phase.of_refs {refs : List Task} {freed : List Nat} {rel : List (Task × Stage)} {n : Nat}
    (h : Phase data spData refs freed rel n) (hr : refs ≠ []) :
    freed = [] ∧ rel = [] ∧ n = 0 := by
  cases h with
  | held _ => exact ⟨rfl, rfl, rfl⟩
  | deciding _ => exact absurd rfl hr
  | half _ => exact absurd rfl hr
  | gone => exact absurd rfl hr

theorem Phase.of_counted {refs : List Task} {freed : List Nat} {rel : List (Task × Stage)}
    {n : Nat} {task : Task} (h : Phase data spData refs freed rel n)
    (hm : (task, Stage.counted 0) ∈ rel) :
    refs = [] ∧ freed = [] ∧ rel = [(task, .counted 0)] ∧ n = 1 := by
  cases h with
  | held _ => cases hm
  | deciding t =>
    cases List.mem_singleton.mp hm
    exact ⟨rfl, rfl, rfl, rfl⟩
  | half t => cases List.mem_singleton.mp hm
  | gone => cases hm

theorem Phase.of_dataFreed {refs : List Task} {freed : List Nat} {rel : List (Task × Stage)}
    {n : Nat} {task : Task} (h : Phase data spData refs freed rel n)
    (hm : (task, Stage.dataFreed) ∈ rel) :
    refs = [] ∧ freed = [data] ∧ rel = [(task, .dataFreed)] ∧ n = 1 := by
  cases h with
  | held _ => cases hm
  | deciding t => cases List.mem_singleton.mp hm
  | half t =>
    cases List.mem_singleton.mp hm
    exact ⟨rfl, rfl, rfl, rfl⟩
  | gone => cases hm

theorem Inv.step_get (h : Inv data spData s replies) {task owner : Task} (ht : task ∈ s.refs)
    (hn : s.refs.length + 1 < 2 ^ 32) : ∃ s' r,
      step s (.get task owner) = some (s', r) ∧ Inv data spData s' (replies ++ [r]) := by
  obtain ⟨hfreed, hrel, hcount⟩ := h.phase.of_refs (List.ne_nil_of_mem ht)
  have halive : s.spData ∉ s.freed := hfreed ▸ List.not_mem_nil
  refine ⟨_, _, if_neg halive, ?_⟩
  have hrfc : (tuyaSmartpointerGet s.sp).rfc = s.refs.length + 1 := by
    rw [tuyaSmartpointerGet, h.rfc_eq, u32_of_lt hn]
  refine ⟨h.spData_eq, h.malk_eq, h.data_eq, hrfc, hrfc ▸ hn, ?_⟩
  have hzero : (replies ++ [Reply.got]).count (.counted 0) = 0 := by
    rw [List.count_append, hcount]
    rfl
  rw [hzero, hfreed]
  exact hrel ▸ Phase.held (List.cons_ne_nil _ _)

theorem Inv.step_put (h : Inv data spData s replies) {task : Task} (ht : task ∈ s.refs) :
    ∃ s' r, step s (.put task) = some (s', r) ∧ Inv data spData s' (replies ++ [r]) := by
  obtain ⟨hfreed, hrel, hcount⟩ := h.phase.of_refs (List.ne_nil_of_mem ht)
  have hpos : 0 < s.refs.length := List.length_pos_of_mem ht
  have hlen : (s.refs.erase task).length = s.refs.length - 1 := List.length_erase_of_mem ht
  have hrfc : (tuyaSmartpointerPut s.sp).rfc = (s.refs.erase task).length := by
    rw [tuyaSmartpointerPut, hlen, ← h.rfc_eq]
    exact sub32_of_le (by rw [h.rfc_eq]; exact hpos) h.rfc_lt
  have halive : s.spData ∉ s.freed := hfreed ▸ List.not_mem_nil
  have hlt : (tuyaSmartpointerPut s.sp).rfc < 2 ^ 32 := by
    have hlt := h.rfc_lt
    rw [hrfc, hlen, ← h.rfc_eq]
    omega
  refine ⟨_, _, if_neg halive, h.spData_eq, (put_malk _).trans h.malk_eq,
    (put_data _).trans h.data_eq, hrfc, hlt, ?_⟩
  dsimp only [Sys.releasing] at hrel ⊢
  rw [hrfc, List.count_append, hcount, hfreed]
  cases hrefs : s.refs.erase task with
  | nil =>
    have hphase : Phase data spData [] [] [(task, .counted 0)] 1 := Phase.deciding task
    rw [List.filter_cons_of_pos rfl, hrel]
    exact hphase
  | cons t ts =>
    rw [List.filter_cons_of_neg Bool.false_ne_true, hrel]
    exact Phase.held (List.cons_ne_nil _ _)

/-- A `put` that saw a positive count returns and changes nothing. -/
theorem Inv.step_return (h : Inv data spData s replies) {task : Task} {rfc : Nat} :
    ∃ s' r, step s (.next (task, .counted (rfc + 1))) = some (s', r) ∧
      Inv data spData s' (replies ++ [r]) := by
  refine ⟨_, _, rfl, h.spData_eq, h.malk_eq, h.data_eq, h.rfc_eq, h.rfc_lt, ?_⟩
  have hrel : (task, Stage.counted (rfc + 1)) ∉ s.puts.filter (·.2.releasing) :=
    fun hm => nomatch (List.mem_filter.mp hm).2
  dsimp only [Sys.releasing]
  rw [filter_releasing_erase, List.erase_of_not_mem hrel, List.count_append]
  exact h.phase

/-- The `put` that saw the count 0 frees the data. -/
theorem Inv.step_freeData (h : Inv data spData s replies) {task : Task}
    (hp : (task, Stage.counted 0) ∈ s.puts) : ∃ s' r,
      step s (.next (task, .counted 0)) = some (s', r) ∧ Inv data spData s' (replies ++ [r]) := by
  have hm : (task, Stage.counted 0) ∈ s.releasing := List.mem_filter.mpr ⟨hp, rfl⟩
  obtain ⟨hrefs, hfreed, hrel, hcount⟩ := h.phase.of_counted hm
  have halive : s.spData ∉ s.freed := hfreed ▸ List.not_mem_nil
  refine ⟨_, _, (if_neg halive).trans (if_pos h.malk_eq), h.spData_eq, h.malk_eq, h.data_eq,
    h.rfc_eq, h.rfc_lt, ?_⟩
  dsimp only [Sys.releasing, Sys.free] at hrel ⊢
  rw [List.filter_cons_of_pos rfl, filter_releasing_erase, hrel, List.erase_cons_head,
    List.count_append, hcount, hrefs, hfreed, h.data_eq]
  exact Phase.half task

/-- It then frees the object. -/
theorem Inv.step_freeObject (h : Inv data spData s replies) {task : Task}
    (hp : (task, Stage.dataFreed) ∈ s.puts) : ∃ s' r,
      step s (.next (task, .dataFreed)) = some (s', r) ∧ Inv data spData s' (replies ++ [r]) := by
  have hm : (task, Stage.dataFreed) ∈ s.releasing := List.mem_filter.mpr ⟨hp, rfl⟩
  obtain ⟨hrefs, hfreed, hrel, hcount⟩ := h.phase.of_dataFreed hm
  refine ⟨_, _, rfl, h.spData_eq, h.malk_eq, h.data_eq, h.rfc_eq, h.rfc_lt, ?_⟩
  dsimp only [Sys.releasing, Sys.free] at hrel ⊢
  rw [filter_releasing_erase, hrel, List.erase_cons_head, List.count_append, hcount, hrefs,
    hfreed, h.spData_eq]
  exact Phase.gone

/-- Each step that a holder of a reference may make returns and keeps the invariant. -/
theorem Inv.step (h : Inv data spData s replies) {action : Action} (hh : Holding s action)
    (hc : Countable s action) : ∃ s' r,
      TuyaSmartpointer.step s action = some (s', r) ∧ Inv data spData s' (replies ++ [r]) := by
  cases action with
  | get task owner => exact h.step_get hh hc
  | put task => exact h.step_put hh
  | next p =>
    obtain ⟨task, stage⟩ := p
    cases stage with
    | counted rfc =>
      cases rfc with
      | zero => exact h.step_freeData hh
      | succ rfc => exact h.step_return
    | dataFreed => exact h.step_freeObject hh

theorem Inv.owned (h : Inv data spData s replies) : Owned data false spData s replies := by
  obtain ⟨spd, sp, freed, refs, puts⟩ := s
  obtain ⟨-, -, -, -, -, hphase⟩ := h
  dsimp only [Sys.releasing] at hphase
  generalize hrel : puts.filter (·.2.releasing) = rel at hphase
  generalize hn : replies.count (.counted 0) = n at hphase
  cases hphase with
  | held hr =>
    exact ⟨List.nil_prefix, fun _ => rfl, fun h0 => absurd h0 hr, hn.trans (if_neg hr).symm⟩
  | deciding t =>
    refine ⟨List.nil_prefix, fun _ => rfl, ?_, hn⟩
    rintro - rfl
    cases hrel
  | half t =>
    refine ⟨⟨[spData], rfl⟩, fun h0 => absurd rfl h0, ?_, hn⟩
    rintro - rfl
    cases hrel
  | gone => exact ⟨List.prefix_rfl, fun h0 => absurd rfl h0, fun _ _ => rfl, hn⟩

end Steps

/-- A `create` that succeeds without embedding gives a new block, and the caller's data. -/
theorem start_eq {data dataLen cnt : Nat} {malloc : Nat → Nat} {refs : List Task} {s : Sys}
    (hs : start data dataLen false cnt malloc refs = some s) :
    s = ⟨malloc sizeofSmartpointer, ⟨false, cnt, dataLen, data⟩, [], refs, []⟩ := by
  simp only [start, tuyaSmartpointerCreate, Bool.false_eq_true, if_false] at hs
  split at hs
  · cases hs
  · split at hs
    · cases hs
    · exact (Option.some.inj hs).symm

theorem inv_start {data dataLen cnt : Nat} {malloc : Nat → Nat} {refs : List Task} {s : Sys}
    (hlen : refs.length = cnt) (hpos : 0 < cnt) (hcnt : cnt < 2 ^ 32)
    (hs : start data dataLen false cnt malloc refs = some s) : Inv data s.spData s [] := by
  rw [start_eq hs]
  refine ⟨rfl, rfl, rfl, hlen.symm, hcnt, Phase.held ?_⟩
  exact List.ne_nil_of_length_pos (hlen ▸ hpos)

/-- An object whose data is not embedded, with `cnt` references held by any tasks: after any
interleaving of their steps, each `get` and `put` made by a task that holds a reference,
the object is owned as it should be. What was freed are different blocks of the allocator. -/
theorem smartpointer_owned (data dataLen : Nat) (malk : Bool) (cnt : Nat) (malloc : Nat → Nat)
    (blocks : Set Nat) (refs : List Task) (s₀ : Sys) (actions : List Action)
    (hpos : 1 ≤ cnt) (hcnt : cnt < 2 ^ 32) (hlen : refs.length = cnt)
    (hdata : malk = false → data ∈ blocks) (hfresh : ∀ n, malloc n ∉ blocks)
    (hs : start data dataLen malk cnt malloc refs = some s₀) (hmalk : malk = false)
    (hl : Machine.Legal step (fun s a => Holding s a ∧ Countable s a) s₀ actions) :
    ∃ s replies, Machine.run step s₀ actions = some (s, replies) ∧
      Owned data malk s₀.spData s replies ∧ (ownedBlocks data malk s₀.spData).Nodup ∧
      ∀ a ∈ ownedBlocks data malk s₀.spData, a ∈ insert s₀.spData blocks := by
  subst hmalk
  obtain ⟨s, replies, hrun, hinv⟩ := Machine.run_total (I := Inv data s₀.spData)
    (fun s replies a h hok => h.step hok.1 hok.2) (inv_start hlen hpos hcnt hs) hl
  have hne : data ≠ s₀.spData := by
    intro heq
    rw [start_eq hs] at heq
    exact hfresh _ (heq ▸ hdata rfl)
  refine ⟨s, replies, hrun, hinv.owned, ?_, ?_⟩
  · simp [ownedBlocks, hne]
  · simp [ownedBlocks, hdata rfl]

/-- Three tasks: one gets a reference for another, and the last `put` overtakes a `put` that
saw a positive count. -/
theorem smartpointer_owned_three : ∃ s replies,
    Machine.run step ⟨2000, ⟨false, 2, 8, 1000⟩, [], [1, 2], []⟩
      [.get 1 3, .put 1, .put 2, .put 3, .next (2, .counted 1), .next (3, .counted 0),
        .next (1, .counted 2), .next (3, .dataFreed)] = some (s, replies) ∧
      Owned 1000 false 2000 s replies ∧ (ownedBlocks 1000 false 2000).Nodup ∧
      ∀ a ∈ ownedBlocks 1000 false 2000, a ∈ insert 2000 ({1000} : Set Nat) :=
  smartpointer_owned 1000 8 false 2 (fun _ => 2000) {1000} [1, 2] _ _ (by decide) (by decide) rfl
    (fun _ => rfl) (fun _ => by decide) rfl rfl (Machine.legal_of_check (by decide +kernel))

/-- With `malk` the release frees an address inside the object's own block. -/
theorem smartpointer_frees_interior :
    start 1000 8 true 1 (fun _ => 2000) [1] = some ⟨2000, ⟨false, 1, 8, 2020⟩, [], [1], []⟩ ∧
    Machine.Legal step Holding ⟨2000, ⟨false, 1, 8, 2020⟩, [], [1], []⟩
      [.put 1, .next (1, .counted 0), .next (1, .dataFreed)] ∧
    ¬∃ s replies, Machine.run step ⟨2000, ⟨false, 1, 8, 2020⟩, [], [1], []⟩
      [.put 1, .next (1, .counted 0), .next (1, .dataFreed)] = some (s, replies) ∧
      Owned 1000 true 2000 s replies := by
  refine ⟨rfl, Machine.legal_of_check (by decide +kernel), ?_⟩
  intro ⟨s, replies, hrun, howned⟩
  have hfreed : (Machine.run step ⟨2000, ⟨false, 1, 8, 2020⟩, [], [1], []⟩
      [.put 1, .next (1, .counted 0), .next (1, .dataFreed)]).all
      (fun r => r.1.freed = [2020, 2000]) = true := by decide +kernel
  rw [hrun] at hfreed
  have hprefix := howned.freed_prefix
  rw [of_decide_eq_true hfreed] at hprefix
  exact absurd hprefix (by decide)

end TuyaSdk.TuyaSmartpointer
