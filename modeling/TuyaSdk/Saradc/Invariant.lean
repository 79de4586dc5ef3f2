import TuyaSdk.Saradc.Defs

/-!
# What holds between the clients

The handle of a temperature client is an open that succeeded, the slot counts the handles, and the
converter runs for the one client whose open is outstanding.
-/

namespace TuyaSdk.Saradc
open TuyaSdk.Lib TuyaSdk.DrvModel

variable {s s' : State} {c : Client} {log : List Event} {e : Event} {owner : Option Client}
  {g : Client → Bool}

/-! ## The log -/

theorem lastGranted_append :
    lastGranted (log ++ [e]) =
      match (motive := Event → Option Client) e with
      | .granted c => some c
      | _ => lastGranted log := by
  rw [lastGranted, List.foldl_append]
  rfl

theorem outstanding_append :
    outstanding (log ++ [e]) c =
      if e = .granted c then true else if e = .released c then false else outstanding log c := by
  rw [outstanding, List.foldl_append]
  rfl

/-- The log is right, its last grant is that of `owner`, and the opens that are outstanding by it
are those of `g`, which are the owner's. -/
structure Grants (log : List Event) (owner : Option Client) (g : Client → Bool) : Prop where
  events : ∀ pre e post, log = pre ++ e :: post → EventOk pre e
  last : lastGranted log = owner
  outstanding : ∀ c, outstanding log c = g c
  owner : ∀ c, g c = true → owner = some c

theorem events_append (h : ∀ pre e post, log = pre ++ e :: post → EventOk pre e)
    (he : EventOk log e) : ∀ pre e' post, log ++ [e] = pre ++ e' :: post → EventOk pre e' := by
  intro pre e' post heq
  rcases List.eq_nil_or_concat post with rfl | ⟨post, x, rfl⟩
  · obtain ⟨rfl, hlast⟩ := List.append_inj' heq rfl
    cases hlast
    exact he
  · rw [List.concat_eq_append, ← List.cons_append, ← List.append_assoc] at heq
    exact h pre e' post (List.append_inj' heq rfl).1

theorem Grants.grant (h : Grants log owner g) (hnone : ∀ c', g c' = false) :
    Grants (log ++ [.granted c]) (some c) (Function.update g c true) := by
  refine ⟨events_append h.events trivial, lastGranted_append, fun c' => ?_, fun c' hc' => ?_⟩
  · rw [outstanding_append, h.outstanding]
    by_cases hc : c' = c
    · rw [hc, Function.update_self, if_pos rfl]
    · rw [Function.update_of_ne hc, if_neg (fun heq => hc (Event.granted.inj heq).symm),
        if_neg Event.noConfusion]
  · by_cases hc : c' = c
    · rw [hc]
    · rw [Function.update_of_ne hc, hnone c'] at hc'
      cases hc'

theorem Grants.release (h : Grants log owner g) :
    Grants (log ++ [.released c]) owner (Function.update g c false) := by
  refine ⟨events_append h.events trivial, lastGranted_append.trans h.last, fun c' => ?_,
    fun c' hc' => ?_⟩
  · rw [outstanding_append, h.outstanding, if_neg Event.noConfusion]
    by_cases hc : c' = c
    · rw [hc, Function.update_self, if_pos rfl]
    · rw [Function.update_of_ne hc, if_neg (fun heq => hc (Event.released.inj heq).symm)]
  · by_cases hc : c' = c
    · rw [hc, Function.update_self] at hc'
      cases hc'
    · rw [Function.update_of_ne hc] at hc'
      exact h.owner c' hc'

theorem Grants.disable (h : Grants log owner g) (hnone : ∀ c', c' ≠ c → g c' = false) :
    Grants (log ++ [.disabled c]) owner g := by
  refine ⟨events_append h.events fun c' hc' => ?_, lastGranted_append.trans h.last, fun c' => ?_,
    h.owner⟩
  · rw [h.outstanding]
    exact hnone c' hc'
  · rw [outstanding_append, if_neg Event.noConfusion, if_neg Event.noConfusion]
    exact h.outstanding c'

theorem Grants.sample (h : Grants log (some c) g) {i size : Nat} (hi : i < size) :
    Grants (log ++ [.sample c i size]) (some c) g := by
  refine ⟨events_append h.events ⟨h.last, hi⟩, lastGranted_append.trans h.last, fun c' => ?_,
    h.owner⟩
  rw [outstanding_append, if_neg Event.noConfusion, if_neg Event.noConfusion]
  exact h.outstanding c'

theorem Grants.congr {g' : Client → Bool} (h : Grants log owner g) (hg : ∀ c, g' c = g c) :
    Grants log owner g' :=
  (funext hg : g' = g) ▸ h

/-- Only the owner has an open outstanding. -/
theorem Grants.others (h : Grants log (some c) g) : ∀ c', c' ≠ c → g c' = false := by
  intro c' hc'
  by_contra hg
  exact hc' (Option.some.inj (h.owner c' (Bool.eq_true_of_not_eq_false hg))).symm

/-! ## The invariant -/

/-- The third client's open succeeded, and it has not closed its handle. -/
def ThirdPc.granted : ThirdPc → Bool
  | .called ok | .counting ok | .checking ok => ok
  | .holding => true
  | _ => false

/-- The third client is inside `ddev_close`, before the callback. -/
def ThirdPc.leaving : ThirdPc → Bool
  | .releasing | .closing => true
  | _ => false

/-- The handles that the third client has outside `ddev_open` and `ddev_close`. -/
def ThirdPc.handles : ThirdPc → Nat
  | .checking _ | .holding => 1
  | _ => 0

/-- The opens that are outstanding, by where the clients stand. -/
def State.grants (s : State) : Client → Bool
  | .detect => s.tmpDetectHdl
  | .single => s.tmpSingleHdl
  | .third => s.third.granted

/-- The handles of the temperature clients. -/
def State.held (s : State) : Nat := s.tmpDetectHdl.toNat + s.tmpSingleHdl.toNat

/-- The slot of a device with `n` handles. -/
def counted (n : Nat) : Slot := ⟨if n = 0 then .closed else .opened, n⟩

/-- The slot counts the handles. Inside `ddev_open` and `ddev_close` of the third client the state
lags behind the count. -/
def SlotOk (dev : Slot) (held : Nat) : ThirdPc → Prop
  | .idle => dev = counted held
  | .checking _ | .holding => dev = counted (held + 1)
  | .found | .tested | .called _ => held = 0 ∧ dev = ⟨.closed, 0⟩
  | .counting _ | .releasing => dev = ⟨.opened, held⟩
  | .closing | .closed => held = 0 ∧ dev = ⟨.opened, 0⟩

/-- The descriptor of a temperature client. -/
structure TempDesc (handler : IntHandler) (d : SaradcDesc) : Prop where
  refused : d.refused = false
  mode : d.mode &&& adcConfigModeShouldOff ≠ 0
  handler : d.pIntHandler = some handler

/-- The converter runs for the client: its open is outstanding, or it is the third one on its way
out. -/
def RunsFor (s : State) (c : Client) : Prop :=
  s.saradcDesc = some c ∧ (s.desc c).refused = false ∧
    (s.grants c = true ∨ c = .third ∧ s.third.leaving = true ∧ s.held = 0)

/-- The single shot has prepared its descriptor in this try. -/
def SinglePc.ready : SinglePc → Bool
  | .idle | .waiting _ => false
  | _ => true

structure Inv (s : State) : Prop where
  grants : Grants s.log s.saradcDesc s.grants
  on : s.saradcIsBusy = true ∨ s.intEnabled = true → ∃ c, RunsFor s c
  slot : SlotOk s.dev s.held s.third
  detectDesc : TempDesc .tempDetectHandler (s.desc .detect)
  singleDesc : s.single.ready = true ∨ s.tmpSingleHdl = true →
    TempDesc .tempSingleDetectHandler (s.desc .single)
  thirdHandler : (s.desc .third).pIntHandler = none
  thirdTested : s.third = .tested → (s.desc .third).refused = false
  detectHdl : s.detect ≠ .idle → s.tmpDetectHdl = false
  singleHdl : s.single = .idle → s.tmpSingleHdl = false
  semaphore : s.single ≠ .idle → s.tmpSingleSemaphore.isSome = true

theorem tempDesc_ok (handler : IntHandler) : TempDesc handler (tempDesc handler) :=
  ⟨rfl, (by decide : (0x0B : UInt8) &&& adcConfigModeShouldOff ≠ 0), rfl⟩

theorem Inv.init : Inv State.init where
  grants :=
    { events := fun pre e post h => by
        rcases pre with _ | ⟨a, pre⟩ <;> cases h
      last := rfl
      outstanding := fun c => by cases c <;> rfl
      owner := fun c hc => by cases c <;> cases hc }
  on := by rintro (h | h) <;> cases h
  slot := rfl
  detectDesc := tempDesc_ok _
  singleDesc := by rintro (h | h) <;> cases h
  thirdHandler := rfl
  thirdTested := by rintro ⟨⟩
  detectHdl := fun _ => rfl
  singleHdl := fun _ => rfl
  semaphore := fun h => absurd rfl h

theorem slotOk_outside {dev : Slot} {held : Nat} {pc : ThirdPc} (hq : pc.outside = true) :
    SlotOk dev held pc ↔ dev = counted (held + pc.handles) := by
  cases pc with
  | idle => exact Iff.rfl
  | checking => exact Iff.rfl
  | holding => exact Iff.rfl
  | _ => cases hq

theorem held_zero : s.held = 0 ↔ s.tmpDetectHdl = false ∧ s.tmpSingleHdl = false := by
  rw [State.held, Nat.add_eq_zero_iff]
  cases s.tmpDetectHdl <;> cases s.tmpSingleHdl <;> decide

theorem held_le (s : State) : s.held ≤ 2 := by
  rw [State.held]
  cases s.tmpDetectHdl <;> cases s.tmpSingleHdl <;> decide

/-- No open is outstanding where there is no handle. -/
theorem grants_none (hheld : s.held = 0) (hthird : s.third.granted = false) :
    ∀ c, s.grants c = false := by
  obtain ⟨hd, hs⟩ := held_zero.mp hheld
  intro c
  cases c with
  | detect => exact hd
  | single => exact hs
  | third => exact hthird

/-- The converter is off where there is no handle. -/
theorem Inv.off (h : Inv s) (hheld : s.held = 0) (hthird : s.third.granted = false)
    (hleave : s.third.leaving = false) : s.saradcIsBusy = false ∧ s.intEnabled = false := by
  have hnot : ¬∃ c, RunsFor s c := by
    rintro ⟨c, -, -, hg | ⟨-, hl, -⟩⟩
    · rw [grants_none hheld hthird c] at hg
      cases hg
    · rw [hleave] at hl
      cases hl
  constructor
  · by_contra hb
    exact hnot (h.on (.inl (Bool.eq_true_of_not_eq_false hb)))
  · by_contra hi
    exact hnot (h.on (.inr (Bool.eq_true_of_not_eq_false hi)))

/-- A descriptor that is not refused has a buffer. -/
theorem pData_of_refused {d : SaradcDesc} (h : d.refused = false) : ∃ p, d.pData = some p := by
  cases hp : d.pData with
  | some p => exact ⟨p, rfl⟩
  | none =>
    rw [SaradcDesc.refused, hp] at h
    cases h

theorem RunsFor.setDesc {c' : Client} {d : SaradcDesc} (h : RunsFor s c')
    (hd : c' = c → d.refused = false) : RunsFor (s.setDesc c d) c' := by
  obtain ⟨howner, hrefused, hreason⟩ := h
  refine ⟨howner, ?_, hreason⟩
  by_cases hc : c' = c
  · subst hc
    exact (congrArg SaradcDesc.refused (Function.update_self ..)).trans (hd rfl)
  · exact (congrArg SaradcDesc.refused (Function.update_of_ne hc ..)).trans hrefused

end TuyaSdk.Saradc
