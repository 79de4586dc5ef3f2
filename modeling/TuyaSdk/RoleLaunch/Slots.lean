import TuyaSdk.RoleLaunch.Defs

/-!
# The slots of the role launcher

Whatever the other tasks do in between, a launch moves a queue in one of few ways: nothing
(`Launched.empty`, `Launched.wait`), the following entity is started (`Launched.promote`), or
the previous one is freed and the following one, if there is one, is started in its place
(`Launched.retire`). `SlotsInv` is kept by each of these and by the entry of a request, and
`Armed` by each handler as a whole.
-/

namespace TuyaSdk.RoleLaunch

open TuyaSdk.Lib

/-! ## The two queues -/

inductive Role where
  | sta
  | ap
  deriving DecidableEq

namespace Role

def previous : Role → Slot
  | .sta => .previousSta
  | .ap => .previousAp

def following : Role → Slot
  | .sta => .followingSta
  | .ap => .followingAp

def other : Role → Role
  | .sta => .ap
  | .ap => .sta

theorem previous_ne_following (r r' : Role) : r.previous ≠ r'.following := by
  cases r <;> cases r' <;> decide

theorem following_injective {r r' : Role} (h : r.following = r'.following) : r = r' := by
  cases r <;> cases r' <;> first | rfl | cases h

end Role

theorem Slot.exists_role (i : Slot) : ∃ r : Role, i = r.previous ∨ i = r.following := by
  cases i
  · exact ⟨.sta, Or.inl rfl⟩
  · exact ⟨.sta, Or.inr rfl⟩
  · exact ⟨.ap, Or.inl rfl⟩
  · exact ⟨.ap, Or.inr rfl⟩

namespace Queues

/-- The entity is in one of the slots. -/
def Holds (q : Queues) (e : Nat) : Prop := ∃ i, q.slot i = some e

/-- The entity is in a following slot. -/
def Waits (q : Queues) (e : Nat) : Prop := ∃ r : Role, q.slot r.following = some e

theorem Waits.holds {q : Queues} {e : Nat} (h : q.Waits e) : q.Holds e :=
  let ⟨r, hr⟩ := h
  ⟨r.following, hr⟩

@[simp] theorem slot_set_same (q : Queues) (i : Slot) (v : Option Nat) :
    (q.set i v).slot i = v := if_pos rfl

theorem slot_set_ne (q : Queues) {i j : Slot} (v : Option Nat) (h : j ≠ i) :
    (q.set i v).slot j = q.slot j := if_neg h

@[simp] theorem slot_start (q : Queues) (e : Nat) : (q.start e).slot = q.slot := rfl

@[simp] theorem slot_rlStart (q : Queues) : q.rlStart.slot = q.slot := rfl

/-- The following entity becomes the previous one. -/
def shift (q : Queues) (r : Role) : Queues :=
  (q.set r.previous (q.slot r.following)).set r.following none

theorem shift_previous (q : Queues) (r : Role) :
    (q.shift r).slot r.previous = q.slot r.following := by
  rw [shift, slot_set_ne _ _ (Role.previous_ne_following r r), slot_set_same]

theorem shift_following (q : Queues) (r : Role) : (q.shift r).slot r.following = none := by
  rw [shift, slot_set_same]

theorem shift_other (q : Queues) {r : Role} {i : Slot} (hp : i ≠ r.previous)
    (hf : i ≠ r.following) : (q.shift r).slot i = q.slot i := by
  rw [shift, slot_set_ne _ _ hf, slot_set_ne _ _ hp]

/-- The entity's block is given back. -/
def drop (q : Queues) (e : Nat) (heap : Heap RlEntity) : Queues :=
  { q with heap := heap, freed := q.freed ++ [e] }

def startAll (q : Queues) : Option Nat → Queues
  | none => q
  | some e => q.start e

end Queues

/-! ## What a launch does -/

/-- What a launch may do to the queue of a role, and what it returns. -/
inductive Launched (r : Role) (q : Queues) : LaunchStatus → Queues → Prop where
  | empty : q.slot r.previous = none → q.slot r.following = none → Launched r q .launchOver q
  | wait (e : Nat) : q.slot r.previous = some e → Launched r q .cont q
  | promote (e : Nat) : q.slot r.previous = none → q.slot r.following = some e →
      Launched r q .cont ((q.shift r).start e)
  | retire (e : Nat) (heap : Heap RlEntity) : q.slot r.previous = some e →
      q.heap.free e = some heap →
      Launched r q (if q.slot r.following = none then .launchOver else .cont)
        (((q.drop e heap).shift r).startAll (q.slot r.following))

/-- A program of the launch handler returns and leaves the queues as they are. -/
def Quiet {α : Type} (q : Queues) (m : Launch α) : Prop :=
  ∀ w, w.queues = q → ∃ a w', m w = some (a, w') ∧ w'.queues = q

namespace Quiet

open Launch

variable {α β : Type} {q : Queues}

theorem pure (a : α) : Quiet q (Pure.pure a) := fun w hw => ⟨a, w, rfl, hw⟩

theorem bind {m : Launch α} {f : α → Launch β} (hm : Quiet q m) (hf : ∀ a, Quiet q (f a)) :
    Quiet q (m >>= f) := by
  intro w hw
  obtain ⟨a, w₁, h₁, hw₁⟩ := hm w hw
  obtain ⟨b, w₂, h₂, hw₂⟩ := hf a w₁ hw₁
  refine ⟨b, w₂, ?_, hw₂⟩
  change (m w).bind (fun r => f r.1 r.2) = _
  rw [h₁]
  exact h₂

theorem ite {c : Prop} [Decidable c] {m n : Launch α} (hm : Quiet q m) (hn : Quiet q n) :
    Quiet q (if c then m else n) := by
  split
  · exact hm
  · exact hn

theorem readShared (f : Shared → α) : Quiet q (readShared f) := fun w hw => ⟨_, w.pause, rfl, hw⟩

theorem onShared (f : Shared → Shared) : Quiet q (Launch.onShared f) :=
  fun w hw => ⟨(), w.pause.onShared f, rfl, hw⟩

theorem when (c : Bool) {m : Launch Unit} (hm : Quiet q m) : Quiet q (when c m) :=
  ite hm (pure ())

theorem deref {e : Nat} (h : q.heap.Live e) : Quiet q (deref e) := by
  intro w hw
  obtain ⟨b, hb⟩ := Heap.live_iff.mp h
  refine ⟨b, w, ?_, hw⟩
  rw [Launch.deref, hw, hb]
  rfl

theorem and {m n : Launch Bool} (hm : Quiet q m) (hn : Quiet q n) : Quiet q (m <&&> n) :=
  bind hm fun b => by cases b <;> first | exact pure false | exact hn

theorem or {m n : Launch Bool} (hm : Quiet q m) (hn : Quiet q n) : Quiet q (m <||> n) :=
  bind hm fun b => by cases b <;> first | exact pure true | exact hn

theorem read_test (f : Shared → UInt32) (g : UInt32 → Bool) :
    Quiet q (do return g (← Launch.readShared f)) :=
  bind (readShared f) fun _ => pure _

end Quiet

theorem rlStaMayNextLaunch_quiet (q : Queues) : Quiet q rlStaMayNextLaunch := by
  have hs (g : UInt32 → Bool) := Quiet.read_test (q := q) (·.preStaStatus) g
  refine Quiet.bind ((hs _).and ((hs _).or ((hs _).or (hs _)))) fun b => Quiet.ite (.pure 1) ?_
  refine Quiet.bind ((Quiet.readShared _).and ((hs _).or ((hs _).or (hs _)))) fun b => ?_
  exact Quiet.ite (.pure 2) (Quiet.bind (hs _) fun b => Quiet.ite (.pure 3) (.pure 0))

theorem rlApMayNextLaunch_quiet (q : Queues) (c : Bool) : Quiet q (rlApMayNextLaunch c) := by
  have hs (g : UInt32 → Bool) := Quiet.read_test (q := q) (·.preApStatus) g
  refine Quiet.ite (.pure 1) ?_
  exact Quiet.bind ((hs _).or (hs _)) fun b => Quiet.ite (.pure 1) (.pure 0)

theorem followingAsap_quiet {q : Queues} {following : Option Nat}
    (hf : ∀ f, following = some f → q.heap.Live f) : Quiet q (followingAsap following) := by
  cases following with
  | none => exact Quiet.pure false
  | some f => exact (Quiet.deref (hf f rfl)).bind fun b => Quiet.pure _

theorem rlLaunchStaCancel_quiet {q : Queues} {following : Option Nat} {e : Nat}
    (hf : ∀ f, following = some f → q.heap.Live f) (he : q.heap.Live e) :
    Quiet q (rlLaunchStaCancel following e) := by
  refine (followingAsap_quiet hf).bind fun asap => (Quiet.when _ (Quiet.onShared _)).bind fun _ => ?_
  exact (Quiet.deref he).bind fun b => Quiet.when _ (Quiet.onShared _)

theorem rlLaunchApCancel_quiet {q : Queues} {following : Option Nat} {e : Nat}
    (hf : ∀ f, following = some f → q.heap.Live f) (he : q.heap.Live e) :
    Quiet q (rlLaunchApCancel following e) := by
  refine (followingAsap_quiet hf).bind fun asap => (Quiet.when _ (Quiet.onShared _)).bind fun _ => ?_
  exact (Quiet.deref he).bind fun b => (Quiet.when _ (Quiet.onShared _)).bind fun _ => Quiet.pure _

/-! ## A launch as a whole -/

/-- A program of the launch handler returns, and takes the queues on in the ways of `R`. -/
def Does {α : Type} (q : Queues) (R : α → Queues → Prop) (m : Launch α) : Prop :=
  ∀ w, w.queues = q → ∃ a w', m w = some (a, w') ∧ R a w'.queues

namespace Does

open Launch

variable {α β : Type} {q q' : Queues} {R : α → Queues → Prop} {S : β → Queues → Prop}

theorem pure {a : α} (h : R a q) : Does q R (Pure.pure a) := by
  rintro w rfl
  exact ⟨a, w, rfl, h⟩

theorem bind {m : Launch α} {f : α → Launch β} (hm : Does q R m)
    (hf : ∀ a q', R a q' → Does q' S (f a)) : Does q S (m >>= f) := by
  intro w hw
  obtain ⟨a, w₁, h₁, hR⟩ := hm w hw
  obtain ⟨b, w₂, h₂, hS⟩ := hf a w₁.queues hR w₁ rfl
  refine ⟨b, w₂, ?_, hS⟩
  change (m w).bind (fun r => f r.1 r.2) = _
  rw [h₁]
  exact h₂

theorem quiet_bind {m : Launch α} {f : α → Launch β} (hm : Quiet q m)
    (hf : ∀ a, Does q S (f a)) : Does q S (m >>= f) :=
  bind (R := fun _ q' => q' = q) hm fun a _ h => h ▸ hf a

theorem onQueues_bind {g : Queues → Queues} {f : Unit → Launch β} (hf : Does (g q) S (f ())) :
    Does q S (onQueues g >>= f) := by
  refine bind (R := fun _ q' => q' = g q) ?_ fun a q' h => h ▸ hf
  rintro w rfl
  exact ⟨(), _, rfl, rfl⟩

theorem slot_bind {i : Slot} {f : Option Nat → Launch β} (hf : Does q S (f (q.slot i))) :
    Does q S (slot i >>= f) := by
  refine bind (R := fun v q' => v = q.slot i ∧ q' = q) ?_ fun a q' h => h.1 ▸ h.2 ▸ hf
  rintro w rfl
  exact ⟨_, w, rfl, rfl, rfl⟩

theorem type_bind {f : PreEntity → Launch β} (hf : Does q S (f q.preEntityType)) :
    Does q S (preEntityType >>= f) := by
  refine bind (R := fun v q' => v = q.preEntityType ∧ q' = q) ?_ fun a q' h => h.1 ▸ h.2 ▸ hf
  rintro w rfl
  exact ⟨_, w, rfl, rfl, rfl⟩

theorem free_bind {e : Nat} {heap : Heap RlEntity} {f : Unit → Launch β}
    (hfree : q.heap.free e = some heap) (hf : Does (q.drop e heap) S (f ())) :
    Does q S (rlFreeEntity (some e) >>= f) := by
  refine bind (R := fun _ q' => q' = q.drop e heap) ?_ fun a q' h => h ▸ hf
  rintro w rfl
  refine ⟨(), w.onQueues fun q => q.drop e heap, ?_, rfl⟩
  simp only [rlFreeEntity, hfree]
  rfl

theorem mono {R' : α → Queues → Prop} {m : Launch α} (hm : Does q R m)
    (h : ∀ a q', R a q' → R' a q') : Does q R' m := by
  intro w hw
  obtain ⟨a, w', h', hR⟩ := hm w hw
  exact ⟨a, w', h', h a w'.queues hR⟩

theorem staRequestStart_bind {e : Nat} {f : Unit → Launch β} (he : q.heap.Live e)
    (hf : Does (q.start e) S (f ())) : Does q S (staRequestStart e >>= f) := by
  rw [staRequestStart]
  simp only [bind_assoc]
  exact quiet_bind (.deref he) fun b => quiet_bind (.onShared _) fun _ => onQueues_bind hf

theorem apRequestStart_bind {e : Nat} {f : Unit → Launch β} (he : q.heap.Live e)
    (hf : Does (q.start e) S (f ())) : Does q S (apRequestStart e >>= f) := by
  rw [apRequestStart]
  simp only [bind_assoc]
  exact quiet_bind (.deref he) fun b => quiet_bind (.onShared _) fun _ => onQueues_bind hf

end Does

/-- Entities in slots are live, and no entity is in two slots. -/
structure SlotsInv (q : Queues) : Prop where
  distinct : ∀ i j e, q.slot i = some e → q.slot j = some e → i = j
  live : ∀ e, q.heap.Live e ↔ q.Holds e
  started_lt : ∀ e ∈ q.started, e < q.heap.next
  started_once : ∀ e < q.heap.next,
    (q.Waits e → q.started.count e = 0) ∧ (¬q.Waits e → q.started.count e = 1)
  freed_lt : ∀ e ∈ q.freed, e < q.heap.next
  freed_once : ∀ e < q.heap.next,
    (q.Holds e → q.freed.count e = 0) ∧ (¬q.Holds e → q.freed.count e = 1)

theorem SlotsInv.live_slot {q : Queues} (h : SlotsInv q) {i : Slot} {e : Nat}
    (he : q.slot i = some e) : q.heap.Live e := (h.live e).mpr ⟨i, he⟩

/-- A block that is still held stays live when the block of another slot is given back. -/
theorem SlotsInv.live_drop {q : Queues} (h : SlotsInv q) {i j : Slot} {e f : Nat}
    {heap : Heap RlEntity} (hfree : q.heap.free e = some heap) (he : q.slot i = some e)
    (hf : q.slot j = some f) (hij : i ≠ j) : heap.Live f := by
  refine (Heap.live_free hfree).mpr ⟨?_, h.live_slot hf⟩
  intro hfe
  exact hij (h.distinct i j e he (hfe ▸ hf))

theorem rlLaunchSta_does {q : Queues} (h : SlotsInv q) :
    Does q (Launched .sta q) rlLaunchSta := by
  refine Does.slot_bind ?_
  cases hp : q.slot .previousSta with
  | none =>
    refine Does.slot_bind ?_
    cases hf : q.slot .followingSta with
    | none => exact Does.pure (.empty hp hf)
    | some f =>
      have hpost : (q.shift .sta).start f = ((q.set .previousSta (some f)).set .followingSta
          none).start f := by
        rw [Queues.shift, Role.previous, Role.following, hf]
      refine Does.onQueues_bind (Does.onQueues_bind (Does.staRequestStart_bind ?_ ?_))
      · exact h.live_slot hf
      · exact Does.pure (hpost ▸ .promote f hp hf)
  | some e =>
    obtain ⟨heap, hfree⟩ := Option.isSome_iff_exists.mp (Heap.free_isSome.mpr (h.live_slot hp))
    refine Does.slot_bind (Does.quiet_bind (rlLaunchStaCancel_quiet (fun f hf => h.live_slot hf)
      (h.live_slot hp)) fun _ => Does.quiet_bind (rlStaMayNextLaunch_quiet q) fun flag => ?_)
    split
    · have hret := Launched.retire (r := .sta) e heap hp hfree
      refine Does.slot_bind ?_
      rw [hp]
      refine Does.free_bind hfree (Does.slot_bind (Does.onQueues_bind (Does.onQueues_bind ?_)))
      change Does ((q.drop e heap).shift .sta) _
        (match q.slot .followingSta with | none => _ | some _ => _)
      cases hf : q.slot .followingSta with
      | none =>
        rw [Role.following, hf] at hret
        exact Does.pure hret
      | some f =>
        rw [Role.following, hf] at hret
        refine Does.staRequestStart_bind ?_ (Does.pure hret)
        exact h.live_drop hfree hp hf (by decide)
    · exact Does.pure (.wait e hp)

theorem rlLaunchAp_does {q : Queues} (h : SlotsInv q) :
    Does q (Launched .ap q) rlLaunchAp := by
  refine Does.slot_bind ?_
  cases hp : q.slot .previousAp with
  | none =>
    refine Does.slot_bind ?_
    cases hf : q.slot .followingAp with
    | none => exact Does.pure (.empty hp hf)
    | some f =>
      have hpost : (q.shift .ap).start f = ((q.set .previousAp (some f)).set .followingAp
          none).start f := by
        rw [Queues.shift, Role.previous, Role.following, hf]
      refine Does.onQueues_bind (Does.onQueues_bind (Does.quiet_bind (Quiet.onShared _) fun _ =>
        Does.apRequestStart_bind ?_ ?_))
      · exact h.live_slot hf
      · exact Does.pure (hpost ▸ .promote f hp hf)
  | some e =>
    obtain ⟨heap, hfree⟩ := Option.isSome_iff_exists.mp (Heap.free_isSome.mpr (h.live_slot hp))
    refine Does.slot_bind (Does.quiet_bind (rlLaunchApCancel_quiet (fun f hf => h.live_slot hf)
      (h.live_slot hp)) fun c => Does.quiet_bind (rlApMayNextLaunch_quiet q c) fun flag => ?_)
    split
    · have hret := Launched.retire (r := .ap) e heap hp hfree
      refine Does.slot_bind ?_
      rw [hp]
      refine Does.free_bind hfree (Does.slot_bind (Does.onQueues_bind (Does.onQueues_bind ?_)))
      change Does ((q.drop e heap).shift .ap) _
        (match q.slot .followingAp with | none => _ | some _ => _)
      cases hf : q.slot .followingAp with
      | none =>
        rw [Role.following, hf] at hret
        exact Does.pure hret
      | some f =>
        rw [Role.following, hf] at hret
        refine Does.quiet_bind (Quiet.onShared _) fun _ =>
          Does.apRequestStart_bind ?_ (Does.pure hret)
        exact h.live_drop hfree hp hf (by decide)
    · exact Does.pure (.wait e hp)

/-! ## Moving a queue on -/

namespace Queues

theorem shift_eq_some {q : Queues} {r : Role} {i : Slot} {e : Nat} :
    (q.shift r).slot i = some e ↔ (i = r.previous ∧ q.slot r.following = some e) ∨
      (i ≠ r.previous ∧ i ≠ r.following ∧ q.slot i = some e) := by
  by_cases hp : i = r.previous
  · subst hp
    rw [shift_previous]
    simp
  · by_cases hf : i = r.following
    · subst hf
      rw [shift_following]
      simp [hp]
    · rw [shift_other q hp hf]
      simp [hp, hf]

/-- After the shift, the entities are those that were in another slot than the previous one. -/
theorem holds_shift {q : Queues} {r : Role} {e : Nat} :
    (q.shift r).Holds e ↔ ∃ i, i ≠ r.previous ∧ q.slot i = some e := by
  constructor
  · intro ⟨i, hi⟩
    rcases shift_eq_some.mp hi with ⟨-, hf⟩ | ⟨hp, -, hi⟩
    · exact ⟨r.following, (Role.previous_ne_following r r).symm, hf⟩
    · exact ⟨i, hp, hi⟩
  · intro ⟨i, hp, hi⟩
    by_cases hf : i = r.following
    · exact ⟨r.previous, shift_eq_some.mpr (Or.inl ⟨rfl, hf ▸ hi⟩)⟩
    · exact ⟨i, shift_eq_some.mpr (Or.inr ⟨hp, hf, hi⟩)⟩

theorem waits_shift {q : Queues} {r : Role} {e : Nat} :
    (q.shift r).Waits e ↔ ∃ r', r' ≠ r ∧ q.slot r'.following = some e := by
  constructor
  · intro ⟨r', hr'⟩
    rcases shift_eq_some.mp hr' with ⟨hp, -⟩ | ⟨-, hf, hi⟩
    · exact absurd hp.symm (Role.previous_ne_following r r')
    · exact ⟨r', fun h => hf (h ▸ rfl), hi⟩
  · intro ⟨r', hne, hr'⟩
    refine ⟨r', shift_eq_some.mpr (Or.inr ⟨(Role.previous_ne_following r r').symm, ?_, hr'⟩)⟩
    exact fun h => hne (Role.following_injective h)

theorem slot_startAll (q : Queues) (e : Option Nat) : (q.startAll e).slot = q.slot := by
  cases e <;> rfl

theorem started_startAll (q : Queues) (e : Option Nat) :
    (q.startAll e).started = q.started ++ e.toList := by
  cases e with
  | none => exact (List.append_nil _).symm
  | some e => rfl

end Queues

namespace SlotsInv

variable {q : Queues} {r : Role}

theorem distinct_shift (h : SlotsInv q) (i j : Slot) (e : Nat) (hi : (q.shift r).slot i = some e)
    (hj : (q.shift r).slot j = some e) : i = j := by
  rcases Queues.shift_eq_some.mp hi with ⟨hip, hif⟩ | ⟨hip, hif, hi⟩
  · rcases Queues.shift_eq_some.mp hj with ⟨hjp, -⟩ | ⟨-, hjf, hj⟩
    · exact hip.trans hjp.symm
    · exact absurd (h.distinct j r.following e hj hif) hjf
  · rcases Queues.shift_eq_some.mp hj with ⟨-, hjf⟩ | ⟨-, -, hj⟩
    · exact absurd (h.distinct i r.following e hi hjf) hif
    · exact h.distinct i j e hi hj

/-- The entity that stops waiting is the one that is started. -/
theorem started_once_shift (h : SlotsInv q) (e : Nat) (he : e < q.heap.next) :
    ((q.shift r).Waits e → (q.started ++ (q.slot r.following).toList).count e = 0) ∧
      (¬(q.shift r).Waits e → (q.started ++ (q.slot r.following).toList).count e = 1) := by
  rw [Queues.waits_shift, List.count_append]
  by_cases hf : q.slot r.following = some e
  · have hone : (q.slot r.following).toList.count e = 1 := by simp [hf]
    rw [(h.started_once e he).1 ⟨r, hf⟩, hone]
    refine ⟨?_, fun _ => rfl⟩
    intro ⟨r', hne, hr'⟩
    exact absurd (Role.following_injective (h.distinct _ _ e hr' hf)) hne
  · have hzero : (q.slot r.following).toList.count e = 0 := by
      rw [List.count_eq_zero, Option.mem_toList]
      exact hf
    have hiff : (∃ r', r' ≠ r ∧ q.slot r'.following = some e) ↔ q.Waits e := by
      constructor
      · exact fun ⟨r', _, hr'⟩ => ⟨r', hr'⟩
      · exact fun ⟨r', hr'⟩ => ⟨r', fun h => hf (h ▸ hr'), hr'⟩
    rw [hiff, hzero, Nat.add_zero]
    exact h.started_once e he

theorem started_lt_shift (h : SlotsInv q) (e : Nat)
    (he : e ∈ q.started ++ (q.slot r.following).toList) : e < q.heap.next := by
  rcases List.mem_append.mp he with he | he
  · exact h.started_lt e he
  · exact (h.live_slot (Option.mem_toList.mp he)).lt

/-- A queue without a previous entity moves on. -/
theorem promote (h : SlotsInv q) (hp : q.slot r.previous = none) :
    SlotsInv ((q.shift r).startAll (q.slot r.following)) := by
  have hholds (e : Nat) : (q.shift r).Holds e ↔ q.Holds e := by
    rw [Queues.holds_shift]
    constructor
    · exact fun ⟨i, _, hi⟩ => ⟨i, hi⟩
    · intro ⟨i, hi⟩
      refine ⟨i, ?_, hi⟩
      rintro rfl
      rw [hp] at hi
      cases hi
  cases hf : q.slot r.following with
  | none =>
    have hs := h.started_once_shift (r := r)
    rw [hf, Option.toList_none, List.append_nil] at hs
    exact ⟨h.distinct_shift, fun e => (h.live e).trans (hholds e).symm, h.started_lt, hs, h.freed_lt,
      fun e he => by rw [Queues.startAll, hholds]; exact h.freed_once e he⟩
  | some f =>
    have hs := h.started_once_shift (r := r)
    have hlt := h.started_lt_shift (r := r)
    rw [hf] at hs hlt
    refine ⟨h.distinct_shift, fun e => (h.live e).trans (hholds e).symm, hlt, hs, h.freed_lt, ?_⟩
    intro e he
    change ((q.shift r).Holds e → _) ∧ (¬(q.shift r).Holds e → _)
    rw [hholds]
    exact h.freed_once e he

/-- A queue whose previous entity is freed moves on. -/
theorem retire (h : SlotsInv q) {e : Nat} {heap : Heap RlEntity} (hp : q.slot r.previous = some e)
    (hfree : q.heap.free e = some heap) :
    SlotsInv (((q.drop e heap).shift r).startAll (q.slot r.following)) := by
  have hholds (f : Nat) : (q.shift r).Holds f ↔ f ≠ e ∧ q.Holds f := by
    rw [Queues.holds_shift]
    constructor
    · intro ⟨i, hne, hi⟩
      refine ⟨?_, i, hi⟩
      rintro rfl
      exact hne (h.distinct i _ f hi hp)
    · intro ⟨hne, i, hi⟩
      refine ⟨i, ?_, hi⟩
      rintro rfl
      exact hne (Option.some.inj (hi.symm.trans hp))
  have hslot : (((q.drop e heap).shift r).startAll (q.slot r.following)).slot =
      (q.shift r).slot := Queues.slot_startAll _ _
  have hheap : (((q.drop e heap).shift r).startAll (q.slot r.following)).heap = heap := by
    cases q.slot r.following <;> rfl
  have hfreed : (((q.drop e heap).shift r).startAll (q.slot r.following)).freed =
      q.freed ++ [e] := by
    cases q.slot r.following <;> rfl
  have hstarted : (((q.drop e heap).shift r).startAll (q.slot r.following)).started =
      q.started ++ (q.slot r.following).toList := Queues.started_startAll _ _
  have hnext : heap.next = q.heap.next := Heap.next_free hfree
  have he : e < q.heap.next := (h.live_slot hp).lt
  constructor
  · rw [hslot]
    exact h.distinct_shift
  · intro f
    rw [hheap, Queues.Holds, hslot]
    exact (Heap.live_free hfree).trans ((and_congr_right fun _ => h.live f).trans (hholds f).symm)
  · rw [hstarted, hheap, hnext]
    exact h.started_lt_shift
  · rw [hstarted, hheap, hnext]
    unfold Queues.Waits
    rw [hslot]
    exact h.started_once_shift
  · rw [hfreed, hheap, hnext]
    intro f hf
    rcases List.mem_append.mp hf with hf | hf
    · exact h.freed_lt f hf
    · exact List.mem_singleton.mp hf ▸ he
  · rw [hfreed, hheap, hnext]
    intro f hf
    rw [Queues.Holds, hslot, List.count_append]
    change ((q.shift r).Holds f → _) ∧ (¬(q.shift r).Holds f → _)
    rw [hholds]
    by_cases hfe : f = e
    · subst hfe
      rw [(h.freed_once f hf).1 ⟨_, hp⟩]
      simp
    · rw [List.count_singleton, if_neg (by simpa using Ne.symm hfe), Nat.add_zero]
      simpa only [ne_eq, hfe, not_false_eq_true, true_and] using h.freed_once f hf

theorem launched (h : SlotsInv q) {status : LaunchStatus} {q' : Queues}
    (hl : Launched r q status q') : SlotsInv q' := by
  cases hl with
  | empty _ _ => exact h
  | wait e _ => exact h
  | promote e hp hf =>
    have := h.promote hp
    rwa [hf] at this
  | retire e heap hp hfree => exact h.retire hp hfree

end SlotsInv

end TuyaSdk.RoleLaunch
