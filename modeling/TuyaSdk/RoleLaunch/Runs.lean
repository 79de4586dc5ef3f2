import TuyaSdk.RoleLaunch.Slots

/-!
# Runs of the role launcher

Both handlers keep `Good`: the slots are in order, and an entity that waits has the launch timer
armed. The timer is not armed again only when both launches are over, and a launch that is over
leaves its queue empty. The other tasks write only shared words, so every run keeps `Good`.
-/

namespace TuyaSdk.RoleLaunch

open TuyaSdk.Lib

/-- The launch timer is armed when an entity waits, and its handler looks at the queues once
there is an entity. -/
structure Armed (q : Queues) : Prop where
  armed : ∀ (r : Role) (e : Nat), q.slot r.following = some e → q.rlTimer = true
  idle : q.preEntityType = .idle → ∀ i, q.slot i = none
  not_mesh : q.preEntityType ≠ .mesh

structure Good (q : Queues) : Prop where
  slots : SlotsInv q
  armed : Armed q

/-! ## A request enters -/

namespace SlotsInv

variable {q : Queues}

/-- The entity that is allocated next is not one of the earlier ones. -/
theorem not_holds_next (h : SlotsInv q) : ¬q.Holds q.heap.next := by
  intro hh
  exact Nat.lt_irrefl _ ((h.live _).mpr hh).lt

theorem slot_ne_next (h : SlotsInv q) (i : Slot) : q.slot i ≠ some q.heap.next :=
  fun hi => h.not_holds_next ⟨i, hi⟩

/-- A new entity in an empty slot. -/
theorem distinct_set (h : SlotsInv q) (i : Slot) :
    ∀ j k e, (q.set i (some q.heap.next)).slot j = some e →
      (q.set i (some q.heap.next)).slot k = some e → j = k := by
  intro j k e hj hk
  by_cases hji : j = i <;> by_cases hki : k = i
  · exact hji.trans hki.symm
  · subst hji
    rw [Queues.slot_set_same] at hj
    rw [Queues.slot_set_ne _ _ hki, ← hj] at hk
    exact absurd hk (h.slot_ne_next k)
  · subst hki
    rw [Queues.slot_set_same] at hk
    rw [Queues.slot_set_ne _ _ hji, ← hk] at hj
    exact absurd hj (h.slot_ne_next j)
  · rw [Queues.slot_set_ne _ _ hji] at hj
    rw [Queues.slot_set_ne _ _ hki] at hk
    exact h.distinct j k e hj hk

theorem holds_set {i : Slot} {e : Nat} (hi : q.slot i = none) :
    (q.set i (some q.heap.next)).Holds e ↔ e = q.heap.next ∨ q.Holds e := by
  constructor
  · intro ⟨j, hj⟩
    by_cases hji : j = i
    · subst hji
      rw [Queues.slot_set_same] at hj
      exact Or.inl (Option.some.inj hj).symm
    · rw [Queues.slot_set_ne _ _ hji] at hj
      exact Or.inr ⟨j, hj⟩
  · rintro (rfl | ⟨j, hj⟩)
    · exact ⟨i, Queues.slot_set_same _ _ _⟩
    · refine ⟨j, ?_⟩
      rw [Queues.slot_set_ne]
      · exact hj
      · rintro rfl
        rw [hi] at hj
        cases hj

theorem waits_set_previous {r : Role} {e : Nat} :
    (q.set r.previous (some q.heap.next)).Waits e ↔ q.Waits e := by
  refine exists_congr fun r' => ?_
  rw [Queues.slot_set_ne _ _ (Role.previous_ne_following r r').symm]

theorem waits_set_following {r : Role} {e : Nat} (hr : q.slot r.following = none) :
    (q.set r.following (some q.heap.next)).Waits e ↔ e = q.heap.next ∨ q.Waits e := by
  constructor
  · intro ⟨r', hr'⟩
    by_cases hrr : r'.following = r.following
    · rw [hrr, Queues.slot_set_same] at hr'
      exact Or.inl (Option.some.inj hr').symm
    · rw [Queues.slot_set_ne _ _ hrr] at hr'
      exact Or.inr ⟨r', hr'⟩
  · rintro (rfl | ⟨r', hr'⟩)
    · exact ⟨r, Queues.slot_set_same _ _ _⟩
    · refine ⟨r', ?_⟩
      rw [Queues.slot_set_ne]
      · exact hr'
      · intro hrr
        rw [hrr, hr] at hr'
        cases hr'

theorem live_malloc (h : SlotsInv q) {i : Slot} (b : RlEntity) (hi : q.slot i = none) (e : Nat) :
    (q.heap.malloc b).Live e ↔ (q.set i (some q.heap.next)).Holds e := by
  rw [Heap.live_malloc, holds_set hi, h.live e]

theorem freed_once_malloc (h : SlotsInv q) {i : Slot} (hi : q.slot i = none) (e : Nat)
    (he : e < q.heap.next + 1) :
    ((q.set i (some q.heap.next)).Holds e → q.freed.count e = 0) ∧
      (¬(q.set i (some q.heap.next)).Holds e → q.freed.count e = 1) := by
  rw [holds_set hi]
  rcases Nat.lt_succ_iff_lt_or_eq.mp he with he | rfl
  · rw [or_iff_right (Nat.ne_of_lt he)]
    exact h.freed_once e he
  · refine ⟨fun _ => ?_, fun hn => absurd (Or.inl rfl) hn⟩
    exact List.count_eq_zero.mpr fun hm => Nat.lt_irrefl _ (h.freed_lt _ hm)

theorem started_count_next (h : SlotsInv q) : q.started.count q.heap.next = 0 :=
  List.count_eq_zero.mpr fun hm => Nat.lt_irrefl _ (h.started_lt _ hm)

/-- A new entity is the previous one of a queue, and started. -/
theorem enter_previous (h : SlotsInv q) {r : Role} (b : RlEntity) (hr : q.slot r.previous = none) :
    SlotsInv
      (({ q with heap := q.heap.malloc b }.set r.previous (some q.heap.next)).start
        q.heap.next) := by
  constructor
  · exact h.distinct_set r.previous
  · exact h.live_malloc b hr
  · intro e he
    rcases List.mem_append.mp he with he | he
    · exact Nat.lt_succ_of_lt (h.started_lt e he)
    · rw [List.mem_singleton.mp he]
      exact Nat.lt_succ_self q.heap.next
  · intro e he
    change ((q.set r.previous (some q.heap.next)).Waits e →
        (q.started ++ [q.heap.next]).count e = 0) ∧
      (¬(q.set r.previous (some q.heap.next)).Waits e →
        (q.started ++ [q.heap.next]).count e = 1)
    rw [waits_set_previous, List.count_append]
    rcases Nat.lt_succ_iff_lt_or_eq.mp he with he | rfl
    · rw [List.count_eq_zero.mpr fun hm => Nat.ne_of_lt he (List.mem_singleton.mp hm), Nat.add_zero]
      exact h.started_once e he
    · rw [h.started_count_next]
      refine ⟨fun hw => absurd hw.holds h.not_holds_next, fun _ => by simp⟩
  · exact fun e he => Nat.lt_succ_of_lt (h.freed_lt e he)
  · exact h.freed_once_malloc hr

/-- A new entity waits in a queue. -/
theorem enter_following (h : SlotsInv q) {r : Role} (b : RlEntity)
    (hr : q.slot r.following = none) :
    SlotsInv ({ q with heap := q.heap.malloc b }.set r.following (some q.heap.next)).rlStart := by
  constructor
  · exact h.distinct_set r.following
  · exact h.live_malloc b hr
  · exact fun e he => Nat.lt_succ_of_lt (h.started_lt e he)
  · intro e he
    change ((q.set r.following (some q.heap.next)).Waits e → q.started.count e = 0) ∧
      (¬(q.set r.following (some q.heap.next)).Waits e → q.started.count e = 1)
    rw [waits_set_following hr]
    rcases Nat.lt_succ_iff_lt_or_eq.mp he with he | rfl
    · rw [or_iff_right (Nat.ne_of_lt he)]
      exact h.started_once e he
    · exact ⟨fun _ => h.started_count_next, fun hn => absurd (Or.inl rfl) hn⟩
  · exact fun e he => Nat.lt_succ_of_lt (h.freed_lt e he)
  · exact h.freed_once_malloc hr

end SlotsInv

theorem SlotsInv.firstEntity {q : Queues} (h : SlotsInv q) (t : PreEntity) :
    SlotsInv (firstEntity t q) := by
  unfold RoleLaunch.firstEntity
  split
  · exact ⟨h.distinct, h.live, h.started_lt, h.started_once, h.freed_lt, h.freed_once⟩
  · exact h

/-- Once there is an entity, the type is that of a queue. -/
theorem Armed.firstEntity {q : Queues} {t : PreEntity} (ht : t = .sta ∨ t = .ap)
    (harmed : ∀ (r : Role) (e : Nat), q.slot r.following = some e → q.rlTimer = true)
    (hmesh : q.preEntityType ≠ .mesh) : Armed (firstEntity t q) := by
  unfold RoleLaunch.firstEntity
  split
  · rcases ht with rfl | rfl
    · exact ⟨harmed, nofun, nofun⟩
    · exact ⟨harmed, nofun, nofun⟩
  · rename_i hidle
    exact ⟨harmed, fun h => absurd h hidle, hmesh⟩

theorem Good.enter_previous {q : Queues} (h : Good q) {r : Role} {t : PreEntity}
    (ht : t = .sta ∨ t = .ap) (b : RlEntity) (hr : q.slot r.previous = none) :
    Good (firstEntity t
      (({ q with heap := q.heap.malloc b }.set r.previous (some q.heap.next)).start
        q.heap.next)) := by
  refine ⟨(h.slots.enter_previous b hr).firstEntity t, Armed.firstEntity ht ?_ h.armed.not_mesh⟩
  intro r' e he
  rw [Queues.slot_start, Queues.slot_set_ne _ _ (Role.previous_ne_following r r').symm] at he
  exact h.armed.armed r' e he

theorem Good.enter_following {q : Queues} (h : Good q) {r : Role} {t : PreEntity}
    (ht : t = .sta ∨ t = .ap) (b : RlEntity) (hr : q.slot r.following = none) :
    Good (firstEntity t
      ({ q with heap := q.heap.malloc b }.set r.following (some q.heap.next)).rlStart) :=
  ⟨(h.slots.enter_following b hr).firstEntity t,
    Armed.firstEntity ht (fun _ _ _ => rfl) h.armed.not_mesh⟩

theorem Good.rlStart {q : Queues} (h : Good q) : Good q.rlStart :=
  ⟨⟨h.slots.distinct, h.slots.live, h.slots.started_lt, h.slots.started_once, h.slots.freed_lt,
    h.slots.freed_once⟩, fun _ _ _ => rfl, h.armed.idle, h.armed.not_mesh⟩

/-! ## The enter handler -/

/-- The worlds in which the code ends, or in which an `ASSERT` stops it, are good. -/
def Enter.Keeps {α : Type} (out : α → World) : Enter α → Prop
  | .ok a => Good (out a).queues
  | .error w => Good w.queues

/-- An allocation fails, or gives the next entity to what comes after it. -/
theorem rlAllocEntity_keeps {w : World} (h : Good w.queues) (param : LaunchReq)
    (completion : UInt32) (f : Nat → World → UInt32 × World)
    (hf : ∀ w' b, w'.queues = { w.queues with heap := w.queues.heap.malloc b } →
      Good (f w.queues.heap.next w').2.queues) :
    Enter.Keeps (·.2) (match rlAllocEntity param completion w with
      | (none, w) => throw w
      | (some entity, w) => pure (f entity w)) := by
  unfold rlAllocEntity World.alloc
  cases w.allocs.headD true
  · exact h
  · exact hf _ _ rfl

theorem staRequestEnter_keeps {w : World} (h : Good w.queues) (param : LaunchReq)
    (completion : UInt32) : (staRequestEnter param completion w).Keeps (·.2) := by
  unfold staRequestEnter
  split
  · rename_i hprev
    refine rlAllocEntity_keeps h param completion _ fun w' b hq => ?_
    have := h.enter_previous (r := .sta) (t := .sta) (Or.inl rfl) b hprev.2
    rw [← hq] at this
    exact this
  · split
    · rename_i hfoll
      refine rlAllocEntity_keeps h param completion _ fun w' b hq => ?_
      have := h.enter_following (r := .sta) (t := .sta) (Or.inl rfl) b hfoll
      rw [← hq] at this
      exact this
    · exact h.rlStart

theorem apRequestEnter_keeps {w : World} (h : Good w.queues) (param : LaunchReq)
    (completion : UInt32) : (apRequestEnter param completion w).Keeps (·.2) := by
  unfold apRequestEnter
  split
  · rename_i hprev
    refine rlAllocEntity_keeps h param completion _ fun w' b hq => ?_
    have := h.enter_previous (r := .ap) (t := .ap) (Or.inr rfl) b hprev.1
    rw [← hq] at this
    exact this
  · split
    · rename_i hfoll
      refine rlAllocEntity_keeps h param completion _ fun w' b hq => ?_
      have := h.enter_following (r := .ap) (t := .ap) (Or.inr rfl) b hfoll
      rw [← hq] at this
      exact this
    · exact h.rlStart

theorem Enter.Keeps.bind {α β : Type} {out : α → World} {out' : β → World} {m : Enter α}
    {f : α → Enter β} (hm : m.Keeps out) (hf : ∀ a, Good (out a).queues → (f a).Keeps out') :
    (m >>= f).Keeps out' := by
  cases m with
  | ok a => exact hf a hm
  | error w => exact hm

theorem enterSta_keeps {w : World} (h : Good w.queues) (socket : RlSocket) :
    (enterSta socket w).Keeps id := by
  unfold enterSta
  split
  · refine (staRequestEnter_keeps (w := w.pause) h _ _).bind fun a ha => ?_
    change Good (if _ then _ else _ : World).queues
    split
    · exact ha
    · exact ha
  · exact h

theorem enterAp_keeps {w : World} (h : Good w.queues) (socket : RlSocket) :
    (enterAp socket w).Keeps id := by
  unfold enterAp
  split
  · exact (apRequestEnter_keeps (w := w.pause) h _ _).bind fun a ha => ha
  · exact h

theorem rlEnterHandler_keeps {w : World} (h : Good w.queues) :
    (rlEnterHandler w).Keeps id := by
  unfold rlEnterHandler World.alloc
  simp only
  split
  · refine Enter.Keeps.bind (enterSta_keeps ?_ _) fun w' hw' => enterAp_keeps hw' _
    exact h
  · exact h

/-! ## The launch handler -/

theorem Launched.type {r : Role} {q q' : Queues} {status : LaunchStatus}
    (h : Launched r q status q') : q'.preEntityType = q.preEntityType := by
  cases h with
  | empty _ _ => rfl
  | wait _ _ => rfl
  | promote _ _ _ => rfl
  | retire _ _ _ _ => cases q.slot r.following <;> rfl

/-- A launch that is over leaves its queue empty. -/
theorem Launched.launchOver {r : Role} {q q' : Queues} (h : Launched r q .launchOver q') :
    q'.slot r.previous = none ∧ q'.slot r.following = none := by
  generalize hs : LaunchStatus.launchOver = status at h
  cases h with
  | empty hp hf => exact ⟨hp, hf⟩
  | wait _ _ => cases hs
  | promote _ _ _ => cases hs
  | retire e heap hp hfree =>
    have hf : q.slot r.following = none := by
      by_contra hne
      rw [if_neg hne] at hs
      cases hs
    rw [hf, Queues.startAll, Queues.shift_previous, Queues.shift_following]
    exact ⟨hf, rfl⟩

/-- A launch leaves the other queue alone. -/
theorem Launched.other {r : Role} {q q' : Queues} {status : LaunchStatus}
    (h : Launched r q status q') {i : Slot} (hp : i ≠ r.previous) (hf : i ≠ r.following) :
    q'.slot i = q.slot i := by
  cases h with
  | empty _ _ => rfl
  | wait _ _ => rfl
  | promote _ _ _ => exact Queues.shift_other q hp hf
  | retire e heap _ _ =>
    rw [Queues.slot_startAll]
    exact Queues.shift_other (q.drop e heap) hp hf

/-- What the `switch` of the launch handler leaves. -/
structure Switched (rets : LaunchStatus × LaunchStatus) (q : Queues) : Prop where
  slots : SlotsInv q
  idle : q.preEntityType = .idle → ∀ i, q.slot i = none
  not_mesh : q.preEntityType ≠ .mesh
  launchOver : rets.1 = .launchOver → rets.2 = .launchOver → ∀ i, q.slot i = none

theorem SlotsInv.withType {q : Queues} (h : SlotsInv q) (t : PreEntity) :
    SlotsInv { q with preEntityType := t } :=
  ⟨h.distinct, h.live, h.started_lt, h.started_once, h.freed_lt, h.freed_once⟩

/-- One queue is over, and the other one launches after it. -/
theorem Switched.second {r : Role} {q q₁ q₂ : Queues} {status : LaunchStatus} {t : PreEntity}
    (ht : t = .sta ∨ t = .ap) (h : SlotsInv q) (h₁ : Launched r q .launchOver q₁)
    (h₂ : Launched r.other { q₁ with preEntityType := t } status q₂) :
    SlotsInv q₂ ∧ (q₂.preEntityType = .idle → ∀ i, q₂.slot i = none) ∧
      q₂.preEntityType ≠ .mesh ∧ (status = .launchOver → ∀ i, q₂.slot i = none) := by
  refine ⟨((h.launched h₁).withType t).launched h₂, ?_, ?_, ?_⟩
  · rw [h₂.type]
    rcases ht with rfl | rfl <;> exact nofun
  · rw [h₂.type]
    rcases ht with rfl | rfl <;> exact nofun
  · rintro rfl i
    have hsame : ∀ j, j ≠ r.other.previous → j ≠ r.other.following → q₂.slot j = q₁.slot j :=
      fun j hp hf => h₂.other hp hf
    have hprev := hsame r.previous (by cases r <;> decide) (by cases r <;> decide)
    have hfoll := hsame r.following (by cases r <;> decide) (by cases r <;> decide)
    obtain ⟨r', hi⟩ := i.exists_role
    have hr : r' = r ∨ r' = r.other := by cases r <;> cases r' <;> decide
    rcases hr with rfl | rfl
    · rcases hi with rfl | rfl
      · exact hprev.trans h₁.launchOver.1
      · exact hfoll.trans h₁.launchOver.2
    · rcases hi with rfl | rfl
      · exact h₂.launchOver.1
      · exact h₂.launchOver.2

theorem rlLaunchSwitch_does {q : Queues} (h : SlotsInv q)
    (hidle : q.preEntityType = .idle → ∀ i, q.slot i = none) (hmesh : q.preEntityType ≠ .mesh) :
    Does q Switched (rlLaunchSwitch q.preEntityType) := by
  cases ht : q.preEntityType with
  | idle => exact Does.pure ⟨h, hidle, hmesh, fun _ _ => hidle ht⟩
  | mesh => exact absurd ht hmesh
  | ap =>
    refine (rlLaunchAp_does h).bind fun status q₁ h₁ => ?_
    have hs₁ := h.launched h₁
    cases status with
    | launchOver =>
      refine Does.onQueues_bind ((rlLaunchSta_does (hs₁.withType .sta)).bind fun status q₂ h₂ => ?_)
      obtain ⟨hs₂, hi₂, hm₂, ho₂⟩ := Switched.second (Or.inl rfl) h h₁ h₂
      exact Does.pure ⟨hs₂, hi₂, hm₂, fun _ => ho₂⟩
    | cont =>
      refine Does.pure ⟨hs₁, ?_, ?_, nofun⟩
      · rw [h₁.type, ht]
        exact nofun
      · rw [h₁.type, ht]
        exact nofun
  | sta =>
    refine (rlLaunchSta_does h).bind fun status q₁ h₁ => ?_
    have hs₁ := h.launched h₁
    cases status with
    | launchOver =>
      refine Does.onQueues_bind ((rlLaunchAp_does (hs₁.withType .ap)).bind fun status q₂ h₂ => ?_)
      obtain ⟨hs₂, hi₂, hm₂, ho₂⟩ := Switched.second (Or.inr rfl) h h₁ h₂
      exact Does.pure ⟨hs₂, hi₂, hm₂, fun hover _ => ho₂ hover⟩
    | cont =>
      refine Does.pure ⟨hs₁, ?_, ?_, nofun⟩
      · rw [h₁.type, ht]
        exact nofun
      · rw [h₁.type, ht]
        exact nofun

/-- The timer is armed again. -/
theorem Switched.relaunch {rets : LaunchStatus × LaunchStatus} {q : Queues} (h : Switched rets q) :
    Good q.rlRelaunchChance :=
  ⟨⟨h.slots.distinct, h.slots.live, h.slots.started_lt, h.slots.started_once, h.slots.freed_lt,
    h.slots.freed_once⟩, fun _ _ _ => rfl, h.idle, h.not_mesh⟩

/-- Both queues are over, and nothing waits. -/
theorem Switched.done {rets : LaunchStatus × LaunchStatus} {q : Queues} (h : Switched rets q)
    (hap : rets.1 = .launchOver) (hsta : rets.2 = .launchOver) : Good q := by
  refine ⟨h.slots, ?_, h.idle, h.not_mesh⟩
  intro r e he
  rw [h.launchOver hap hsta r.following] at he
  cases he

theorem rlLaunchHandler_does {q : Queues} (h : Good q) :
    Does q (fun _ q' => Good q') rlLaunchHandler := by
  have hq : SlotsInv { q with rlTimer := false } :=
    ⟨h.slots.distinct, h.slots.live, h.slots.started_lt, h.slots.started_once, h.slots.freed_lt,
      h.slots.freed_once⟩
  refine Does.onQueues_bind (Does.type_bind ?_)
  refine (rlLaunchSwitch_does hq h.armed.idle h.armed.not_mesh).bind fun ⟨ap, sta⟩ q' hq' => ?_
  change Does q' _ (if _ then _ else _)
  split
  · rintro w rfl
    exact ⟨(), w.onQueues Queues.rlRelaunchChance, rfl, hq'.relaunch⟩
  · rename_i hover
    have hover := not_not.mp hover
    exact Does.pure (hq'.done hover.2 hover.1)

/-! ## Runs -/

theorem init_good : Good Queues.init where
  slots :=
    { distinct := nofun
      live := fun e => iff_of_false (Heap.not_live_empty e) nofun
      started_lt := nofun
      started_once := nofun
      freed_lt := nofun
      freed_once := nofun }
  armed := ⟨nofun, fun _ _ => rfl, nofun⟩

theorem step_good {s : State} (h : Good s.queues) (event : Event) :
    ∃ s', step s event = some (s', ()) ∧ Good s'.queues := by
  unfold step
  split
  · exact ⟨s, rfl, h⟩
  · cases event with
    | update u => exact ⟨_, rfl, h⟩
    | enterTimer updates allocs =>
      have hk := rlEnterHandler_keeps (w := ⟨s.shared, s.queues, updates, allocs⟩) h
      cases hr : rlEnterHandler ⟨s.shared, s.queues, updates, allocs⟩ with
      | ok w =>
        rw [hr] at hk
        exact ⟨⟨w.shared, w.queues, false⟩, by simp only [hr], hk⟩
      | error w =>
        rw [hr] at hk
        exact ⟨⟨w.shared, w.queues, true⟩, by simp only [hr], hk⟩
    | launchTimer updates =>
      obtain ⟨a, w, hw, hgood⟩ :=
        rlLaunchHandler_does h ⟨s.shared, s.queues, updates, []⟩ rfl
      refine ⟨⟨w.shared, w.queues, false⟩, ?_, hgood⟩
      simp only [hw, Option.map_some]

/-- In every run no freed entity is used, the slots hold distinct live entities, every entity is
started once when it stops waiting and freed once when it leaves its slot, and the launch timer
is armed while one waits. -/
theorem role_launch_run (events : List Event) :
    ∃ s os, Machine.run step State.init events = some (s, os) ∧
      (∀ i j e, s.queues.slot i = some e → s.queues.slot j = some e → i = j) ∧
      (∀ i e, s.queues.slot i = some e → s.queues.heap.Live e) ∧
      (∀ e < s.queues.heap.next, s.queues.started.count e ≤ 1) ∧
      (∀ e < s.queues.heap.next, ¬s.queues.Waits e → s.queues.started.count e = 1) ∧
      (∀ e < s.queues.heap.next, s.queues.Holds e → s.queues.freed.count e = 0) ∧
      (∀ e < s.queues.heap.next, ¬s.queues.Holds e → s.queues.freed.count e = 1) ∧
      (s.queues.slot .followingSta ≠ none → s.queues.rlTimer = true) ∧
      (s.queues.slot .followingAp ≠ none → s.queues.rlTimer = true) := by
  obtain ⟨s, os, hrun, h⟩ :=
    Machine.run_total (I := fun s (_ : List Unit) => Good s.queues)
      (fun s os event hs _ => by
        obtain ⟨s', hs', hgood⟩ := step_good hs event
        exact ⟨s', (), hs', hgood⟩)
      init_good (Machine.legal_true State.init events)
  refine ⟨s, os, hrun, h.slots.distinct, fun i e => h.slots.live_slot, ?_,
    fun e he => (h.slots.started_once e he).2, fun e he => (h.slots.freed_once e he).1,
    fun e he => (h.slots.freed_once e he).2, ?_, ?_⟩
  · intro e he
    obtain ⟨hw, hn⟩ := h.slots.started_once e he
    by_cases hwait : s.queues.Waits e
    · rw [hw hwait]
      exact Nat.zero_le 1
    · exact Nat.le_of_eq (hn hwait)
  · intro hne
    obtain ⟨e, he⟩ := Option.ne_none_iff_exists'.mp hne
    exact h.armed.armed .sta e he
  · intro hne
    obtain ⟨e, he⟩ := Option.ne_none_iff_exists'.mp hne
    exact h.armed.armed .ap e he

end TuyaSdk.RoleLaunch
