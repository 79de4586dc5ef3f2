import Mathlib

/-!
# Handles

A function keeps a handle of a device in a variable: it opens the device, uses the handle and
closes it, and calls others that have a handle of their own. A call is balanced when no handle is
lost, used or closed that is not open, and none is left open, in the call and in those it makes.
Then the device counts as many holders behind the call as before it (`Balanced.holders`).
-/

namespace TuyaSdk.Lib.Handles

/-- What a function does with its handle. -/
inductive Event where
  | acquire
  | use
  | release
  | call (events : List Event)

/-- The variable of a handle. -/
inductive Handle where
  | unused
  | opened
  | closed
  deriving DecidableEq

/-- The handle is not left open. -/
def Handle.settled : Handle → Bool
  | .opened => false
  | _ => true

mutual

/-- What is left of the handle; `none` is a handle that is lost, or used or closed when it is not
open, or a call that is not balanced. -/
def Event.after (h : Handle) : Event → Option Handle
  | .acquire => if h = .opened then none else some .opened
  | .use => if h = .opened then some .opened else none
  | .release => if h = .opened then some .closed else none
  | .call events => if (afterAll .unused events).any Handle.settled then some h else none

/-- What is left of the handle behind all of the events. -/
def afterAll (h : Handle) : List Event → Option Handle
  | [] => some h
  | e :: es => (e.after h).bind fun h' => afterAll h' es

end

/-- Every handle is closed once, and not used behind its close. -/
def Balanced (events : List Event) : Prop := (afterAll .unused events).any Handle.settled = true

instance (events : List Event) : Decidable (Balanced events) :=
  inferInstanceAs (Decidable (_ = true))

theorem afterAll_nil (h : Handle) : afterAll h [] = some h := rfl

theorem afterAll_cons (h : Handle) (e : Event) (es : List Event) :
    afterAll h (e :: es) = (e.after h).bind fun h' => afterAll h' es := rfl

theorem Event.after_call (h : Handle) (events : List Event) :
    (Event.call events).after h =
      if (afterAll .unused events).any Handle.settled then some h else none := rfl

theorem afterAll_append (h : Handle) (es es' : List Event) :
    afterAll h (es ++ es') = (afterAll h es).bind fun h' => afterAll h' es' := by
  induction es generalizing h with
  | nil => rfl
  | cons e es ih =>
    rw [List.cons_append, afterAll_cons, afterAll_cons, Option.bind_assoc]
    exact congrArg _ (funext fun h' => ih h')

/-! ## Calls -/

/-- What a call does with its handle, and what it returns. -/
structure Call (α : Type) where
  events : List Event
  ret : α

namespace Call

variable {α β : Type} {h : Handle}

instance : Monad Call where
  pure a := ⟨[], a⟩
  bind p f := ⟨p.events ++ (f p.ret).events, (f p.ret).ret⟩

/-- The handle of the call. -/
def perform (e : Event) : Call Unit := ⟨[e], ()⟩

/-- A call of a function with a handle of its own. -/
def nested (p : Call α) : Call α := ⟨[.call p.events], p.ret⟩

/-- A part of a call under a condition. -/
def onlyIf (c : Prop) [Decidable c] (p : Call Unit) : Call Unit := if c then p else pure ()

/-- The call is balanced. -/
def Neutral (p : Call α) : Prop := Balanced p.events

instance (p : Call α) : Decidable p.Neutral := inferInstanceAs (Decidable (Balanced _))

/-- What the call leaves of the handle. -/
def leaves (p : Call α) (h : Handle) : Option Handle := afterAll h p.events

theorem neutral_iff_settled (p : Call α) :
    p.Neutral ↔ (p.leaves .unused).any Handle.settled = true :=
  Iff.rfl

@[simp] theorem leaves_pure (a : α) : (pure a : Call α).leaves h = some h := rfl

@[simp] theorem leaves_bind (p : Call α) (f : α → Call β) :
    (p >>= f).leaves h = (p.leaves h).bind fun h' => (f p.ret).leaves h' :=
  afterAll_append h p.events (f p.ret).events

@[simp] theorem ret_pure (a : α) : (pure a : Call α).ret = a := rfl

@[simp] theorem ret_bind (p : Call α) (f : α → Call β) : (p >>= f).ret = (f p.ret).ret := rfl

@[simp] theorem ret_nested (p : Call α) : p.nested.ret = p.ret := rfl

theorem leaves_nested_eq (p : Call α) :
    p.nested.leaves h = if (p.leaves .unused).any Handle.settled then some h else none := by
  change ((Event.call p.events).after h).bind (afterAll · []) = _
  rw [Event.after_call]
  exact Option.bind_fun_some _

theorem leaves_nested {p : Call α} (hp : p.Neutral) : p.nested.leaves h = some h :=
  (leaves_nested_eq p).trans (if_pos hp)

theorem leaves_nested_leak {p : Call α} (hp : ¬p.Neutral) : p.nested.leaves h = none :=
  (leaves_nested_eq p).trans (if_neg hp)

theorem onlyIf_pos {c : Prop} [Decidable c] (hc : c) (p : Call Unit) : onlyIf c p = p := if_pos hc

theorem onlyIf_neg {c : Prop} [Decidable c] (hc : ¬c) (p : Call Unit) : onlyIf c p = pure () :=
  if_neg hc

theorem leaves_onlyIf {c : Prop} [Decidable c] {p : Call Unit} (hp : p.leaves h = some h) :
    (onlyIf c p).leaves h = some h := by
  unfold onlyIf
  split_ifs
  · exact hp
  · rfl

theorem leaves_perform (e : Event) : (perform e).leaves h = e.after h :=
  Option.bind_fun_some (e.after h)

@[simp] theorem leaves_acquire :
    (perform .acquire).leaves h = if h = .opened then none else some .opened := by
  exact leaves_perform _

@[simp] theorem leaves_use :
    (perform .use).leaves h = if h = .opened then some .opened else none := by
  exact leaves_perform _

@[simp] theorem leaves_release :
    (perform .release).leaves h = if h = .opened then some .closed else none := by
  exact leaves_perform _

theorem nested_neutral_iff {p : Call α} : p.nested.Neutral ↔ p.Neutral := by
  rw [neutral_iff_settled]
  by_cases hp : p.Neutral
  · rw [leaves_nested hp]
    exact iff_of_true rfl hp
  · rw [leaves_nested_leak hp]
    exact iff_of_false Bool.false_ne_true hp

/-- The call does not close an open handle of its caller's variable. -/
def Holds (p : Call α) : Prop := ∀ h, p.leaves .opened = some h → h = .opened

theorem holds_pure (a : α) : (pure a : Call α).Holds := fun _ hh => (Option.some.inj hh).symm

theorem Holds.bind {p : Call α} {f : α → Call β} (hp : p.Holds) (hf : (f p.ret).Holds) :
    (p >>= f).Holds := by
  intro h hh
  rw [leaves_bind] at hh
  obtain ⟨h', hh', hrest⟩ := Option.bind_eq_some_iff.mp hh
  rw [hp h' hh'] at hrest
  exact hf h hrest

theorem holds_use : (perform .use).Holds := by
  intro h hh
  rw [leaves_use, if_pos rfl] at hh
  exact (Option.some.inj hh).symm

theorem holds_nested (p : Call α) : p.nested.Holds := by
  intro h hh
  by_cases hp : p.Neutral
  · rw [leaves_nested hp] at hh
    exact (Option.some.inj hh).symm
  · rw [leaves_nested_leak hp] at hh
    exact absurd hh (by simp)

theorem Holds.onlyIf {c : Prop} [Decidable c] {p : Call Unit} (hp : p.Holds) :
    (Call.onlyIf c p).Holds := by
  unfold Call.onlyIf
  split_ifs
  · exact hp
  · exact holds_pure ()

/-- A handle that is opened and held is left open. -/
theorem Holds.not_neutral {p : Call α} (hp : p.Holds) :
    ¬(perform .acquire >>= fun _ => p).Neutral := by
  rw [neutral_iff_settled, leaves_bind, leaves_acquire, if_neg (by decide), Option.bind_some]
  cases hleft : p.leaves .opened with
  | none => exact Bool.false_ne_true
  | some h =>
    rw [hp h hleft]
    exact Bool.false_ne_true

end Call

/-! ## The device -/

/-- A device that counts its holders, up to a bound. -/
structure Device (δ : Type) where
  acquire : δ → δ
  release : δ → δ
  holders : Nat → δ
  bound : Nat
  acquire_holders : ∀ n, n + 1 < bound → acquire (holders n) = holders (n + 1)
  release_holders : ∀ n, n + 1 < bound → release (holders (n + 1)) = holders n

variable {δ : Type} (D : Device δ)

mutual

/-- What the device goes through. -/
def Event.onDevice (d : δ) : Event → δ
  | .acquire => D.acquire d
  | .use => d
  | .release => D.release d
  | .call events => onDeviceAll d events

def onDeviceAll (d : δ) : List Event → δ
  | [] => d
  | e :: es => onDeviceAll (e.onDevice d) es

end

mutual

/-- How often the device is opened. -/
def Event.opens : Event → Nat
  | .acquire => 1
  | .use => 0
  | .release => 0
  | .call events => opensAll events

def opensAll : List Event → Nat
  | [] => 0
  | e :: es => e.opens + opensAll es

end

/-- The handle is one of the holders. -/
def Handle.held : Handle → Nat
  | .opened => 1
  | _ => 0

theorem Handle.held_of_settled {h : Handle} (hs : h.settled = true) : h.held = 0 := by
  cases h
  · rfl
  · exact absurd hs Bool.false_ne_true
  · rfl

/-- A handle is held only when the device was opened for it. -/
theorem Event.held_le {h h' : Handle} (e : Event) (hafter : e.after h = some h') :
    h'.held ≤ h.held + e.opens := by
  cases e with
  | acquire =>
    rw [Event.after] at hafter
    split_ifs at hafter
    rw [← Option.some.inj hafter]
    exact Nat.le_add_left 1 _
  | use =>
    rw [Event.after] at hafter
    split_ifs at hafter with hopen
    rw [hopen, ← Option.some.inj hafter]
    exact Nat.le_add_right _ _
  | release =>
    rw [Event.after] at hafter
    split_ifs at hafter
    rw [← Option.some.inj hafter]
    exact Nat.zero_le _
  | call events =>
    rw [Event.after] at hafter
    split_ifs at hafter
    rw [← Option.some.inj hafter]
    exact Nat.le_add_right _ _

mutual

theorem Event.onDevice_holders {h h' : Handle} {n : Nat} : ∀ e : Event, e.after h = some h' →
    n + h.held + e.opens < D.bound →
    e.onDevice D (D.holders (n + h.held)) = D.holders (n + h'.held)
  | .acquire, hafter, hroom => by
    rw [Event.after] at hafter
    split_ifs at hafter with hopen
    obtain rfl := Option.some.inj hafter
    have hheld : h.held = 0 := by
      cases h
      · rfl
      · exact absurd rfl hopen
      · rfl
    rw [hheld] at hroom ⊢
    exact D.acquire_holders n hroom
  | .use, hafter, _ => by
    rw [Event.after] at hafter
    split_ifs at hafter with hopen
    rw [hopen, ← Option.some.inj hafter]
    rfl
  | .release, hafter, hroom => by
    rw [Event.after] at hafter
    split_ifs at hafter with hopen
    rw [← Option.some.inj hafter]
    rw [hopen] at hroom ⊢
    exact D.release_holders n hroom
  | .call events, hafter, hroom => by
    rw [Event.after] at hafter
    split_ifs at hafter with hsettled
    obtain rfl := Option.some.inj hafter
    obtain ⟨h'', hall, hs⟩ := (Option.any_eq_true _ _).mp hsettled
    have hinner := onDeviceAll_holders (n := n + h.held) events hall hroom
    rwa [Handle.held_of_settled hs] at hinner

/-- The device counts the handle of the call, and otherwise what it has counted before. -/
theorem onDeviceAll_holders {h h' : Handle} {n : Nat} : ∀ es : List Event, afterAll h es = some h' →
    n + h.held + opensAll es < D.bound →
    onDeviceAll D (D.holders (n + h.held)) es = D.holders (n + h'.held)
  | [], hafter, _ => by
    rw [afterAll] at hafter
    rw [← Option.some.inj hafter]
    rfl
  | e :: es, hafter, hroom => by
    rw [afterAll] at hafter
    obtain ⟨h'', he, hes⟩ := Option.bind_eq_some_iff.mp hafter
    rw [opensAll] at hroom
    have hle := e.held_le he
    rw [onDeviceAll, e.onDevice_holders he (by omega)]
    exact onDeviceAll_holders es hes (by omega)

end

/-- A balanced call leaves as many holders as it finds. -/
theorem Balanced.holders {es : List Event} (h : Balanced es) {n : Nat}
    (hroom : n + opensAll es < D.bound) : onDeviceAll D (D.holders n) es = D.holders n := by
  obtain ⟨h', hall, hs⟩ := (Option.any_eq_true _ _).mp h
  have hcount := onDeviceAll_holders D (n := n) es hall hroom
  rwa [Handle.held_of_settled hs] at hcount

end TuyaSdk.Lib.Handles
