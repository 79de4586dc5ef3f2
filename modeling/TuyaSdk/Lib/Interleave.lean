import Mathlib

/-!
# Programs that share a state

A `Prog` is a sequence of atomic actions on a shared state: each is checked for legality,
changes the state, and is followed by a program that depends on what the action saw. Labels
name places of interest. `run` runs a program alone.

`Contract` is what one party of several promises and relies on, over the shared state and a
ghost state that its steps may update, and `Meets` says that a program keeps its contract
from a world on, whatever the others do within the contract's `rely`. The rules are the
usual ones: one for each kind of action, `Meets.env` for the steps of the others,
`Meets.step` for a step of its own, and `Meets.run` for a program that is alone.
-/

namespace TuyaSdk.Lib

/-- A program over the shared state `σ` with labels `ℓ` and results `ρ`. -/
inductive Prog (ℓ σ ρ : Type) where
  | ret (r : ρ)
  | act (l : ℓ) (ok : σ → Bool) (f : σ → σ) (k : σ → Prog ℓ σ ρ)

namespace Prog

variable {ℓ σ α β ρ γ : Type}

/-- `p`, followed by `f` of its result. -/
def bind : Prog ℓ σ α → (α → Prog ℓ σ β) → Prog ℓ σ β
  | ret a, f => f a
  | act l ok g k, f => act l ok g fun s => (k s).bind f

instance : Monad (Prog ℓ σ) where
  pure := ret
  bind := bind

/-- One action: what it needs, what it does, and what it sees of the state before. -/
def action (l : ℓ) (ok : σ → Bool) (f : σ → σ) (get : σ → α) : Prog ℓ σ α :=
  act l ok f fun s => ret (get s)

/-- An action that reads. -/
def load (l : ℓ) (get : σ → α) : Prog ℓ σ α := action l (fun _ => true) id get

/-- An action that writes. -/
def store (l : ℓ) (f : σ → σ) : Prog ℓ σ Unit := action l (fun _ => true) f fun _ => ()

/-- The program alone; `none` is an illegal action. -/
def run : Prog ℓ σ ρ → σ → Option (ρ × σ)
  | ret r, s => some (r, s)
  | act _ ok f k, s => if ok s then (k s).run (f s) else none

/-- The next action of the program, if there is one and it is legal. -/
def step : Prog ℓ σ ρ → σ → Option (Prog ℓ σ ρ × σ)
  | ret _, _ => none
  | act _ ok f k, s => if ok s then some (k s, f s) else none

/-- The label of the next action. -/
def label : Prog ℓ σ ρ → Option ℓ
  | ret _ => none
  | act l _ _ _ => some l

end Prog

/-- What a party promises and relies on. `here` holds where an action with the label comes
next, and `may` is the condition under which that action is taken. -/
structure Contract (ℓ σ γ : Type) where
  inv : σ × γ → Prop
  rely : σ × γ → σ × γ → Prop
  guar : σ × γ → σ × γ → Prop
  here : ℓ → σ × γ → Prop
  may : ℓ → σ × γ → Prop
  rely_refl : ∀ x, rely x x
  rely_trans : ∀ x y z, rely x y → rely y z → rely x z
  guar_refl : ∀ x, guar x x

namespace Prog

variable {ℓ σ α β ρ γ : Type} {c : Contract ℓ σ γ} {Q Q' : ρ → σ × γ → Prop}

/-- The program keeps the contract from the world on, and ends in `Q`. -/
def Meets (c : Contract ℓ σ γ) (Q : ρ → σ × γ → Prop) : Prog ℓ σ ρ → σ × γ → Prop
  | ret r, x => ∀ y, c.rely x y → c.inv y → Q r y
  | act l ok f k, x => ∀ y, c.rely x y → c.inv y → c.here l y ∧
      (c.may l y → ok y.1 = true ∧ ∃ g, c.guar y (f y.1, g) ∧ c.inv (f y.1, g) ∧
        (k y.1).Meets c Q (f y.1, g))

/-- What the others do keeps the contract met. -/
theorem Meets.env {p : Prog ℓ σ ρ} {x y : σ × γ} (h : p.Meets c Q x) (hxy : c.rely x y) :
    p.Meets c Q y := by
  cases p with
  | ret r => exact fun z hyz => h z (c.rely_trans x y z hxy hyz)
  | act l ok f k => exact fun z hyz => h z (c.rely_trans x y z hxy hyz)

/-- Where the next action is. -/
theorem Meets.here {p : Prog ℓ σ ρ} {x : σ × γ} {l : ℓ} (h : p.Meets c Q x) (hinv : c.inv x)
    (hl : p.label = some l) : c.here l x := by
  cases p with
  | ret r => cases hl
  | act m ok f k =>
    cases hl
    exact (h x (c.rely_refl x) hinv).1

/-- The next action is legal, and keeps the contract and the invariant. -/
theorem Meets.step {p : Prog ℓ σ ρ} {x : σ × γ} {l : ℓ} (h : p.Meets c Q x) (hinv : c.inv x)
    (hl : p.label = some l) (hmay : c.may l x) :
    ∃ p' s' g', p.step x.1 = some (p', s') ∧ c.guar x (s', g') ∧ c.inv (s', g') ∧
      p'.Meets c Q (s', g') := by
  cases p with
  | ret r => cases hl
  | act m ok f k =>
    cases hl
    obtain ⟨hok, g', hguar, hinv', hk⟩ := (h x (c.rely_refl x) hinv).2 hmay
    exact ⟨k x.1, f x.1, g', if_pos hok, hguar, hinv', hk⟩

theorem Meets.result {r : ρ} {x : σ × γ} (h : (ret r : Prog ℓ σ ρ).Meets c Q x)
    (hinv : c.inv x) : Q r x := h x (c.rely_refl x) hinv

theorem Meets.mono {p : Prog ℓ σ ρ} {x : σ × γ} (h : p.Meets c Q x)
    (hQ : ∀ r y, Q r y → Q' r y) : p.Meets c Q' x := by
  induction p generalizing x with
  | ret r => exact fun y hxy hinv => hQ r y (h y hxy hinv)
  | act l ok f k ih =>
    intro y hxy hinv
    refine ⟨(h y hxy hinv).1, fun hmay => ?_⟩
    obtain ⟨hok, g, hguar, hinv', hk⟩ := (h y hxy hinv).2 hmay
    exact ⟨hok, g, hguar, hinv', ih y.1 hk⟩

/-! ## The rules -/

theorem meets_pure {r : ρ} {x : σ × γ} (h : ∀ y, c.rely x y → c.inv y → Q r y) :
    (pure r : Prog ℓ σ ρ).Meets c Q x := h

theorem meets_action {l : ℓ} {ok : σ → Bool} {f : σ → σ} {get : σ → α} {k : α → Prog ℓ σ ρ}
    {x : σ × γ} (h : ∀ y, c.rely x y → c.inv y → c.here l y ∧
      (c.may l y → ok y.1 = true ∧ ∃ g, c.guar y (f y.1, g) ∧ c.inv (f y.1, g) ∧
        (k (get y.1)).Meets c Q (f y.1, g))) :
    (action l ok f get >>= k).Meets c Q x := h

theorem meets_load {l : ℓ} {get : σ → α} {k : α → Prog ℓ σ ρ} {x : σ × γ}
    (h : ∀ y, c.rely x y → c.inv y → c.here l y ∧ (k (get y.1)).Meets c Q y) :
    (load l get >>= k).Meets c Q x := by
  apply meets_action
  intro y hxy hinv
  obtain ⟨hhere, hk⟩ := h y hxy hinv
  exact ⟨hhere, fun _ => ⟨rfl, y.2, c.guar_refl y, hinv, hk⟩⟩

theorem meets_store {l : ℓ} {f : σ → σ} {k : Unit → Prog ℓ σ ρ} {x : σ × γ}
    (h : ∀ y, c.rely x y → c.inv y → c.here l y ∧
      ∃ g, c.guar y (f y.1, g) ∧ c.inv (f y.1, g) ∧ (k ()).Meets c Q (f y.1, g)) :
    (store l f >>= k).Meets c Q x := by
  apply meets_action
  intro y hxy hinv
  obtain ⟨hhere, g, hk⟩ := h y hxy hinv
  exact ⟨hhere, fun _ => ⟨rfl, g, hk⟩⟩

/-- A part of a program is verified on its own, with what follows it as its end. -/
theorem Meets.bind {p : Prog ℓ σ α} {f : α → Prog ℓ σ ρ} {x : σ × γ} (hinv : c.inv x)
    (h : p.Meets c (fun a y => (f a).Meets c Q y) x) : (p >>= f).Meets c Q x := by
  induction p generalizing x with
  | ret a => exact h.result hinv
  | act l ok g k ih =>
    intro y hxy hy
    obtain ⟨hhere, hstep⟩ := h y hxy hy
    refine ⟨hhere, fun hmay => ?_⟩
    obtain ⟨hok, g', hguar, hinv', hk⟩ := hstep hmay
    exact ⟨hok, g', hguar, hinv', ih y.1 hinv' hk⟩

/-- A program that is alone, from a world where every action may be taken, runs to its end. -/
theorem Meets.run {p : Prog ℓ σ ρ} {x : σ × γ} {J : σ × γ → Prop} (h : p.Meets c Q x)
    (hJ : ∀ y z, J y → c.guar y z → J z) (hmay : ∀ l y, J y → c.may l y)
    (hinv : c.inv x) (hx : J x) :
    ∃ r s g, p.run x.1 = some (r, s) ∧ c.inv (s, g) ∧ J (s, g) ∧ Q r (s, g) := by
  induction p generalizing x with
  | ret r => exact ⟨r, x.1, x.2, rfl, hinv, hx, h.result hinv⟩
  | act l ok f k ih =>
    obtain ⟨hok, g, hguar, hinv', hk⟩ := (h x (c.rely_refl x) hinv).2 (hmay l x hx)
    obtain ⟨r, s, g', hrun, hres⟩ := ih x.1 hk hinv' (hJ x _ hx hguar)
    exact ⟨r, s, g', (if_pos hok).trans hrun, hres⟩

end Prog

end TuyaSdk.Lib
