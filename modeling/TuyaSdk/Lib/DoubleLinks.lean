import Mathlib

/-!
# Doubly linked lists

`Links` is a memory of nodes with two pointers each. `Linked lk a l b` is a path of links in
both directions from `a` through the nodes `l` to `b`; a circular list with head `h` is a
path from `h` to `h`, and may be read from any of its nodes (`Linked.rotate`). The edits are
an insertion and a removal behind the first node of a path, and a change of its end.
-/

namespace TuyaSdk.Lib

open List (Perm)

/-- The two pointers of each node. -/
structure Links (α : Type*) where
  next : α → α
  prev : α → α

variable {α : Type*}

namespace Links

variable [DecidableEq α]

/-- `a->next = b` -/
def setNext (lk : Links α) (a b : α) : Links α := { lk with next := Function.update lk.next a b }

/-- `a->prev = b` -/
def setPrev (lk : Links α) (a b : α) : Links α := { lk with prev := Function.update lk.prev a b }

@[simp] theorem setNext_next_same (lk : Links α) (a b : α) : (lk.setNext a b).next a = b := by
  simp only [setNext, Function.update_self]

@[simp] theorem setPrev_prev_same (lk : Links α) (a b : α) : (lk.setPrev a b).prev a = b := by
  simp only [setPrev, Function.update_self]

theorem setNext_next_of_ne (lk : Links α) {a x : α} (b : α) (h : x ≠ a) :
    (lk.setNext a b).next x = lk.next x := by
  simp only [setNext, Function.update_of_ne h]

theorem setPrev_prev_of_ne (lk : Links α) {a x : α} (b : α) (h : x ≠ a) :
    (lk.setPrev a b).prev x = lk.prev x := by
  simp only [setPrev, Function.update_of_ne h]

@[simp] theorem setNext_prev (lk : Links α) (a b x : α) : (lk.setNext a b).prev x = lk.prev x :=
  rfl

@[simp] theorem setPrev_next (lk : Links α) (a b x : α) : (lk.setPrev a b).next x = lk.next x :=
  rfl

end Links

/-- From `a` the links lead through the nodes `l` to `b`, and back. -/
def Linked (lk : Links α) : α → List α → α → Prop
  | a, [], b => lk.next a = b ∧ lk.prev b = a
  | a, x :: l, b => (lk.next a = x ∧ lk.prev x = a) ∧ Linked lk x l b

/-- The two memories have the same pointers in the node `x`. -/
def SameAt (lk lk' : Links α) (x : α) : Prop := lk'.next x = lk.next x ∧ lk'.prev x = lk.prev x

theorem headD_mem_cons {h : α} {l : List α} : l.headD h ∈ h :: l := by
  cases l with
  | nil => exact List.mem_cons_self
  | cons y l => exact List.mem_cons_of_mem _ List.mem_cons_self

theorem nodup_concat_of_cons {a : α} {l : List α} (h : (a :: l).Nodup) : (l ++ [a]).Nodup :=
  (List.perm_append_singleton a l).symm.nodup h

theorem nodup_rotate {a x : α} {l₁ l₂ : List α} (h : (a :: (l₁ ++ x :: l₂)).Nodup) :
    (x :: (l₂ ++ a :: l₁)).Nodup := by
  have hperm : Perm ((a :: l₁) ++ (x :: l₂)) ((x :: l₂) ++ (a :: l₁)) := List.perm_append_comm
  exact hperm.nodup h

namespace Linked

variable {lk lk' : Links α} {a b x : α} {l l₁ l₂ : List α}

theorem append : Linked lk a (l₁ ++ x :: l₂) b ↔ Linked lk a l₁ x ∧ Linked lk x l₂ b := by
  induction l₁ generalizing a with
  | nil => exact Iff.rfl
  | cons y l ih =>
    simp only [List.cons_append, Linked, ih]
    exact and_assoc.symm

/-- A circular list, read from a member. -/
theorem rotate (h : Linked lk a (l₁ ++ x :: l₂) a) : Linked lk x (l₂ ++ a :: l₁) x :=
  append.mpr (append.mp h).symm

/-- What a path depends on: the `next` of all nodes but its end, the `prev` of all but its
start. -/
theorem congr (h : Linked lk a l b) (hn : ∀ y ∈ a :: l, lk'.next y = lk.next y)
    (hp : ∀ y ∈ l ++ [b], lk'.prev y = lk.prev y) : Linked lk' a l b := by
  induction l generalizing a with
  | nil =>
    unfold Linked at h ⊢
    rw [hn a List.mem_cons_self, hp b List.mem_cons_self]
    exact h
  | cons y l ih =>
    obtain ⟨⟨h₁, h₂⟩, h₃⟩ := h
    refine ⟨⟨?_, ?_⟩, ih h₃ ?_ ?_⟩
    · rw [hn a List.mem_cons_self, h₁]
    · rw [hp y List.mem_cons_self, h₂]
    · exact fun z hz => hn z (List.mem_cons_of_mem _ hz)
    · exact fun z hz => hp z (List.mem_cons_of_mem _ hz)

theorem congr_same (h : Linked lk a l a) (hs : ∀ y ∈ a :: l, SameAt lk lk' y) :
    Linked lk' a l a := by
  refine h.congr (fun y hy => (hs y hy).1) fun y hy => (hs y ?_).2
  rcases List.mem_append.mp hy with hy | hy
  · exact List.mem_cons_of_mem _ hy
  · exact List.mem_singleton.mp hy ▸ List.mem_cons_self

/-- The node behind `a`. -/
theorem next_eq (h : Linked lk a l b) : lk.next a = l.headD b := by
  cases l with
  | nil => exact h.1
  | cons y l => exact h.1.1

/-- The node before `b`. -/
theorem prev_eq (h : Linked lk a l b) : lk.prev b = l.getLastD a := by
  induction l generalizing a with
  | nil => exact h.2
  | cons y l ih =>
    rw [ih h.2, List.getLastD_cons]

theorem prev_next (h : Linked lk a l b) : lk.prev (lk.next a) = a := by
  cases l with
  | nil => rw [h.1, h.2]
  | cons y l => rw [h.1.1, h.1.2]

theorem next_prev (h : Linked lk a l b) : lk.next (lk.prev b) = b := by
  induction l generalizing a with
  | nil => rw [h.2, h.1]
  | cons y l ih => exact ih h.2

/-- Every node of a circle is the neighbour of its neighbours. -/
theorem neighbours (h : Linked lk a l a) (hx : x ∈ a :: l) :
    lk.prev (lk.next x) = x ∧ lk.next (lk.prev x) = x := by
  rcases List.mem_cons.mp hx with rfl | hx
  · exact ⟨h.prev_next, h.next_prev⟩
  · obtain ⟨l₁, l₂, rfl⟩ := List.append_of_mem hx
    exact ⟨h.rotate.prev_next, h.rotate.next_prev⟩

/-- A node `n` put behind `a`. -/
theorem insert {n : α} (h : Linked lk a l b) (ha : lk'.next a = n ∧ lk'.prev n = a)
    (hn : lk'.next n = l.headD b ∧ lk'.prev (l.headD b) = n)
    (hsame : ∀ y ∈ l, lk'.next y = lk.next y)
    (hsame' : ∀ y ∈ l.tail ++ [b], y ≠ l.headD b → lk'.prev y = lk.prev y)
    (hnd : (l ++ [b]).Nodup) : Linked lk' a (n :: l) b := by
  cases l with
  | nil => exact ⟨ha, hn⟩
  | cons y l =>
    refine ⟨ha, hn, h.2.congr hsame fun z hz => hsame' z hz ?_⟩
    rintro rfl
    exact (List.nodup_cons.mp hnd).1 hz

/-- The node behind `a` taken out. -/
theorem remove {n : α} (h : Linked lk a (n :: l) b) (ha : lk'.next a = l.headD b)
    (hb : lk'.prev (l.headD b) = a) (hsame : ∀ y ∈ l, lk'.next y = lk.next y)
    (hsame' : ∀ y ∈ l.tail ++ [b], y ≠ l.headD b → lk'.prev y = lk.prev y)
    (hnd : (l ++ [b]).Nodup) : Linked lk' a l b := by
  cases l with
  | nil => exact ⟨ha, hb⟩
  | cons y l =>
    refine ⟨⟨ha, hb⟩, h.2.2.congr hsame fun z hz => hsame' z hz ?_⟩
    rintro rfl
    exact (List.nodup_cons.mp hnd).1 hz

/-- Changing the end of a path: its last link now leads to `b'`. -/
theorem retarget {b' : α} (h : Linked lk a l b) (hn : lk'.next (l.getLastD a) = b')
    (hp : lk'.prev b' = l.getLastD a) (hnd : (a :: l).Nodup)
    (hsame : ∀ y ∈ a :: l, y ≠ l.getLastD a → lk'.next y = lk.next y)
    (hsame' : ∀ y ∈ l, lk'.prev y = lk.prev y) : Linked lk' a l b' := by
  induction l generalizing a with
  | nil => exact ⟨hn, hp⟩
  | cons y l ih =>
    rw [List.getLastD_cons] at hn hp hsame
    obtain ⟨hay, hndl⟩ := List.nodup_cons.mp hnd
    have hlast : l.getLastD y ∈ y :: l := List.getLastD_mem_cons
    refine ⟨⟨?_, ?_⟩, ih h.2 hn hp hndl ?_ ?_⟩
    · rw [hsame a List.mem_cons_self fun heq => hay (heq ▸ hlast)]
      exact h.1.1
    · rw [hsame' y List.mem_cons_self]
      exact h.1.2
    · exact fun z hz => hsame z (List.mem_cons_of_mem _ hz)
    · exact fun z hz => hsame' z (List.mem_cons_of_mem _ hz)

/-- The nodes `x :: l₁`, linked among themselves, put in front of the members `l₂` of a circle. -/
theorem splice {p h : α} (hin : Linked lk x l₁ p) (hl : Linked lk h l₂ h)
    (hdisj : ∀ y ∈ x :: l₁, y ∉ h :: l₂) (hnd₁ : (x :: l₁).Nodup) (hnd₂ : (h :: l₂).Nodup)
    (hh : lk'.next h = x ∧ lk'.prev x = h)
    (hq : lk'.next (l₁.getLastD x) = l₂.headD h ∧ lk'.prev (l₂.headD h) = l₁.getLastD x)
    (hnext : ∀ y, y ≠ h → y ≠ l₁.getLastD x → lk'.next y = lk.next y)
    (hprev : ∀ y, y ≠ x → y ≠ l₂.headD h → lk'.prev y = lk.prev y) :
    Linked lk' h (x :: l₁ ++ l₂) h := by
  have hinner : Linked lk' x l₁ (l₂.headD h) := by
    apply hin.retarget hq.1 hq.2 hnd₁
    · intro y hy hlast
      exact hnext y (fun heq => hdisj y hy (heq ▸ List.mem_cons_self)) hlast
    · intro y hy
      apply hprev y
      · exact fun heq => (List.nodup_cons.mp hnd₁).1 (heq ▸ hy)
      · exact fun heq => hdisj y (List.mem_cons_of_mem _ hy) (heq ▸ headD_mem_cons)
  refine ⟨hh, ?_⟩
  change Linked lk' x (l₁ ++ l₂) h
  cases l₂ with
  | nil =>
    rw [List.append_nil]
    exact hinner
  | cons z l =>
    refine Linked.append.mpr ⟨hinner, hl.2.congr ?_ ?_⟩
    · intro y hy
      apply hnext y
      · exact fun heq => (List.nodup_cons.mp hnd₂).1 (heq ▸ hy)
      · intro heq
        exact hdisj y (heq ▸ List.getLastD_mem_cons) (List.mem_cons_of_mem _ hy)
    · intro y hy
      apply hprev y
      · intro heq
        apply hdisj y (heq ▸ List.mem_cons_self)
        rcases List.mem_append.mp hy with hy | hy
        · exact List.mem_cons_of_mem _ (List.mem_cons_of_mem _ hy)
        · exact List.mem_singleton.mp hy ▸ List.mem_cons_self
      · intro heq
        have hyz : y = z := heq
        exact (List.nodup_cons.mp (nodup_concat_of_cons hnd₂)).1 (hyz ▸ hy)

end Linked

end TuyaSdk.Lib
