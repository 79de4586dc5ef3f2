import TuyaSdk.Lib.DoubleLinks
import TuyaSdk.Lib.Loop
import TuyaSdk.Lib.Machine

/-!
# Intrusive lists (`tuya_list.c`)

List heads and members are nodes with two pointers each. A list is a circle of nodes through
its head; `Lists` gives the members of each list head in order, and says what the operations
are for: to insert at the front or at the back, to remove, and to put one list in front of
the members of another.

`tuya_list_splice` does not touch the head of the list that it takes the members from:
unless that list was empty, this head still points to nodes of the other list and heads no
list until `INIT_LIST_HEAD`.
-/

namespace TuyaSdk.TuyaList

open Lib

variable {α : Type*} [DecidableEq α]

/-! ## The functions -/

/-- `INIT_LIST_HEAD` -/
def initListHead (lk : Links α) (ptr : α) : Links α := (lk.setNext ptr ptr).setPrev ptr ptr

/-- `__list_add` -/
def listAdd (lk : Links α) (pNew pPrev pNext : α) : Links α :=
  (((lk.setPrev pNext pNew).setNext pNew pNext).setPrev pNew pPrev).setNext pPrev pNew

/-- `__list_del` -/
def listDel (lk : Links α) (pPrev pNext : α) : Links α :=
  (lk.setPrev pNext pPrev).setNext pPrev pNext

/-- `tuya_list_empty` -/
def tuyaListEmpty (lk : Links α) (pHead : α) : Bool := lk.next pHead = pHead

/-- `tuya_list_add` -/
def tuyaListAdd (lk : Links α) (pNew pHead : α) : Links α := listAdd lk pNew pHead (lk.next pHead)

/-- `tuya_list_add_tail` -/
def tuyaListAddTail (lk : Links α) (pNew pHead : α) : Links α :=
  listAdd lk pNew (lk.prev pHead) pHead

/-- `tuya_list_splice` -/
def tuyaListSplice (lk : Links α) (pList pHead : α) : Links α :=
  let pFirst := lk.next pList
  if pFirst ≠ pList then
    let pLast := lk.prev pList
    let pAt := lk.next pHead
    (((lk.setPrev pFirst pHead).setNext pHead pFirst).setNext pLast pAt).setPrev pAt pLast
  else lk

/-- `tuya_list_del` -/
def tuyaListDel (lk : Links α) (pEntry : α) : Links α :=
  listDel lk (lk.prev pEntry) (lk.next pEntry)

/-- `tuya_list_del_init` -/
def tuyaListDelInit (lk : Links α) (pEntry : α) : Links α :=
  initListHead (listDel lk (lk.prev pEntry) (lk.next pEntry)) pEntry

/-! ## One list -/

section Circle

variable {lk : Links α} {a b h n p q x : α} {l l₁ l₂ : List α}

theorem sameAt_initListHead (hx : x ≠ h) : SameAt lk (initListHead lk h) x := by
  constructor
  · simp only [initListHead, Links.setPrev_next, Links.setNext_next_of_ne _ _ hx]
  · simp only [initListHead, Links.setPrev_prev_of_ne _ _ hx, Links.setNext_prev]

theorem linked_initListHead (lk : Links α) (h : α) : Linked (initListHead lk h) h [] h := by
  constructor
  · simp only [initListHead, Links.setPrev_next, Links.setNext_next_same]
  · simp only [initListHead, Links.setPrev_prev_same]

theorem listAdd_next (hx : x ≠ n) (hp : x ≠ p) : (listAdd lk n p q).next x = lk.next x := by
  simp only [listAdd, Links.setNext_next_of_ne _ _ hp, Links.setPrev_next,
    Links.setNext_next_of_ne _ _ hx]

theorem listAdd_prev (hx : x ≠ n) (hq : x ≠ q) : (listAdd lk n p q).prev x = lk.prev x := by
  simp only [listAdd, Links.setNext_prev, Links.setPrev_prev_of_ne _ _ hx,
    Links.setPrev_prev_of_ne _ _ hq]

theorem listDel_next (hp : x ≠ p) : (listDel lk p q).next x = lk.next x := by
  simp only [listDel, Links.setNext_next_of_ne _ _ hp, Links.setPrev_next]

theorem listDel_prev (hq : x ≠ q) : (listDel lk p q).prev x = lk.prev x := by
  simp only [listDel, Links.setNext_prev, Links.setPrev_prev_of_ne _ _ hq]

/-- `__list_add` behind `a` in a path. -/
theorem linked_listAdd (hl : Linked lk a l b) (hna : n ∉ a :: l) (hnb : n ≠ b)
    (hnd : (a :: l).Nodup) (hnd' : (l ++ [b]).Nodup) :
    Linked (listAdd lk n a (l.headD b)) a (n :: l) b := by
  have hq : l.headD b ≠ n := by
    cases l with
    | nil => exact hnb.symm
    | cons y l => exact fun heq => hna (heq ▸ List.mem_cons_of_mem _ List.mem_cons_self)
  have hna' : n ≠ a := fun heq => hna (heq ▸ List.mem_cons_self)
  apply hl.insert
  · constructor
    · simp only [listAdd, Links.setNext_next_same]
    · simp only [listAdd, Links.setNext_prev, Links.setPrev_prev_same]
  · constructor
    · simp only [listAdd, Links.setNext_next_of_ne _ _ hna', Links.setPrev_next,
        Links.setNext_next_same]
    · simp only [listAdd, Links.setNext_prev, Links.setPrev_prev_of_ne _ _ hq,
        Links.setPrev_prev_same]
  · intro y hy
    apply listAdd_next
    · exact fun heq => hna (heq ▸ List.mem_cons_of_mem _ hy)
    · exact fun heq => (List.nodup_cons.mp hnd).1 (heq ▸ hy)
  · intro y hy hyq
    apply listAdd_prev _ hyq
    rintro rfl
    rcases List.mem_append.mp hy with hy | hy
    · exact hna (List.mem_cons_of_mem _ (List.mem_of_mem_tail hy))
    · exact hnb (List.mem_singleton.mp hy)
  · exact hnd'

/-- `__list_del` of the node behind `a` in a path. -/
theorem linked_listDel (hl : Linked lk a (n :: l) b) (hnd : (a :: l).Nodup)
    (hnd' : (l ++ [b]).Nodup) : Linked (listDel lk a (l.headD b)) a l b := by
  apply hl.remove
  · simp only [listDel, Links.setNext_next_same]
  · simp only [listDel, Links.setNext_prev, Links.setPrev_prev_same]
  · intro y hy
    exact listDel_next fun heq => (List.nodup_cons.mp hnd).1 (heq ▸ hy)
  · intro y _ hyq
    exact listDel_prev hyq
  · exact hnd'

/-- `tuya_list_add` puts the node first. -/
theorem linked_add (hl : Linked lk h l h) (hnd : (h :: l).Nodup) (hn : n ∉ h :: l) :
    Linked (tuyaListAdd lk n h) h (n :: l) h := by
  rw [tuyaListAdd, hl.next_eq]
  exact linked_listAdd hl hn (fun heq => hn (heq ▸ List.mem_cons_self)) hnd
    (nodup_concat_of_cons hnd)

/-- `tuya_list_add_tail` puts the node last. -/
theorem linked_addTail (hl : Linked lk h l h) (hnd : (h :: l).Nodup) (hn : n ∉ h :: l) :
    Linked (tuyaListAddTail lk n h) h (l ++ [n]) h := by
  rw [tuyaListAddTail, hl.prev_eq]
  rcases List.eq_nil_or_concat l with rfl | ⟨l', y, rfl⟩
  · exact linked_listAdd hl hn (fun heq => hn (heq ▸ List.mem_cons_self)) hnd hnd
  · rw [List.concat_eq_append] at hl hnd hn ⊢
    have hlast : (l' ++ [y]).getLastD h = y := by rw [List.getLastD_concat]
    have hny : n ∉ y :: h :: l' := by
      intro hm
      apply hn
      simp only [List.mem_cons, List.mem_append] at hm ⊢
      grind
    have hnd₁ := nodup_rotate hnd
    have hins := linked_listAdd hl.rotate hny (fun heq => hny (heq ▸ List.mem_cons_self)) hnd₁
      (nodup_concat_of_cons hnd₁)
    rw [hlast]
    have hback : Linked (listAdd lk n y h) h (l' ++ y :: [n]) h :=
      Linked.append.mpr ⟨hins.2.2, hins.1, hins.2.1⟩
    rw [List.append_assoc]
    exact hback

/-- `tuya_list_del` takes the node out. -/
theorem linked_del (hl : Linked lk h (l₁ ++ n :: l₂) h) (hnd : (h :: (l₁ ++ n :: l₂)).Nodup) :
    Linked (tuyaListDel lk n) h (l₁ ++ l₂) h := by
  obtain ⟨hl₁, hl₂⟩ := Linked.append.mp hl
  rw [tuyaListDel, hl₁.prev_eq, hl₂.next_eq]
  rcases List.eq_nil_or_concat l₁ with rfl | ⟨l', y, rfl⟩
  · have hnd' : (h :: l₂).Nodup := hnd.sublist ((List.sublist_cons_self n l₂).cons_cons h)
    exact linked_listDel hl hnd' (nodup_concat_of_cons hnd')
  · rw [List.concat_eq_append] at hl hnd ⊢
    have hlast : (l' ++ [y]).getLastD h = y := by rw [List.getLastD_concat]
    have hhead : (l₂ ++ h :: l').headD y = l₂.headD h := by cases l₂ <;> rfl
    rw [List.append_assoc] at hl hnd ⊢
    have hrot : Linked lk y (n :: (l₂ ++ h :: l')) y := hl.rotate
    have hnd' : (y :: (l₂ ++ h :: l')).Nodup :=
      (nodup_rotate hnd).sublist ((List.sublist_cons_self n _).cons_cons y)
    have hdel := linked_listDel hrot hnd' (nodup_concat_of_cons hnd')
    rw [hhead] at hdel
    rw [hlast]
    exact hdel.rotate

/-- `tuya_list_splice` of a list that has members puts them first. -/
theorem linked_splice {s : α} (hs : Linked lk s (x :: l₁) s) (hl : Linked lk h l₂ h)
    (hdisj : ∀ y ∈ x :: l₁, y ∉ h :: l₂) (hnd₁ : (s :: x :: l₁).Nodup)
    (hnd₂ : (h :: l₂).Nodup) : Linked (tuyaListSplice lk s h) h (x :: l₁ ++ l₂) h := by
  have hfirst : lk.next s = x := hs.1.1
  have hlast : lk.prev s = l₁.getLastD x := hs.2.prev_eq
  have hat : lk.next h = l₂.headD h := hl.next_eq
  have hne : x ≠ s := fun heq => (List.nodup_cons.mp hnd₁).1 (heq ▸ List.mem_cons_self)
  have hxh : x ≠ h := fun heq => hdisj x List.mem_cons_self (heq ▸ List.mem_cons_self)
  have hlasth : h ≠ l₁.getLastD x := fun heq =>
    hdisj h (heq ▸ List.getLastD_mem_cons) List.mem_cons_self
  have hxq : x ≠ l₂.headD h := by
    rw [← hat]
    cases l₂ with
    | nil => exact fun heq => hxh (heq.trans hl.1)
    | cons z l =>
      have hz : z ∈ h :: z :: l := List.mem_cons_of_mem _ List.mem_cons_self
      exact fun heq => hdisj x List.mem_cons_self (heq.trans hl.1.1 ▸ hz)
  simp only [tuyaListSplice, hfirst, if_pos hne, hlast, hat]
  apply hs.2.splice hl hdisj (List.nodup_cons.mp hnd₁).2 hnd₂
  · constructor
    · simp only [Links.setPrev_next, Links.setNext_next_of_ne _ _ hlasth, Links.setNext_next_same]
    · simp only [Links.setPrev_prev_of_ne _ _ hxq, Links.setNext_prev, Links.setPrev_prev_same]
  · constructor
    · simp only [Links.setPrev_next, Links.setNext_next_same]
    · simp only [Links.setPrev_prev_same]
  · intro y hyh hyl
    simp only [Links.setPrev_next, Links.setNext_next_of_ne _ _ hyl,
      Links.setNext_next_of_ne _ _ hyh]
  · intro y hyx hyq
    simp only [Links.setPrev_prev_of_ne _ _ hyq, Links.setNext_prev,
      Links.setPrev_prev_of_ne _ _ hyx]

/-- `tuya_list_add` and `tuya_list_add_tail` change nothing outside the list and the node. -/
theorem sameAt_listAdd (hn : x ≠ n) (hp : x ≠ p) (hq : x ≠ q) :
    SameAt lk (listAdd lk n p q) x :=
  ⟨listAdd_next hn hp, listAdd_prev hn hq⟩

theorem sameAt_add (hl : Linked lk h l h) (hn : x ≠ n) (hx : x ∉ h :: l) :
    SameAt lk (tuyaListAdd lk n h) x := by
  rw [tuyaListAdd, hl.next_eq]
  apply sameAt_listAdd hn
  · exact fun heq => hx (heq ▸ List.mem_cons_self)
  · exact fun heq => hx (heq ▸ headD_mem_cons)

theorem sameAt_addTail (hl : Linked lk h l h) (hn : x ≠ n) (hx : x ∉ h :: l) :
    SameAt lk (tuyaListAddTail lk n h) x := by
  rw [tuyaListAddTail, hl.prev_eq]
  apply sameAt_listAdd hn
  · exact fun heq => hx (heq ▸ List.getLastD_mem_cons)
  · exact fun heq => hx (heq ▸ List.mem_cons_self)

/-- `tuya_list_del` changes nothing outside the list, nor the node taken out. -/
theorem sameAt_del (hl : Linked lk h (l₁ ++ n :: l₂) h) (hx : x ∉ h :: (l₁ ++ l₂)) :
    SameAt lk (tuyaListDel lk n) x := by
  obtain ⟨hl₁, hl₂⟩ := Linked.append.mp hl
  rw [tuyaListDel, hl₁.prev_eq, hl₂.next_eq]
  have hp : l₁.getLastD h ∈ h :: (l₁ ++ l₂) :=
    List.cons_subset_cons h (List.subset_append_left l₁ l₂) List.getLastD_mem_cons
  have hq : l₂.headD h ∈ h :: (l₁ ++ l₂) :=
    List.cons_subset_cons h (List.subset_append_right l₁ l₂) headD_mem_cons
  exact ⟨listDel_next fun heq => hx (heq ▸ hp), listDel_prev fun heq => hx (heq ▸ hq)⟩

theorem sameAt_splice {s y : α} (hs : Linked lk s (x :: l₁) s) (hl : Linked lk h l₂ h)
    (hy₁ : y ∉ x :: l₁) (hy₂ : y ∉ h :: l₂) : SameAt lk (tuyaListSplice lk s h) y := by
  have hlast : lk.prev s = l₁.getLastD x := hs.2.prev_eq
  have hyh : y ≠ h := fun heq => hy₂ (heq ▸ List.mem_cons_self)
  have hyx : y ≠ x := fun heq => hy₁ (heq ▸ List.mem_cons_self)
  have hyl : y ≠ l₁.getLastD x := fun heq => hy₁ (heq ▸ List.getLastD_mem_cons)
  have hyq : y ≠ l₂.headD h := fun heq => hy₂ (heq ▸ headD_mem_cons)
  unfold tuyaListSplice
  simp only [hs.1.1, hlast, hl.next_eq]
  split
  · constructor
    · simp only [Links.setPrev_next, Links.setNext_next_of_ne _ _ hyl,
        Links.setNext_next_of_ne _ _ hyh]
    · simp only [Links.setPrev_prev_of_ne _ _ hyq, Links.setNext_prev,
        Links.setPrev_prev_of_ne _ _ hyx]
  · exact ⟨rfl, rfl⟩

end Circle

/-! ## All lists -/

/-- The members of each list head. -/
abbrev Lists (α : Type*) := α → Option (List α)

/-- The operations on lists. -/
inductive Op (α : Type*) where
  | init (ptr : α)
  | add (pNew pHead : α)
  | addTail (pNew pHead : α)
  | splice (pList pHead : α)
  | del (pEntry : α)
  | delInit (pEntry : α)

/-- What an operation does to the pointers. -/
def run (lk : Links α) : Op α → Links α
  | .init ptr => initListHead lk ptr
  | .add pNew pHead => tuyaListAdd lk pNew pHead
  | .addTail pNew pHead => tuyaListAddTail lk pNew pHead
  | .splice pList pHead => tuyaListSplice lk pList pHead
  | .del pEntry => tuyaListDel lk pEntry
  | .delInit pEntry => tuyaListDelInit lk pEntry

/-- What an operation does to the lists. -/
def Lists.apply (m : Lists α) : Op α → Lists α
  | .init ptr => Function.update m ptr (some [])
  | .add pNew pHead =>
    Function.update (Function.update m pNew none) pHead ((m pHead).map (pNew :: ·))
  | .addTail pNew pHead =>
    Function.update (Function.update m pNew none) pHead ((m pHead).map (· ++ [pNew]))
  | .splice pList pHead =>
    match m pList with
    | some (x :: l) =>
      Function.update (Function.update m pList none) pHead ((m pHead).map (x :: l ++ ·))
    | _ => m
  | .del pEntry => fun h => (m h).map (·.erase pEntry)
  | .delInit pEntry => Function.update (fun h => (m h).map (·.erase pEntry)) pEntry (some [])

/-- A node in no list: no member, and no head of members. -/
def Lists.Unlinked (m : Lists α) (n : α) : Prop :=
  (m n).all List.isEmpty ∧ ∀ h, (m h).all fun l => n ∉ l

/-- What the operations require. -/
def Lists.Pre (m : Lists α) : Op α → Prop
  | .init ptr => m.Unlinked ptr
  | .add pNew pHead => m.Unlinked pNew ∧ pNew ≠ pHead ∧ (m pHead).isSome
  | .addTail pNew pHead => m.Unlinked pNew ∧ pNew ≠ pHead ∧ (m pHead).isSome
  | .splice pList pHead => pList ≠ pHead ∧ (m pList).isSome ∧ (m pHead).isSome
  | .del pEntry => ∃ h, (m h).any fun l => pEntry ∈ l
  | .delInit pEntry => ∃ h, (m h).any fun l => pEntry ∈ l

instance [Fintype α] (m : Lists α) (op : Op α) : Decidable (m.Pre op) := by
  unfold Lists.Pre Lists.Unlinked
  split <;> infer_instance

/-- Every head is on a circle with its members, and no node is on two. -/
structure Circles (lk : Links α) (m : Lists α) : Prop where
  circle : ∀ h l, m h = some l → Linked lk h l h
  nodup : ∀ h l, m h = some l → (h :: l).Nodup
  apart : ∀ h l h' l', m h = some l → m h' = some l' → h ≠ h' → ∀ x ∈ h :: l, x ∉ h' :: l'

namespace Circles

variable {lk lk' : Links α} {m : Lists α} {h n : α} {l : List α}

omit [DecidableEq α] in
/-- Heads may be given up. -/
theorem mono {m' : Lists α} (hc : Circles lk m) (hof : ∀ h l, m' h = some l → m h = some l) :
    Circles lk m' where
  circle h l hl := hc.circle h l (hof h l hl)
  nodup h l hl := hc.nodup h l (hof h l hl)
  apart h l h' l' hl hl' := hc.apart h l h' l' (hof h l hl) (hof h' l' hl')

theorem forget (hc : Circles lk m) (n : α) : Circles lk (Function.update m n none) := by
  refine hc.mono fun h l hl => ?_
  rw [Function.update_apply] at hl
  split at hl
  · cases hl
  · exact hl

/-- One list is changed: its new circle is disjoint from the others, and their pointers are
the same. -/
theorem set (hc : Circles lk m) (hl : Linked lk' h l h) (hnd : (h :: l).Nodup)
    (hothers : ∀ h' l', m h' = some l' → h' ≠ h →
      ∀ y ∈ h' :: l', y ∉ h :: l ∧ SameAt lk lk' y) :
    Circles lk' (Function.update m h (some l)) := by
  have hof : ∀ h' l', Function.update m h (some l) h' = some l' →
      (h' = h ∧ l' = l) ∨ (h' ≠ h ∧ m h' = some l') := by
    intro h' l' hl'
    by_cases heq : h' = h
    · subst heq
      rw [Function.update_self] at hl'
      exact Or.inl ⟨rfl, (Option.some.inj hl').symm⟩
    · rw [Function.update_of_ne heq] at hl'
      exact Or.inr ⟨heq, hl'⟩
  constructor
  · intro h' l' hl'
    rcases hof h' l' hl' with ⟨rfl, rfl⟩ | ⟨hne, hm⟩
    · exact hl
    · exact (hc.circle h' l' hm).congr_same fun y hy => (hothers h' l' hm hne y hy).2
  · intro h' l' hl'
    rcases hof h' l' hl' with ⟨rfl, rfl⟩ | ⟨hne, hm⟩
    · exact hnd
    · exact hc.nodup h' l' hm
  · intro h₁ l₁ h₂ l₂ hl₁ hl₂ hne x hx
    rcases hof h₁ l₁ hl₁ with ⟨rfl, rfl⟩ | ⟨hne₁, hm₁⟩
    · rcases hof h₂ l₂ hl₂ with ⟨rfl, rfl⟩ | ⟨hne₂, hm₂⟩
      · exact absurd rfl hne
      · exact fun hx' => (hothers h₂ l₂ hm₂ hne₂ x hx').1 hx
    · rcases hof h₂ l₂ hl₂ with ⟨rfl, rfl⟩ | ⟨hne₂, hm₂⟩
      · exact (hothers h₁ l₁ hm₁ hne₁ x hx).1
      · exact hc.apart h₁ l₁ h₂ l₂ hm₁ hm₂ hne x hx

/-- An unlinked node is on no circle but its own. -/
theorem not_mem_of_unlinked (hn : m.Unlinked n) {h' : α} {l' : List α} (hm : m h' = some l')
    (hne : h' ≠ n) : n ∉ h' :: l' := by
  have hfree := hn.2 h'
  rw [hm] at hfree
  intro hmem
  rcases List.mem_cons.mp hmem with heq | hmem
  · exact hne heq.symm
  · exact of_decide_eq_true hfree hmem

theorem init (hc : Circles lk m) (hn : m.Unlinked n) :
    Circles (initListHead lk n) (Function.update m n (some [])) := by
  apply hc.set (linked_initListHead lk n) (List.nodup_singleton n)
  intro h' l' hm hne y hy
  have hyn : y ≠ n := fun heq => not_mem_of_unlinked hn hm hne (heq ▸ hy)
  exact ⟨fun hmem => hyn (List.mem_singleton.mp hmem), sameAt_initListHead hyn⟩

/-- A node is inserted in one list, anywhere. -/
theorem insert {l' : List α} (hc : Circles lk m) (hn : m.Unlinked n) (hne : n ≠ h)
    (hm : m h = some l) (hperm : l'.Perm (n :: l)) (hl : Linked lk' h l' h)
    (hsame : ∀ x, x ≠ n → x ∉ h :: l → SameAt lk lk' x) :
    Circles lk' (Function.update (Function.update m n none) h (some l')) := by
  have hnl : n ∉ h :: l := not_mem_of_unlinked hn hm hne.symm
  have hperm' : (h :: l').Perm (n :: h :: l) := (hperm.cons h).trans (List.Perm.swap n h l)
  apply (hc.forget n).set hl
  · exact hperm'.symm.nodup (List.nodup_cons.mpr ⟨hnl, hc.nodup h l hm⟩)
  · intro h' k hm' hne' y hy
    have hnn : h' ≠ n := by
      rintro rfl
      rw [Function.update_self] at hm'
      cases hm'
    rw [Function.update_of_ne hnn] at hm'
    have hyn : y ≠ n := fun heq => not_mem_of_unlinked hn hm' hnn (heq ▸ hy)
    have hyl := hc.apart h' k h l hm' hm hne' y hy
    refine ⟨fun hmem => ?_, hsame y hyn hyl⟩
    rcases List.mem_cons.mp (hperm'.mem_iff.mp hmem) with heq | hmem
    · exact hyn heq
    · exact hyl hmem

/-- Erasing a member from all lists changes its own list. -/
theorem erase_eq (hc : Circles lk m) (hm : m h = some l) (hn : n ∈ l) :
    (fun h' => (m h').map (·.erase n)) = Function.update m h (some (l.erase n)) := by
  funext h'
  by_cases heq : h' = h
  · subst heq
    rw [Function.update_self, hm]
    rfl
  · rw [Function.update_of_ne heq]
    cases hm' : m h' with
    | none => rfl
    | some k =>
      have hnk : n ∉ k := fun hk => hc.apart h l h' k hm hm' (Ne.symm heq) n
        (List.mem_cons_of_mem _ hn) (List.mem_cons_of_mem _ hk)
      rw [Option.map_some, List.erase_of_not_mem hnk]

theorem del (hc : Circles lk m) (hm : m h = some l) (hn : n ∈ l) :
    Circles (tuyaListDel lk n) (Function.update m h (some (l.erase n))) := by
  obtain ⟨l₁, l₂, rfl⟩ := List.append_of_mem hn
  have hnd := hc.nodup h _ hm
  have hnl₁ : n ∉ l₁ := fun hn₁ =>
    List.disjoint_of_nodup_append (List.nodup_cons.mp hnd).2 hn₁ List.mem_cons_self
  have herase : (l₁ ++ n :: l₂).erase n = l₁ ++ l₂ := by
    rw [List.erase_append_right _ hnl₁, List.erase_cons_head]
  have hsub : (h :: (l₁ ++ l₂)).Sublist (h :: (l₁ ++ n :: l₂)) :=
    ((List.Sublist.refl l₁).append (List.sublist_cons_self n l₂)).cons_cons h
  rw [herase]
  apply hc.set (linked_del (hc.circle h _ hm) hnd) (hnd.sublist hsub)
  intro h' k hm' hne y hy
  have hyl := hc.apart h' k h _ hm' hm hne y hy
  have hyl' : y ∉ h :: (l₁ ++ l₂) := fun hmem => hyl (hsub.subset hmem)
  exact ⟨hyl', sameAt_del (hc.circle h _ hm) hyl'⟩

/-- A member taken out of its list is unlinked. -/
theorem unlinked_erase (hc : Circles lk m) (hm : m h = some l) (hn : n ∈ l) :
    Lists.Unlinked (Function.update m h (some (l.erase n))) n := by
  have hnd := hc.nodup h l hm
  have hnh : n ≠ h := fun heq => (List.nodup_cons.mp hnd).1 (heq ▸ hn)
  have hnone : m n = none := by
    cases hmn : m n with
    | none => rfl
    | some k =>
      exact absurd List.mem_cons_self
        (hc.apart h l n k hm hmn hnh.symm n (List.mem_cons_of_mem _ hn))
  constructor
  · rw [Function.update_of_ne hnh, hnone]
    rfl
  · intro h'
    by_cases heq : h' = h
    · subst heq
      rw [Function.update_self]
      exact decide_eq_true (List.Nodup.not_mem_erase (List.nodup_cons.mp hnd).2)
    · rw [Function.update_of_ne heq]
      cases hm' : m h' with
      | none => rfl
      | some k =>
        exact decide_eq_true fun hk => hc.apart h l h' k hm hm' (Ne.symm heq) n
          (List.mem_cons_of_mem _ hn) (List.mem_cons_of_mem _ hk)

theorem splice {s : α} (hc : Circles lk m) (hne : s ≠ h) {x : α} {l₁ l₂ : List α}
    (hs : m s = some (x :: l₁)) (hh : m h = some l₂) : Circles (tuyaListSplice lk s h)
      (Function.update (Function.update m s none) h (some (x :: l₁ ++ l₂))) := by
  have hdisj : ∀ y ∈ x :: l₁, y ∉ h :: l₂ := fun y hy =>
    hc.apart s _ h l₂ hs hh hne y (List.mem_cons_of_mem _ hy)
  have hnd₁ := hc.nodup s _ hs
  have hnd₂ := hc.nodup h l₂ hh
  have hmem : ∀ y, y ∈ h :: (x :: l₁ ++ l₂) ↔ y ∈ x :: l₁ ∨ y ∈ h :: l₂ := by
    intro y
    simp only [List.mem_cons, List.mem_append, List.cons_append]
    grind
  apply (hc.forget s).set
  · exact linked_splice (hc.circle s _ hs) (hc.circle h l₂ hh) hdisj hnd₁ hnd₂
  · have hperm : (x :: l₁ ++ h :: l₂).Perm (h :: (x :: l₁ ++ l₂)) := List.perm_middle
    apply hperm.nodup
    exact (List.nodup_cons.mp hnd₁).2.append hnd₂ hdisj
  · intro h' k hm' hne' y hy
    have hns : h' ≠ s := by
      rintro rfl
      rw [Function.update_self] at hm'
      cases hm'
    rw [Function.update_of_ne hns] at hm'
    have hy₁ : y ∉ x :: l₁ := fun hmem =>
      hc.apart h' k s _ hm' hs hns y hy (List.mem_cons_of_mem _ hmem)
    have hy₂ := hc.apart h' k h l₂ hm' hh hne' y hy
    refine ⟨fun hall => ?_, sameAt_splice (hc.circle s _ hs) (hc.circle h l₂ hh) hy₁ hy₂⟩
    rcases (hmem y).mp hall with hmem | hmem
    · exact hy₁ hmem
    · exact hy₂ hmem

/-- Each operation whose requirements are met does to the circles what it should. -/
theorem apply (hc : Circles lk m) {op : Op α} (hp : m.Pre op) :
    Circles (run lk op) (m.apply op) := by
  cases op with
  | init ptr => exact hc.init hp
  | add n h =>
    obtain ⟨hn, hne, hsome⟩ := hp
    obtain ⟨l, hm⟩ := Option.isSome_iff_exists.mp hsome
    have hnl : n ∉ h :: l := not_mem_of_unlinked hn hm hne.symm
    have hl := hc.circle h l hm
    simp only [Lists.apply, hm]
    exact hc.insert hn hne hm (List.Perm.refl _) (linked_add hl (hc.nodup h l hm) hnl)
      fun x hx => sameAt_add hl hx
  | addTail n h =>
    obtain ⟨hn, hne, hsome⟩ := hp
    obtain ⟨l, hm⟩ := Option.isSome_iff_exists.mp hsome
    have hnl : n ∉ h :: l := not_mem_of_unlinked hn hm hne.symm
    have hl := hc.circle h l hm
    simp only [Lists.apply, hm]
    exact hc.insert hn hne hm (List.perm_append_singleton n l)
      (linked_addTail hl (hc.nodup h l hm) hnl) fun x hx => sameAt_addTail hl hx
  | splice s h =>
    obtain ⟨hne, hs, hh⟩ := hp
    obtain ⟨l₁, hs⟩ := Option.isSome_iff_exists.mp hs
    obtain ⟨l₂, hh⟩ := Option.isSome_iff_exists.mp hh
    cases l₁ with
    | nil =>
      have hempty : tuyaListSplice lk s h = lk := by
        rw [tuyaListSplice, if_neg]
        exact not_not.mpr (hc.circle s _ hs).1
      simp only [run, Lists.apply, hs, hempty]
      exact hc
    | cons x l₁ =>
      simp only [Lists.apply, hs, hh]
      exact hc.splice hne hs hh
  | del n =>
    obtain ⟨h, hany⟩ := hp
    obtain ⟨l, hm, hn⟩ := (Option.any_eq_true _ _).mp hany
    have hn := of_decide_eq_true hn
    simp only [Lists.apply, hc.erase_eq hm hn]
    exact hc.del hm hn
  | delInit n =>
    obtain ⟨h, hany⟩ := hp
    obtain ⟨l, hm, hn⟩ := (Option.any_eq_true _ _).mp hany
    have hn := of_decide_eq_true hn
    simp only [Lists.apply, hc.erase_eq hm hn]
    exact (hc.del hm hn).init (hc.unlinked_erase hm hn)

end Circles

/-! ## Deleting while iterating -/

/-- The memory of node `p` is used for something else. -/
def overwrite (lk : Links α) (p : α) (junk : α × α) : Links α :=
  (lk.setNext p junk.1).setPrev p junk.2

/-- A loop body that deletes the node `p`, unless it keeps it, and gives its memory away. -/
def deleteNode (keep : α → Bool) (junk : Links α → α → α × α) (lk : Links α) (p : α) : Links α :=
  if keep p then lk else overwrite (tuyaListDel lk p) p (junk lk p)

/-- A pass of `tuya_list_for_each_safe(p, n, head)` with that body. The variables and the
result have the nodes visited so far. -/
def forEachSafePass (head : α) (keep : α → Bool) (junk : Links α → α → α × α) :
    Links α × α × List α → Pass (Links α × α × List α) (Links α × List α)
  | (lk, p, visited) =>
    let n := lk.next p
    if p = head then .exit (lk, visited)
    else .again (deleteNode keep junk lk p, n, visited ++ [p])

/-- `for (p = head->next; n = p->next, p != head; p = n)` with that body. -/
def forEachSafe (fuel : Nat) (lk : Links α) (head : α) (keep : α → Bool)
    (junk : Links α → α → α × α) : Option (Links α × List α) :=
  Loop.run (forEachSafePass head keep junk) fuel (lk, lk.next head, [])

section ForEachSafe

variable {lk : Links α} {h x : α} {l : List α} (keep : α → Bool) (junk : Links α → α → α × α)

theorem sameAt_overwrite {p : α} {jk : α × α} (hx : x ≠ p) : SameAt lk (overwrite lk p jk) x := by
  constructor
  · simp only [overwrite, Links.setPrev_next, Links.setNext_next_of_ne _ _ hx]
  · simp only [overwrite, Links.setPrev_prev_of_ne _ _ hx, Links.setNext_prev]

/-- What the body does to a member behind the members kept so far. -/
theorem linked_deleteNode {done rest : List α} (hl : Linked lk h (done ++ x :: rest) h)
    (hnd : (h :: (done ++ x :: rest)).Nodup) :
    Linked (deleteNode keep junk lk x) h (done ++ ([x].filter keep ++ rest)) h ∧
      ∀ y, y ∉ h :: (done ++ x :: rest) → SameAt lk (deleteNode keep junk lk x) y := by
  unfold deleteNode
  by_cases hk : keep x
  · rw [if_pos hk, List.filter_cons_of_pos hk]
    exact ⟨hl, fun y _ => ⟨rfl, rfl⟩⟩
  · rw [if_neg hk, List.filter_cons_of_neg hk]
    have hperm : (h :: (done ++ x :: rest)).Perm (x :: h :: (done ++ rest)) :=
      (List.perm_middle.cons h).trans (List.Perm.swap x h _)
    have hx : x ∉ h :: (done ++ rest) := (List.nodup_cons.mp (hperm.nodup hnd)).1
    constructor
    · apply (linked_del hl hnd).congr_same
      exact fun y hy => sameAt_overwrite fun heq => hx (heq ▸ hy)
    · intro y hy
      have hyx : y ≠ x := fun heq => hy (hperm.mem_iff.mpr (heq ▸ List.mem_cons_self))
      have hyl : y ∉ h :: (done ++ rest) := fun hmem =>
        hy (hperm.mem_iff.mpr (List.mem_cons_of_mem _ hmem))
      have hsame : SameAt (tuyaListDel lk x) (overwrite (tuyaListDel lk x) x (junk lk x)) y :=
        sameAt_overwrite hyx
      have hdel := sameAt_del hl hyl
      exact ⟨hsame.1.trans hdel.1, hsame.2.trans hdel.2⟩

/-- The passes over the members `rest`, behind those in `visited`. -/
theorem forEachSafe_rest (rest visited : List α)
    (hl : Linked lk h (visited.filter keep ++ rest) h) (hnd : (h :: (visited ++ rest)).Nodup) :
    ∃ lk', Loop.run (forEachSafePass h keep junk) (rest.length + 1) (lk, rest.headD h, visited) =
        some (lk', visited ++ rest) ∧
      Linked lk' h ((visited ++ rest).filter keep) h ∧
      ∀ y, y ∉ h :: (visited ++ rest) → SameAt lk lk' y := by
  induction rest generalizing lk visited with
  | nil =>
    rw [List.append_nil] at hl ⊢
    refine ⟨lk, Loop.run_exit ?_, hl, fun y _ => ⟨rfl, rfl⟩⟩
    exact if_pos rfl
  | cons x rest ih =>
    have hxh : x ≠ h := by
      rintro rfl
      exact (List.nodup_cons.mp hnd).1 (List.mem_append_right _ List.mem_cons_self)
    have hnext : lk.next x = rest.headD h := (Linked.append.mp hl).2.next_eq
    have hsub : (h :: (visited.filter keep ++ x :: rest)).Sublist (h :: (visited ++ x :: rest)) :=
      (List.filter_sublist.append (List.Sublist.refl _)).cons_cons h
    obtain ⟨hl₁, hsame₁⟩ := linked_deleteNode keep junk hl (hnd.sublist hsub)
    have hpass : forEachSafePass h keep junk (lk, (x :: rest).headD h, visited) =
        .again (deleteNode keep junk lk x, rest.headD h, visited ++ [x]) := by
      simp only [forEachSafePass, List.headD_cons, if_neg hxh, hnext]
    rw [List.append_cons] at hnd ⊢
    rw [← List.append_assoc, ← List.filter_append] at hl₁
    obtain ⟨lk', hrun, hl', hsame'⟩ := ih (visited ++ [x]) hl₁ hnd
    refine ⟨lk', (Loop.run_again hpass).trans hrun, hl', fun y hy => ?_⟩
    have hy' : y ∉ h :: (visited.filter keep ++ x :: rest) := by
      intro hmem
      rw [← List.append_cons] at hy
      exact hy (hsub.subset hmem)
    obtain ⟨hn₁, hp₁⟩ := hsame₁ y hy'
    obtain ⟨hn₂, hp₂⟩ := hsame' y hy
    exact ⟨hn₂.trans hn₁, hp₂.trans hp₁⟩

/-- A loop that deletes nodes as it visits them visits the members of the list in order, and
leaves the list of the members it kept. -/
theorem forEachSafe_spec (hl : Linked lk h l h) (hnd : (h :: l).Nodup) :
    ∃ lk', forEachSafe (l.length + 1) lk h keep junk = some (lk', l) ∧
      Linked lk' h (l.filter keep) h ∧ ∀ y, y ∉ h :: l → SameAt lk lk' y := by
  rw [forEachSafe, hl.next_eq]
  exact forEachSafe_rest keep junk l [] hl hnd

end ForEachSafe

/-! ## Runs -/

/-- One operation, on the pointers and on the lists they stand for. -/
def step : Links α × Lists α → Op α → Option ((Links α × Lists α) × Unit)
  | (lk, m), op => some ((run lk op, m.apply op), ())

/-- No list head. -/
def noLists : Lists α := fun _ => none

omit [DecidableEq α] in
theorem circles_noLists (lk : Links α) : Circles lk (noLists : Lists α) where
  circle := fun _ _ h => nomatch h
  nodup := fun _ _ h => nomatch h
  apart := fun _ _ _ _ h => nomatch h

/-- After any operations whose requirements were met, the lists are those that the
operations should give: each head is on a circle with its members, every node of a circle is
the neighbour of its neighbours, no node is on two circles, and a loop that deletes members
visits each once, whatever becomes of the memory of the nodes it deletes, and touches no
other list. -/
theorem list_run (lk₀ : Links α) (ops : List (Op α))
    (hl : Machine.Legal step (fun s op => s.2.Pre op) (lk₀, noLists) ops) :
    ∃ lk m outs, Machine.run step (lk₀, noLists) ops = some ((lk, m), outs) ∧ Circles lk m ∧
      (∀ h l, m h = some l → ∀ n ∈ h :: l, lk.prev (lk.next n) = n ∧ lk.next (lk.prev n) = n) ∧
      ∀ h l, m h = some l → ∀ keep junk, ∃ lk',
        forEachSafe (l.length + 1) lk h keep junk = some (lk', l) ∧ l.Nodup ∧
          Circles lk' (Function.update m h (some (l.filter keep))) := by
  obtain ⟨⟨lk, m⟩, outs, hrun, hc⟩ := Machine.run_total (I := fun s _ => Circles s.1 s.2)
    (fun s _ op hc hp => ⟨_, (), rfl, hc.apply hp⟩) (circles_noLists lk₀) hl
  refine ⟨lk, m, outs, hrun, hc, fun h l hm n hn => (hc.circle h l hm).neighbours hn, ?_⟩
  intro h l hm keep junk
  have hnd := hc.nodup h l hm
  obtain ⟨lk', hloop, hl', hsame⟩ :=
    forEachSafe_spec keep junk (hc.circle h l hm) hnd
  have hsub : (h :: l.filter keep).Sublist (h :: l) := List.filter_sublist.cons_cons h
  refine ⟨lk', hloop, (List.nodup_cons.mp hnd).2, hc.set hl' (hnd.sublist hsub) ?_⟩
  intro h' l' hm' hne y hy
  have hyl := hc.apart h' l' h l hm' hm hne y hy
  exact ⟨fun hmem => hyl (hsub.subset hmem), hsame y hyl⟩

/-- Two lists of six nodes, one spliced into the other. -/
theorem list_run_six : ∃ lk m outs,
    Machine.run step ((⟨id, id⟩, noLists) : Links (Fin 6) × Lists (Fin 6))
      [.init 0, .init 1, .add 2 0, .addTail 3 0, .add 4 1, .addTail 5 1, .splice 1 0, .del 3,
        .delInit 4, .init 1, .add 4 1] = some ((lk, m), outs) ∧ Circles lk m ∧
    (∀ h l, m h = some l → ∀ n ∈ h :: l, lk.prev (lk.next n) = n ∧ lk.next (lk.prev n) = n) ∧
    ∀ h l, m h = some l → ∀ keep junk, ∃ lk',
      forEachSafe (l.length + 1) lk h keep junk = some (lk', l) ∧ l.Nodup ∧
        Circles lk' (Function.update m h (some (l.filter keep))) :=
  list_run _ _ (Machine.legal_of_check (by decide +kernel))

/-- After `tuya_list_splice` the head of the list whose members were taken heads no list. -/
theorem spliced_head_broken :
    Machine.Legal step (fun s op => s.2.Pre op)
      ((⟨id, id⟩, noLists) : Links (Fin 3) × Lists (Fin 3))
      [.init 0, .init 1, .add 2 1, .splice 1 0] ∧
    ∀ lk m outs, Machine.run step ((⟨id, id⟩, noLists) : Links (Fin 3) × Lists (Fin 3))
      [.init 0, .init 1, .add 2 1, .splice 1 0] = some ((lk, m), outs) →
      ¬∃ l, Linked lk 1 l 1 := by
  refine ⟨Machine.legal_of_check (by decide +kernel), ?_⟩
  intro lk m outs hrun ⟨l, hl⟩
  have hlinks : (Machine.run step ((⟨id, id⟩, noLists) : Links (Fin 3) × Lists (Fin 3))
      [.init 0, .init 1, .add 2 1, .splice 1 0]).all
      (fun r => r.1.1.next 1 = 2 ∧ r.1.1.prev 2 = 0) = true := by decide +kernel
  rw [hrun] at hlinks
  obtain ⟨hnext, hprev⟩ := of_decide_eq_true hlinks
  have hback := hl.prev_next
  rw [hnext, hprev] at hback
  exact absurd hback (by decide)

end TuyaSdk.TuyaList
