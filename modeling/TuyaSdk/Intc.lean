import TuyaSdk.TuyaList

/-!
# The interrupt dispatch list (`intc.c`)

Handlers are registered for interrupt numbers with a priority. The entries of the table
`_isrs` are linked into a circle behind `isr_hdr`, sorted by priority, and `intc_hdl_entry`
calls the handlers of the interrupts that are set in this order.

`intc_service_register` overwrites the entry first and looks for its place then. An entry
that is in the list already is put in a second time, unless the search meets an entry of the
new priority before (`Relinks`).
-/

namespace TuyaSdk.Intc
open TuyaSdk.Lib

/-- `INTC_MAX_COUNT`, the interrupt numbers. -/
abbrev IntNum := Fin 32

/-- A node of the list: `isr_hdr`, or the entry of an interrupt. -/
abbrev Node := Option IntNum

/-- `ISR_T` without its links. -/
structure IsrT (φ : Type*) where
  isrFunc : φ
  pri : Fin 256
  intNum : IntNum

/-- `_isrs`, `isr_hdr` and `isrs_mask`. -/
structure Intc (φ : Type*) where
  links : Links Node
  isrs : IntNum → IsrT φ
  isrsMask : BitVec 32

/-- `BIT(i)`. -/
def bit (i : IntNum) : BitVec 32 := BitVec.twoPow 32 i

variable {φ : Type*}

/-! ## Registration -/

/-- `list_add_head`. -/
def listAddHead (lk : Links Node) (new head : Node) : Links Node :=
  TuyaList.listAdd lk new head (lk.next head)

/-- `list_add_tail`. -/
def listAddTail (lk : Links Node) (new head : Node) : Links Node :=
  TuyaList.listAdd lk new (lk.prev head) head

/-- Where the search for the place of an entry ends. -/
inductive Place where
  | before (i : IntNum)
  | collision
  | last

/-- A pass of the search for the place of an entry of priority `intPri`. -/
def searchPass (s : Intc φ) (intPri : Fin 256) : Node → Pass Node Place
  | none => .exit .last
  | some j =>
    if intPri < (s.isrs j).pri then .exit (.before j)
    else if intPri = (s.isrs j).pri then .exit .collision
    else .again (s.links.next (some j))

/-- The search; it changes nothing, so it goes on forever if it has not ended when it could
have met all nodes. -/
def searchPlace (s : Intc φ) (intPri : Fin 256) : Option Place :=
  Loop.run (searchPass s intPri) 34 (s.links.next none)

/-- The entry of `intNum` as it was before. -/
def rollback (s buf : Intc φ) (intNum : IntNum) : Intc φ :=
  { s with
    isrs := Function.update s.isrs intNum (buf.isrs intNum)
    links := (s.links.setNext (some intNum) (buf.links.next (some intNum))).setPrev (some intNum)
      (buf.links.prev (some intNum)) }

/-- `intc_service_register`; `none` is a search without end. -/
def intcServiceRegister (s : Intc φ) (intNum : IntNum) (intPri : Fin 256) (isr : φ) :
    Option (Intc φ) :=
  let cur : Intc φ :=
    { s with isrs := Function.update s.isrs intNum ⟨isr, intPri, intNum⟩ }
  let ok (lk : Links Node) : Intc φ :=
    { cur with
      links := lk
      isrsMask := cur.isrsMask ||| bit intNum }
  if cur.links.next none = none then some (ok (listAddHead cur.links (some intNum) none))
  else (searchPlace cur intPri).map fun
    | .before j => ok (listAddTail cur.links (some intNum) (some j))
    | .collision => rollback cur s intNum
    | .last => ok (listAddTail cur.links (some intNum) none)

/-! ## Dispatch -/

/-- A pass of the loop of `intc_hdl_entry`, on the node, the status and the handlers called. -/
def hdlPass (s : Intc φ) :
    Node × BitVec 32 × List φ → Pass (Node × BitVec 32 × List φ) (List φ)
  | (none, _, calls) => .exit calls
  | (some j, status, calls) =>
    let f := s.isrs j
    let i := f.intNum
    let (status, calls) :=
      if bit i &&& status ≠ 0 then (status &&& ~~~bit i, calls ++ [f.isrFunc])
      else (status, calls)
    if status = 0 then .exit calls else .again (s.links.next (some j), status, calls)

/-- `intc_hdl_entry`: the handlers called in order. Each pass that clears no bit goes to the
next node only, so a loop that has not ended after 34 passes for each bit goes on forever. -/
def intcHdlEntry (s : Intc φ) (intStatus : BitVec 32) : Option (List φ) :=
  Loop.run (hdlPass s) (33 * 34) (s.links.next none, intStatus &&& s.isrsMask, [])

/-! ## The invariant -/

/-- The handler of `i` is registered. -/
def Listed (s : Intc φ) (i : IntNum) : Prop := s.isrsMask.getLsbD i = true

instance (s : Intc φ) (i : IntNum) : Decidable (Listed s i) :=
  inferInstanceAs (Decidable (_ = true))

/-- The dispatch list has the entries `l`. -/
structure Dispatch (s : Intc φ) (l : List IntNum) : Prop where
  linked : Linked s.links none (l.map some) none
  sorted : l.Pairwise fun i j => (s.isrs i).pri < (s.isrs j).pri
  intNum : ∀ i ∈ l, (s.isrs i).intNum = i
  mask : ∀ i, Listed s i ↔ i ∈ l

variable {s : Intc φ} {l l₁ l₂ : List IntNum} {i j : IntNum} {p : Fin 256}

theorem Dispatch.nodup (h : Dispatch s l) : l.Nodup := by
  apply h.sorted.imp
  intro i j hlt heq
  rw [heq] at hlt
  exact lt_irrefl _ hlt

theorem nodup_nodes (h : l.Nodup) : ((none : Node) :: l.map some).Nodup := by
  refine List.nodup_cons.mpr ⟨by simp, ?_⟩
  exact h.map fun a b => Option.some.inj

theorem bit_and_ne_zero {status : BitVec 32} :
    bit i &&& status ≠ 0 ↔ status.getLsbD i = true := by
  rw [bit, BitVec.and_comm, BitVec.and_twoPow]
  have hi := i.isLt
  cases status.getLsbD i with
  | false => simp
  | true =>
    simp only [if_true, iff_true]
    intro h
    have hbit := congrArg (fun x => x.getLsbD i) h
    simp [hi] at hbit

theorem getLsbD_bit : (bit i).getLsbD j = decide (i = j) := by
  have hi := i.isLt
  rw [bit, BitVec.getLsbD_twoPow, decide_eq_true hi, Bool.true_and]
  exact decide_eq_decide.mpr Fin.ext_iff.symm

theorem getLsbD_clear {status : BitVec 32} :
    (status &&& ~~~bit i).getLsbD j = (status.getLsbD j && !decide (i = j)) := by
  have hj := j.isLt
  rw [BitVec.getLsbD_and, BitVec.getLsbD_not, getLsbD_bit, decide_eq_true hj, Bool.true_and]

/-! ## Insertion -/

/-- `list_add_tail` puts the node before any node of the circle. -/
theorem linked_addBefore {α : Type*} [DecidableEq α] {lk : Links α} {h n x : α} {l₁ l₂ : List α}
    (hl : Linked lk h (l₁ ++ x :: l₂) h) (hnd : (h :: (l₁ ++ x :: l₂)).Nodup)
    (hn : n ∉ h :: (l₁ ++ x :: l₂)) :
    Linked (TuyaList.listAdd lk n (lk.prev x) x) h (l₁ ++ n :: x :: l₂) h := by
  have hn' : n ∉ x :: (l₂ ++ h :: l₁) := by
    simp only [List.mem_cons, List.mem_append, not_or] at hn ⊢
    exact ⟨hn.2.2.1, hn.2.2.2, hn.1, hn.2.1⟩
  have hadd := TuyaList.linked_addTail hl.rotate (nodup_rotate hnd) hn'
  rw [TuyaList.tuyaListAddTail, List.append_assoc, List.cons_append] at hadd
  have hback := hadd.rotate
  rw [List.append_assoc] at hback
  exact hback

/-- The first entry of no smaller priority decides where the search ends. -/
def placeIn (s : Intc φ) (p : Fin 256) (l : List IntNum) : Place :=
  match l.find? fun j => p ≤ (s.isrs j).pri with
  | none => .last
  | some j => if p < (s.isrs j).pri then .before j else .collision

theorem run_searchPass {n : Nat} (hl : Linked s.links none ((l₁ ++ l₂).map some) none)
    (hn : l₂.length < n) :
    Loop.run (searchPass s p) n ((l₂.map some).headD none) = some (placeIn s p l₂) := by
  induction l₂ generalizing l₁ n with
  | nil =>
    obtain ⟨n, rfl⟩ : ∃ k, n = k + 1 := ⟨n - 1, by omega⟩
    exact Loop.run_exit rfl
  | cons j l₂ ih =>
    obtain ⟨n, rfl⟩ : ∃ k, n = k + 1 := ⟨n - 1, by omega⟩
    rw [placeIn, List.find?_cons]
    by_cases hlt : p < (s.isrs j).pri
    · rw [decide_eq_true (le_of_lt hlt)]
      have hpass : searchPass s p (some j) = .exit (.before j) := if_pos hlt
      simp only [if_pos hlt]
      exact Loop.run_exit hpass
    by_cases heq : p = (s.isrs j).pri
    · rw [decide_eq_true (le_of_eq heq)]
      have hpass : searchPass s p (some j) = .exit .collision :=
        (if_neg hlt).trans (if_pos heq)
      simp only [if_neg hlt]
      exact Loop.run_exit hpass
    · have hle : ¬ p ≤ (s.isrs j).pri := fun hle => hlt (lt_of_le_of_ne hle heq)
      have hpass : searchPass s p (some j) = .again (s.links.next (some j)) :=
        (if_neg hlt).trans (if_neg heq)
      have hnext : s.links.next (some j) = (l₂.map some).headD none := by
        rw [List.map_append, List.map_cons] at hl
        exact (Linked.append.mp hl).2.next_eq
      rw [decide_eq_false hle, List.map_cons, List.headD_cons, Loop.run_again hpass, hnext]
      rw [List.append_cons] at hl
      exact ih hl (Nat.lt_of_succ_lt_succ hn)

theorem length_le_of_nodup (h : l.Nodup) : l.length ≤ 32 := by
  have hle := (List.subperm_of_subset h fun i _ => List.mem_finRange i).length_le
  rwa [List.length_finRange] at hle

theorem searchPlace_eq (hl : Linked s.links none (l.map some) none) (hnd : l.Nodup) :
    searchPlace s p = some (placeIn s p l) := by
  have hlen := length_le_of_nodup hnd
  rw [searchPlace, hl.next_eq]
  have hl' : Linked s.links none (([] ++ l).map some) none := hl
  exact run_searchPass hl' (by omega)

/-- `s'` is `s` with the entry of `i` put between `l₁` and `l₂`. -/
theorem Dispatch.insert {s' : Intc φ} (h : Dispatch s (l₁ ++ l₂)) (hi : i ∉ l₁ ++ l₂)
    (hlinked : Linked s'.links none ((l₁ ++ i :: l₂).map some) none)
    (hisrs : ∀ k, k ≠ i → s'.isrs k = s.isrs k) (hnum : (s'.isrs i).intNum = i)
    (hmask : s'.isrsMask = s.isrsMask ||| bit i)
    (hlow : ∀ k ∈ l₁, (s.isrs k).pri < (s'.isrs i).pri)
    (hhigh : ∀ k ∈ l₂, (s'.isrs i).pri < (s.isrs k).pri) : Dispatch s' (l₁ ++ i :: l₂) := by
  have hne : ∀ k ∈ l₁ ++ l₂, s'.isrs k = s.isrs k := fun k hk =>
    hisrs k fun heq => hi (heq ▸ hk)
  obtain ⟨h₁, h₂, h₁₂⟩ := List.pairwise_append.mp h.sorted
  constructor
  · exact hlinked
  · refine List.pairwise_append.mpr ⟨?_, List.pairwise_cons.mpr ⟨?_, ?_⟩, ?_⟩
    · apply h₁.imp_of_mem
      intro a b ha hb hab
      rw [hne a (List.mem_append_left _ ha), hne b (List.mem_append_left _ hb)]
      exact hab
    · intro k hk
      rw [hne k (List.mem_append_right _ hk)]
      exact hhigh k hk
    · apply h₂.imp_of_mem
      intro a b ha hb hab
      rw [hne a (List.mem_append_right _ ha), hne b (List.mem_append_right _ hb)]
      exact hab
    · intro a ha b hb
      rw [hne a (List.mem_append_left _ ha)]
      rcases List.mem_cons.mp hb with rfl | hb
      · exact hlow a ha
      · rw [hne b (List.mem_append_right _ hb)]
        exact h₁₂ a ha b hb
  · intro k hk
    rcases List.mem_append.mp hk with hk | hk
    · rw [hne k (List.mem_append_left _ hk)]
      exact h.intNum k (List.mem_append_left _ hk)
    · rcases List.mem_cons.mp hk with rfl | hk
      · exact hnum
      · rw [hne k (List.mem_append_right _ hk)]
        exact h.intNum k (List.mem_append_right _ hk)
  · intro k
    rw [Listed, hmask, BitVec.getLsbD_or, getLsbD_bit, Bool.or_eq_true, decide_eq_true_eq]
    have hk := h.mask k
    rw [Listed] at hk
    rw [hk]
    simp only [List.mem_append, List.mem_cons]
    constructor
    · rintro ((hk | hk) | rfl)
      · exact .inl hk
      · exact .inr (.inr hk)
      · exact .inr (.inl rfl)
    · rintro (hk | rfl | hk)
      · exact .inl (.inl hk)
      · exact .inr rfl
      · exact .inl (.inr hk)

/-- The entry that the search ends before divides a sorted list. -/
theorem placeIn_before (hs : l.Pairwise fun i j => (s.isrs i).pri < (s.isrs j).pri)
    (h : placeIn s p l = .before j) :
    ∃ l₁ l₂, l = l₁ ++ j :: l₂ ∧ (∀ k ∈ l₁, (s.isrs k).pri < p) ∧ p < (s.isrs j).pri ∧
      ∀ k ∈ j :: l₂, p < (s.isrs k).pri := by
  rw [placeIn] at h
  split at h
  next => cases h
  next k hf =>
    split at h
    next hlt =>
      cases h
      obtain ⟨_, l₁, l₂, rfl, hlow⟩ := List.find?_eq_some_iff_append.mp hf
      refine ⟨l₁, l₂, rfl, ?_, hlt, ?_⟩
      · intro k hk
        have := hlow k hk
        simpa using this
      · intro k hk
        rcases List.mem_cons.mp hk with rfl | hk
        · exact hlt
        · exact hlt.trans ((List.pairwise_cons.mp (List.pairwise_append.mp hs).2.1).1 k hk)
    next => cases h

theorem placeIn_last (h : placeIn s p l = .last) : ∀ k ∈ l, (s.isrs k).pri < p := by
  rw [placeIn] at h
  split at h
  next hf =>
    intro k hk
    have := List.find?_eq_none.mp hf k hk
    simpa using this
  next k hf =>
    split at h
    next => cases h
    next => cases h

theorem rollback_self (s : Intc φ) (e : IsrT φ) (i : IntNum) :
    rollback { s with isrs := Function.update s.isrs i e } s i = s := by
  rw [rollback]
  simp only [Function.update_idem, Function.update_eq_self]
  obtain ⟨⟨next, prev⟩, isrs, mask⟩ := s
  simp only [Links.setNext, Links.setPrev, Function.update_eq_self]

/-! ## One registration -/

/-- The entry of `i` is in the list, and its new priority `p` puts it before an entry that is
before it now, without being that of another entry. -/
def Relinks (s : Intc φ) (i : IntNum) (p : Fin 256) : Prop :=
  Listed s i ∧ (∃ j, Listed s j ∧ p < (s.isrs j).pri ∧ (s.isrs j).pri < (s.isrs i).pri) ∧
    ∀ k, Listed s k → (s.isrs k).pri ≠ p

instance (s : Intc φ) (i : IntNum) (p : Fin 256) : Decidable (Relinks s i p) :=
  inferInstanceAs (Decidable (_ ∧ _ ∧ _))

/-- An entry that is listed, with its priority overwritten, stops the search. -/
theorem placeIn_listed (h : Dispatch s l) {e : IsrT φ} (he : e.pri = p) (hi : i ∈ l)
    (hok : ¬ Relinks s i p) :
    placeIn { s with isrs := Function.update s.isrs i e } p l = .collision := by
  have hpri : ∀ k, k ≠ i → (Function.update s.isrs i e k).pri = (s.isrs k).pri := by
    intro k hk
    rw [Function.update_of_ne hk]
  have hself : (Function.update s.isrs i e i).pri = p := by rw [Function.update_self, he]
  rw [placeIn]
  simp only
  cases hf : l.find? fun j => p ≤ (Function.update s.isrs i e j).pri with
  | none =>
    have hle := List.find?_eq_none.mp hf i hi
    rw [hself] at hle
    simp at hle
  | some j =>
    obtain ⟨hj, l₁, l₂, rfl, hlow⟩ := List.find?_eq_some_iff_append.mp hf
    refine if_neg fun hlt => hok ?_
    have hji : j ≠ i := by
      rintro rfl
      rw [hself] at hlt
      exact lt_irrefl _ hlt
    rw [hpri j hji] at hlt
    have hbefore : ∀ k ∈ l₁ ++ j :: l₂, p ≤ (Function.update s.isrs i e k).pri → k ∈ j :: l₂ := by
      intro k hk hle
      rcases List.mem_append.mp hk with hk | hk
      · have := hlow k hk
        simp only [hle, decide_true, Bool.not_true, Bool.false_eq_true] at this
      · exact hk
    have hafter : ∀ k ∈ l₂, (s.isrs j).pri < (s.isrs k).pri :=
      (List.pairwise_cons.mp (List.pairwise_append.mp h.sorted).2.1).1
    have hi₂ : i ∈ l₂ := by
      rcases List.mem_cons.mp (hbefore i hi (le_of_eq hself.symm)) with rfl | hi₂
      · exact absurd rfl hji
      · exact hi₂
    refine ⟨(h.mask i).mpr hi, ⟨j, (h.mask j).mpr (by simp), hlt, hafter i hi₂⟩, ?_⟩
    intro k hk hkp
    have hki : k ≠ i := by
      rintro rfl
      exact lt_asymm (hlt.trans (hafter k hi₂)) (hkp ▸ hlt.trans (hafter k hi₂))
    have hmem := hbefore k ((h.mask k).mp hk) (by rw [hpri k hki, hkp])
    rcases List.mem_cons.mp hmem with rfl | hmem
    · exact absurd hkp (ne_of_gt hlt)
    · exact absurd hkp (ne_of_gt (hlt.trans (hafter k hmem)))

/-- A registration that puts no entry in twice returns and keeps the list. -/
theorem Dispatch.register (h : Dispatch s l) (hok : ¬ Relinks s i p) (isr : φ) :
    ∃ s' l', intcServiceRegister s i p isr = some s' ∧ Dispatch s' l' := by
  obtain ⟨e, he⟩ : ∃ e : IsrT φ, e = ⟨isr, p, i⟩ := ⟨_, rfl⟩
  obtain ⟨cur, hcur⟩ : ∃ cur : Intc φ, cur = { s with isrs := Function.update s.isrs i e } :=
    ⟨_, rfl⟩
  have hisrs : ∀ k, k ≠ i → cur.isrs k = s.isrs k := by
    intro k hk
    rw [hcur]
    exact Function.update_of_ne hk _ _
  have hself : cur.isrs i = e := by
    rw [hcur]
    exact Function.update_self _ _ _
  have hlinks : cur.links = s.links := by rw [hcur]
  have hmask : cur.isrsMask = s.isrsMask := by rw [hcur]
  have hreg : intcServiceRegister s i p isr =
      if s.links.next none = none then
        some { cur with
          links := listAddHead s.links (some i) none
          isrsMask := s.isrsMask ||| bit i }
      else (searchPlace cur p).map fun
        | .before j => { cur with
            links := listAddTail s.links (some i) (some j)
            isrsMask := s.isrsMask ||| bit i }
        | .collision => rollback cur s i
        | .last => { cur with
            links := listAddTail s.links (some i) none
            isrsMask := s.isrsMask ||| bit i } := by
    rw [hcur, he]
    rfl
  have hnodes := nodup_nodes h.nodup
  rw [hreg]
  by_cases hempty : s.links.next none = none
  · -- the first entry
    rw [if_pos hempty]
    have hl : l = [] := by
      cases l with
      | nil => rfl
      | cons j l =>
        rw [h.linked.next_eq] at hempty
        cases hempty
    subst hl
    refine ⟨_, [i], rfl, ?_⟩
    have h₀ : Dispatch s ([] ++ []) := h
    apply h₀.insert List.not_mem_nil
    · exact TuyaList.linked_add h.linked hnodes (by simp)
    · exact fun k hk => hisrs k hk
    · rw [hself, he]
    · rfl
    · exact fun k hk => absurd hk List.not_mem_nil
    · exact fun k hk => absurd hk List.not_mem_nil
  rw [if_neg hempty, searchPlace_eq (by rw [hlinks]; exact h.linked) h.nodup, Option.map_some]
  by_cases hi : i ∈ l
  · have hplace : placeIn cur p l = .collision := by
      rw [hcur]
      exact placeIn_listed h (by rw [he]) hi hok
    rw [hplace]
    refine ⟨_, l, rfl, ?_⟩
    rw [hcur, rollback_self]
    exact h
  · have hcurpri : ∀ k ∈ l, cur.isrs k = s.isrs k := fun k hk => hisrs k fun heq => hi (heq ▸ hk)
    have hpri : (cur.isrs i).pri = p := by rw [hself, he]
    have hnum : (cur.isrs i).intNum = i := by rw [hself, he]
    have hsorted : l.Pairwise fun a b => (cur.isrs a).pri < (cur.isrs b).pri := by
      apply h.sorted.imp_of_mem
      intro a b ha hb hab
      rw [hcurpri a ha, hcurpri b hb]
      exact hab
    have hi' : (some i : Node) ∉ none :: l.map some := by simpa using hi
    cases hplace : placeIn cur p l with
    | before j =>
      obtain ⟨l₁, l₂, rfl, hlow, _, hhigh⟩ := placeIn_before hsorted hplace
      refine ⟨_, l₁ ++ i :: j :: l₂, rfl, ?_⟩
      apply Dispatch.insert h hi
      · rw [List.map_append, List.map_cons, List.map_cons]
        have hl := h.linked
        rw [List.map_append, List.map_cons] at hl hnodes hi'
        exact linked_addBefore hl hnodes hi'
      · exact fun k hk => hisrs k hk
      · exact hnum
      · rfl
      · intro k hk
        rw [← hcurpri k (List.mem_append_left _ hk)]
        exact hpri.symm ▸ hlow k hk
      · intro k hk
        rw [← hcurpri k (List.mem_append_right _ hk)]
        exact hpri.symm ▸ hhigh k hk
    | collision =>
      refine ⟨_, l, rfl, ?_⟩
      rw [hcur, rollback_self]
      exact h
    | last =>
      have hlow := placeIn_last hplace
      refine ⟨_, l ++ [i], rfl, ?_⟩
      have h₀ : Dispatch s (l ++ []) := by rwa [List.append_nil]
      apply h₀.insert
      · rwa [List.append_nil]
      · rw [List.map_append]
        exact TuyaList.linked_addTail h.linked hnodes hi'
      · exact fun k hk => hisrs k hk
      · exact hnum
      · rfl
      · intro k hk
        rw [← hcurpri k hk]
        exact hpri.symm ▸ hlow k hk
      · exact fun k hk => absurd hk List.not_mem_nil

/-! ## Dispatching -/

/-- The handlers of the entries `l` whose interrupt is set, in order. -/
def handlers (s : Intc φ) (l : List IntNum) (status : BitVec 32) : List φ :=
  (l.filter fun i : IntNum => status.getLsbD i).map fun i => (s.isrs i).isrFunc

/-- The passes over the rest of the list, when no interrupt before it is set. -/
theorem run_hdlPass {n : Nat} {status : BitVec 32} {calls : List φ}
    (hl : Linked s.links none ((l₁ ++ l₂).map some) none)
    (hnum : ∀ i ∈ l₂, (s.isrs i).intNum = i) (hnd : l₂.Nodup)
    (hbits : ∀ i : IntNum, status.getLsbD i = true → i ∈ l₂) (hn : l₂.length < n) :
    Loop.run (hdlPass s) n ((l₂.map some).headD none, status, calls) =
      some (calls ++ handlers s l₂ status) := by
  induction l₂ generalizing l₁ n status calls with
  | nil =>
    obtain ⟨n, rfl⟩ : ∃ k, n = k + 1 := ⟨n - 1, by omega⟩
    rw [handlers, List.filter_nil, List.map_nil, List.map_nil, List.append_nil]
    exact Loop.run_exit rfl
  | cons j l₂ ih =>
    obtain ⟨n, rfl⟩ : ∃ k, n = k + 1 := ⟨n - 1, by omega⟩
    obtain ⟨hj, hnd₂⟩ := List.nodup_cons.mp hnd
    have hnum₂ : ∀ i ∈ l₂, (s.isrs i).intNum = i := fun i hi => hnum i (List.mem_cons_of_mem _ hi)
    have hnext : s.links.next (some j) = (l₂.map some).headD none := by
      rw [List.map_append, List.map_cons] at hl
      exact (Linked.append.mp hl).2.next_eq
    -- what is left of the status and of the calls after this entry
    obtain ⟨status', hstatus'⟩ : ∃ st, st = if bit j &&& status ≠ 0 then status &&& ~~~bit j
        else status := ⟨_, rfl⟩
    obtain ⟨calls', hcalls'⟩ : ∃ c, c = if bit j &&& status ≠ 0 then calls ++ [(s.isrs j).isrFunc]
        else calls := ⟨_, rfl⟩
    have hpass : hdlPass s (some j, status, calls) =
        if status' = 0 then .exit calls' else .again (s.links.next (some j), status', calls') := by
      rw [hdlPass]
      simp only [hnum j List.mem_cons_self]
      by_cases hb : bit j &&& status ≠ 0
      · rw [hstatus', hcalls', if_pos hb, if_pos hb, if_pos hb]
      · rw [hstatus', hcalls', if_neg hb, if_neg hb, if_neg hb]
    have hget : ∀ i : IntNum, status'.getLsbD i = (status.getLsbD i && !decide (j = i)) := by
      intro i
      rw [hstatus']
      by_cases hb : bit j &&& status ≠ 0
      · rw [if_pos hb, getLsbD_clear]
      · rw [if_neg hb]
        have hj0 : status.getLsbD j = false := by
          rw [bit_and_ne_zero] at hb
          simpa using hb
        by_cases hij : j = i
        · rw [← hij, hj0, Bool.false_and]
        · rw [decide_eq_false hij, Bool.not_false, Bool.and_true]
    have hcalls : calls' ++ handlers s l₂ status' = calls ++ handlers s (j :: l₂) status := by
      have hrest : (l₂.filter fun i : IntNum => status'.getLsbD i) =
          l₂.filter fun i : IntNum => status.getLsbD i := by
        apply List.filter_congr
        intro i hi
        have hij : j ≠ i := fun heq => hj (heq ▸ hi)
        rw [hget, decide_eq_false hij, Bool.not_false, Bool.and_true]
      rw [handlers, handlers, hrest, hcalls', List.filter_cons]
      by_cases hb : bit j &&& status ≠ 0
      · rw [if_pos hb, if_pos (bit_and_ne_zero.mp hb), List.map_cons, List.append_assoc]
        rfl
      · rw [if_neg hb, if_neg (mt bit_and_ne_zero.mpr hb)]
    have hbits' : ∀ i : IntNum, status'.getLsbD i = true → i ∈ l₂ := by
      intro i hi
      rw [hget, Bool.and_eq_true] at hi
      rcases List.mem_cons.mp (hbits i hi.1) with heq | hmem
      · rw [heq] at hi
        simp at hi
      · exact hmem
    rw [List.map_cons, List.headD_cons, ← hcalls]
    by_cases hzero : status' = 0
    · rw [Loop.run_exit (hpass.trans (if_pos hzero)), hzero]
      have hnone : (l₂.filter fun i : IntNum => (0 : BitVec 32).getLsbD i) = [] := by
        rw [List.filter_eq_nil_iff]
        intro i _
        simp
      rw [handlers, hnone, List.map_nil, List.append_nil]
    · rw [Loop.run_again (hpass.trans (if_neg hzero)), hnext]
      rw [List.append_cons] at hl
      exact ih hl hnum₂ hnd₂ hbits' (Nat.lt_of_succ_lt_succ hn)

/-- The handlers of the interrupts that are set are called once each, in the order of their
priorities. -/
theorem Dispatch.hdlEntry (h : Dispatch s l) (intStatus : BitVec 32) :
    intcHdlEntry s intStatus = some (handlers s l (intStatus &&& s.isrsMask)) := by
  have hlen := length_le_of_nodup h.nodup
  have hl : Linked s.links none (([] ++ l).map some) none := h.linked
  rw [intcHdlEntry, h.linked.next_eq]
  apply run_hdlPass hl h.intNum h.nodup
  · intro i hi
    rw [BitVec.getLsbD_and, Bool.and_eq_true] at hi
    exact (h.mask i).mp hi.2
  · omega

/-! ## Runs of registrations -/

/-- A call of `intc_service_register`. -/
structure Call (φ : Type*) where
  intNum : IntNum
  intPri : Fin 256
  isr : φ

/-- The registrations, as a machine. -/
def register : Machine (Intc φ) (Call φ) Unit := fun s c =>
  (intcServiceRegister s c.intNum c.intPri c.isr).map fun s' => (s', ())

/-- The call does not link an entry a second time. -/
def LinksOnce (s : Intc φ) (c : Call φ) : Prop := ¬ Relinks s c.intNum c.intPri

instance (s : Intc φ) (c : Call φ) : Decidable (LinksOnce s c) :=
  inferInstanceAs (Decidable (¬ _))

/-- Before the first registration: `isr_hdr` is linked to itself, and the table is empty. -/
def initial (null : φ) (links : Links Node) : Intc φ where
  links := TuyaList.initListHead links none
  isrs := fun _ => ⟨null, 0, 0⟩
  isrsMask := 0

theorem initial_dispatch (null : φ) (links : Links Node) : Dispatch (initial null links) [] where
  linked := TuyaList.linked_initListHead links none
  sorted := List.Pairwise.nil
  intNum := fun _ h => absurd h List.not_mem_nil
  mask := by
    intro i
    refine iff_of_false (fun h => ?_) List.not_mem_nil
    simp [Listed, initial] at h

/-- The list is a circle sorted by priority with each listed entry once, the mask has the
bits of the listed interrupts, and for every status the dispatch calls the handlers of the
set ones in order, once each. -/
def Dispatches (s : Intc φ) : Prop :=
  ∃ l, Linked s.links none (l.map some) none ∧ l.Nodup ∧
    (l.Pairwise fun i j => (s.isrs i).pri < (s.isrs j).pri) ∧
    (∀ i : IntNum, s.isrsMask.getLsbD i = true ↔ i ∈ l) ∧
    ∀ intStatus, intcHdlEntry s intStatus = some (handlers s l (intStatus &&& s.isrsMask))

theorem Dispatch.dispatches (h : Dispatch s l) : Dispatches s :=
  ⟨l, h.linked, h.nodup, h.sorted, h.mask, h.hdlEntry⟩

/-- After any registrations that link no entry a second time, the list dispatches. -/
theorem registered_dispatches (null : φ) (links : Links Node) (cs : List (Call φ))
    (hl : Machine.Legal register LinksOnce (initial null links) cs) :
    ∃ s outs, Machine.run register (initial null links) cs = some (s, outs) ∧ Dispatches s := by
  obtain ⟨s, outs, hrun, l, h⟩ := Machine.run_total (I := fun s _ => ∃ l, Dispatch s l)
    (fun s _ c h hok => by
      obtain ⟨l, h⟩ := h
      obtain ⟨s', l', hreg, h'⟩ := h.register hok c.isr
      exact ⟨s', (), by rw [register, hreg]; rfl, l', h'⟩)
    ⟨[], initial_dispatch null links⟩ hl
  exact ⟨s, outs, hrun, h.dispatches⟩

/-- Four registrations, one of them with a priority that another entry has. -/
theorem four_registered : ∃ s outs,
    Machine.run register (initial 0 ⟨id, id⟩)
      [⟨1, 20, 101⟩, ⟨5, 30, 105⟩, ⟨7, 10, 107⟩, ⟨5, 10, 205⟩] = some (s, outs) ∧ Dispatches s :=
  registered_dispatches 0 ⟨id, id⟩ _ (Machine.legal_of_check (by decide +kernel))

/-- An interrupt that is registered again with a priority before that of another one: the
dispatch of a third one goes round between the two forever. -/
theorem registered_twice_loops :
    ¬ ∀ (null : Nat) (links : Links Node) (cs : List (Call Nat)) (s : Intc Nat) (outs : List Unit),
      Machine.run register (initial null links) cs = some (s, outs) → Dispatches s := by
  intro h
  have hrun : (Machine.run register (initial 0 ⟨id, id⟩)
      [⟨1, 20, 101⟩, ⟨5, 30, 105⟩, ⟨7, 40, 107⟩, ⟨5, 10, 105⟩]).any
      (fun r => (intcHdlEntry r.1 (bit 7)).isNone) = true := by decide +kernel
  obtain ⟨⟨s, outs⟩, hr, hnone⟩ := (Option.any_eq_true _ _).mp hrun
  obtain ⟨l, _, _, _, _, hhdl⟩ := h _ _ _ s outs hr
  rw [hhdl] at hnone
  cases hnone

end TuyaSdk.Intc
