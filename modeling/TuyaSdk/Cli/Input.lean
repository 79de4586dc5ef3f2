import TuyaSdk.Cli.Defs

/-!
# Input stays in its buffer

A byte that is received is stored at `bp`, which stays below the size of the buffer. A completion
puts the rest of a name, a space and an end behind the line: the names that just fit leave no room
for the end, and a name that ends before `bp` (the line has a zero byte) makes the length of its
rest negative.
-/

namespace TuyaSdk.Cli

open TuyaSdk.Lib

variable {commands : List Name} {s : Line}

/-- All places are inside of `inbuf`. -/
def Inside (writes : List (Nat × Nat)) : Prop := ∀ w ∈ writes, w.1 + w.2 ≤ inbufSize

/-- A single name that agrees with the line is as long as the line, and has room for a space and
the end of the line or is not copied at all. -/
def CompletionFits (commands : List Name) (s : Line) : Prop :=
  ∀ fm, matching commands s = [fm] →
    s.bp ≤ fm.text.length ∧ fm.text.length + 1 < inbufSize ∨ inbufSize ≤ fm.text.length

/-- Every tab that a call takes finds a name that fits. -/
def TabsFit (commands : List Name) : List Byte → Line → Prop
  | [], _ => True
  | b :: bs, s =>
    let r := receive commands s b
    (b = tab → CompletionFits commands ((s.put s.bp tab).put s.bp 0)) ∧
      (r.ret = none → TabsFit commands bs r.line)

/-- Calls of `get_input`, with the bytes that are there at each and what the buffer holds at the
next: every write is inside, and so is `bp` behind every call. -/
def StaysInside (commands : List Name) : Line → List (List Byte × Mem) → Prop
  | _, [] => True
  | s, (bs, mem) :: calls =>
    let done := (getInput commands bs s).2.1
    (Inside done.writes ∧ done.line.bp < inbufSize) ∧
      StaysInside commands { done.line with mem } calls

/-- Every tab of the calls finds a name that fits. -/
def FitsRun (commands : List Name) : Line → List (List Byte × Mem) → Prop
  | _, [] => True
  | s, (bs, mem) :: calls =>
    TabsFit commands bs s ∧
      FitsRun commands { (getInput commands bs s).2.1.line with mem } calls

theorem inside_nil : Inside [] := fun _ h => absurd h List.not_mem_nil

theorem inside_cons {w : Nat × Nat} {ws : List (Nat × Nat)} :
    Inside (w :: ws) ↔ w.1 + w.2 ≤ inbufSize ∧ Inside ws := List.forall_mem_cons

theorem inside_append {ws ws' : List (Nat × Nat)} :
    Inside (ws ++ ws') ↔ Inside ws ∧ Inside ws' := List.forall_mem_append

/-- A completion stays inside just when its name fits. -/
theorem tabComplete_iff (hbp : s.bp < inbufSize) :
    Inside (tabComplete commands s).writes ∧ (tabComplete commands s).line.bp < inbufSize ↔
      CompletionFits commands s := by
  have hstay : (∀ fm, matching commands s ≠ [fm]) → (tabComplete commands s) = ⟨s, []⟩ := by
    intro hno
    unfold tabComplete
    split
    next fm h => exact absurd h (hno fm)
    next => rfl
  by_cases hone : ∃ fm, matching commands s = [fm]
  · obtain ⟨fm, hfm⟩ := hone
    have hfits : CompletionFits commands s ↔
        (s.bp ≤ fm.text.length ∧ fm.text.length + 1 < inbufSize ∨ inbufSize ≤ fm.text.length) := by
      constructor
      · exact fun h => h fm hfm
      · intro h fm' hfm'
        rw [hfm] at hfm'
        obtain rfl := List.singleton_inj.mp hfm'
        exact h
    have hlen := fm.fits
    have hstop : u32 (s.bp + sub32 fm.text.length s.bp) = fm.text.length := by
      unfold u32 sub32 u32 inbufSize at *
      omega
    rw [hfits, tabComplete, hfm]
    simp only [hstop]
    by_cases hlt : fm.text.length < inbufSize
    · rw [if_pos hlt]
      simp only [inside_cons, inside_nil, and_true]
      by_cases hle : s.bp ≤ fm.text.length
      · rw [sub32_of_le hle hlen]
        unfold inbufSize at *
        omega
      · rw [sub32_of_lt (Nat.lt_of_not_le hle) (Nat.lt_trans hbp (by decide))]
        unfold inbufSize at *
        omega
    · rw [if_neg hlt]
      refine iff_of_true ⟨inside_nil, hbp⟩ (.inr (Nat.not_lt.mp hlt))
  · have hno := fun fm h => hone ⟨fm, h⟩
    rw [hstay hno]
    exact iff_of_true ⟨inside_nil, hbp⟩ fun fm h => absurd h (hno fm)

/-- A completion whose writes are inside leaves the line inside. -/
theorem tabComplete_bp (hbp : s.bp < inbufSize)
    (hin : Inside (tabComplete commands s).writes) :
    (tabComplete commands s).line.bp < inbufSize := by
  revert hin
  unfold tabComplete
  split
  · dsimp only
    split_ifs
    · exact fun hin => (inside_cons.mp (inside_cons.mp (inside_cons.mp hin).2).2).1
    · exact fun _ => hbp
  · exact fun _ => hbp

/-- A byte. -/
theorem receive_iff (hbp : s.bp < inbufSize) (b : Byte) :
    Inside (receive commands s b).writes ∧ (receive commands s b).line.bp < inbufSize ↔
      (b = tab → CompletionFits commands ((s.put s.bp tab).put s.bp 0)) := by
  have hone : Inside [(s.bp, 1)] := inside_cons.mpr ⟨hbp, inside_nil⟩
  have htwo : Inside [(s.bp, 1), (s.bp, 1)] := inside_cons.mpr ⟨hbp, hone⟩
  by_cases htab : b = tab
  · subst htab
    have hline : _ ↔ CompletionFits commands _ :=
      tabComplete_iff (s := (s.put s.bp tab).put s.bp 0) hbp
    rw [imp_iff_right rfl, ← hline]
    refine and_congr_left fun _ => ?_
    change Inside ([(s.bp, 1), (s.bp, 1)] ++ _) ↔ _
    rw [inside_append]
    exact and_iff_right htwo
  · refine iff_of_true ?_ fun h => absurd h htab
    simp only [receive, htab, if_false]
    split_ifs
    · exact ⟨hone, hbp⟩
    · exact ⟨htwo, Nat.zero_lt_of_lt hbp⟩
    · exact ⟨hone, Nat.lt_of_le_of_lt (Nat.sub_le _ _) hbp⟩
    · exact ⟨hone, hbp⟩
    · exact ⟨hone, Nat.zero_lt_of_lt hbp⟩
    · next hroom => exact ⟨hone, Nat.lt_of_not_le hroom⟩

theorem receive_bp (hbp : s.bp < inbufSize) {b : Byte}
    (hin : Inside (receive commands s b).writes) :
    (receive commands s b).line.bp < inbufSize := by
  by_cases htab : b = tab
  · subst htab
    exact tabComplete_bp (s := (s.put s.bp tab).put s.bp 0) hbp (inside_append.mp hin).2
  · exact ((receive_iff hbp b).mpr fun h => absurd h htab).2

/-- A call. -/
theorem getInput_iff (hbp : s.bp < inbufSize) (bs : List Byte) :
    Inside (getInput commands bs s).2.1.writes ∧ (getInput commands bs s).2.1.line.bp < inbufSize ↔
      TabsFit commands bs s := by
  induction bs generalizing s with
  | nil => exact iff_of_true ⟨inside_nil, hbp⟩ trivial
  | cons b bs ih =>
    have hbyte : _ ↔ (b = tab → CompletionFits commands _) := receive_iff hbp b
    simp only [getInput, TabsFit]
    rw [← hbyte]
    cases hret : (receive commands s b).ret with
    | some ret => simp only [reduceCtorEq, false_imp_iff, and_true]
    | none =>
      simp only [forall_const, inside_append]
      constructor
      · rintro ⟨⟨hin, hin'⟩, hlast⟩
        have hnext := receive_bp hbp hin
        exact ⟨⟨hin, hnext⟩, (ih hnext).mp ⟨hin', hlast⟩⟩
      · rintro ⟨⟨hin, hnext⟩, hrest⟩
        obtain ⟨hin', hlast⟩ := (ih hnext).mpr hrest
        exact ⟨⟨hin, hin'⟩, hlast⟩

/-- Calls stay inside the buffer just when every tab finds a name that fits. -/
theorem staysInside_iff (commands : List Name) {s : Line} (hbp : s.bp < inbufSize)
    (calls : List (List Byte × Mem)) : StaysInside commands s calls ↔ FitsRun commands s calls := by
  induction calls generalizing s with
  | nil => exact Iff.rfl
  | cons call calls ih =>
    obtain ⟨bs, mem⟩ := call
    rw [StaysInside, FitsRun, getInput_iff hbp]
    refine and_congr_right fun hfits => ih ?_
    exact ((getInput_iff hbp bs).mpr hfits).2

end TuyaSdk.Cli
