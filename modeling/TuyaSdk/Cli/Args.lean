import TuyaSdk.Cli.Input

/-!
# The arguments of a line

What the arguments of a line are is said here on the list of its characters. `handle_input`
finds them in place with two bits; it is compared with a machine on the list that looks back at
a backslash as `handle_input` does (`Scan`), and the machine with the arguments, which look
ahead.
-/

namespace TuyaSdk.Cli

open TuyaSdk.Lib

/-! ## What they are -/

/-- The character ends an argument. -/
def closing (quoted : Bool) : Byte := if quoted then quote else space

/-- The text of an argument from its first character on, and what is behind the character that
ends it, if there is one. A backslash before a space or a quote stands for nothing itself. -/
def argText (quoted : Bool) : List Byte → List Byte × Option (List Byte)
  | [] => ([], none)
  | [c] => if c = closing quoted then ([], some []) else ([c], none)
  | c :: d :: ds =>
    if c = backslash ∧ (d = space ∨ d = quote) then
      (d :: (argText quoted ds).1, (argText quoted ds).2)
    else if c = closing quoted then ([], some (d :: ds))
    else (c :: (argText quoted (d :: ds)).1, (argText quoted (d :: ds)).2)

theorem argText_length {quoted : Bool} {cs rest : List Byte}
    (h : (argText quoted cs).2 = some rest) : rest.length < cs.length := by
  induction cs using argText.induct quoted with
  | case1 => exact absurd h (by simp [argText])
  | case2 =>
    simp only [argText, if_true, Option.some.injEq] at h
    rw [← h]
    exact Nat.zero_lt_one
  | case3 c hc =>
    simp only [argText, hc, if_false] at h
    exact absurd h (by simp)
  | case4 c d ds hesc ih =>
    rw [argText, if_pos hesc] at h
    have := ih h
    simp only [List.length_cons]
    omega
  | case5 d ds hesc =>
    rw [argText, if_neg hesc, if_pos rfl, Option.some.injEq] at h
    rw [← h]
    exact Nat.lt_succ_self _
  | case6 c d ds hesc hc ih =>
    rw [argText, if_neg hesc, if_neg hc] at h
    exact Nat.lt_trans (ih h) (Nat.lt_succ_self _)

/-- An argument that begins with the character: whether it is quoted, and its characters. -/
def opening (c : Byte) (cs : List Byte) : Bool × List Byte :=
  if c = quote then (true, cs) else (false, c :: cs)

theorem opening_length (c : Byte) (cs : List Byte) : (opening c cs).2.length ≤ cs.length + 1 := by
  unfold opening
  split_ifs
  · exact Nat.le_succ _
  · exact Nat.le_refl _

/-- The arguments of a line: runs of characters up to a space, or what is in quotes. The second
part says that a quote is never closed. -/
def args : List Byte → List (List Byte) × Bool
  | [] => ([], false)
  | c :: cs =>
    if c = space then args cs
    else
      match _h : (argText (opening c cs).1 (opening c cs).2).2 with
      | none => ([(argText (opening c cs).1 (opening c cs).2).1], (opening c cs).1)
      | some rest =>
        ((argText (opening c cs).1 (opening c cs).2).1 :: (args rest).1, (args rest).2)
termination_by cs => cs.length
decreasing_by
  · exact Nat.lt_succ_self _
  · exact Nat.lt_of_lt_of_le (argText_length _h) (opening_length c cs)

/-- What is read from an argument on, behind those that are done. -/
def argsFrom (done : List (List Byte)) (quoted : Bool) (acc cs : List Byte) :
    List (List Byte) × Bool :=
  match (argText quoted cs).2 with
  | none => (done ++ [acc ++ (argText quoted cs).1], quoted)
  | some rest => (done ++ (acc ++ (argText quoted cs).1) :: (args rest).1, (args rest).2)

theorem args_space (cs : List Byte) : args (space :: cs) = args cs := by
  rw [args, if_pos rfl]

theorem args_open {c : Byte} (hc : c ≠ space) (done : List (List Byte)) (cs : List Byte) :
    (done ++ (args (c :: cs)).1, (args (c :: cs)).2) =
      argsFrom done (opening c cs).1 [] (opening c cs).2 := by
  rw [args, if_neg hc, argsFrom]
  split <;> rename_i h
  · split <;> rename_i h'
    · rfl
    · rw [h] at h'
      exact absurd h' (by simp)
  · split <;> rename_i h'
    · rw [h] at h'
      exact absurd h' (by simp)
    · rw [h, Option.some.injEq] at h'
      rw [h']
      rfl

/-! ## One character of an argument -/

variable {done : List (List Byte)} {quoted : Bool} {acc cs ds : List Byte} {c d : Byte}

theorem argsFrom_nil : argsFrom done quoted acc [] = (done ++ [acc], quoted) := by
  simp [argsFrom, argText]

/-- A backslash and what it stands before. -/
theorem argsFrom_escape (hd : d = space ∨ d = quote) :
    argsFrom done quoted acc (backslash :: d :: ds) = argsFrom done quoted (acc ++ [d]) ds := by
  have htext : argText quoted (backslash :: d :: ds) =
      (d :: (argText quoted ds).1, (argText quoted ds).2) := by
    rw [argText, if_pos ⟨rfl, hd⟩]
  rw [argsFrom, argsFrom, htext]
  simp only [List.append_assoc, List.singleton_append]

/-- The character that ends an argument. -/
theorem argsFrom_close : argsFrom done quoted acc (closing quoted :: cs) =
    (done ++ [acc] ++ (args cs).1, (args cs).2) := by
  have htext : argText quoted (closing quoted :: cs) = ([], some cs) := by
    cases cs with
    | nil => rw [argText, if_pos rfl]
    | cons d ds =>
      have hne : closing quoted ≠ backslash := by cases quoted <;> decide
      rw [argText, if_neg fun h => hne h.1, if_pos rfl]
  rw [argsFrom, htext]
  simp only [List.append_nil, List.append_assoc, List.singleton_append]

/-- Any other character. -/
theorem argsFrom_cons (hc : c ≠ closing quoted)
    (hesc : c = backslash → ∀ d, cs.head? = some d → d ≠ space ∧ d ≠ quote) :
    argsFrom done quoted acc (c :: cs) = argsFrom done quoted (acc ++ [c]) cs := by
  have htext : argText quoted (c :: cs) = (c :: (argText quoted cs).1, (argText quoted cs).2) := by
    cases cs with
    | nil => simp only [argText, if_neg hc]
    | cons d ds =>
      have hno : ¬(c = backslash ∧ (d = space ∨ d = quote)) := by
        rintro ⟨hb, hd⟩
        obtain ⟨h1, h2⟩ := hesc hb d rfl
        exact hd.elim h1 h2
      rw [argText, if_neg hno, if_neg hc]
  rw [argsFrom, argsFrom, htext]
  simp only [List.append_assoc, List.singleton_append]

/-! ## Looking back -/

/-- The arguments that are done, and the one that has begun. -/
structure Scan where
  done : List (List Byte)
  cur : Option (Bool × List Byte)

/-- The last character of the argument is a backslash. -/
def EndsEscape (acc : List Byte) : Prop := acc.getLast? = some backslash

instance (acc : List Byte) : Decidable (EndsEscape acc) := inferInstanceAs (Decidable (_ = _))

/-- One character, with a look back. -/
def Scan.step (s : Scan) (c : Byte) : Scan :=
  match s.cur with
  | none =>
    if c = space then s
    else ⟨s.done, some (c = quote, if c = quote then [] else [c])⟩
  | some (q, acc) =>
    if (c = space ∨ c = quote) ∧ EndsEscape acc then ⟨s.done, some (q, acc.dropLast ++ [c])⟩
    else if c = closing q then ⟨s.done ++ [acc], none⟩
    else ⟨s.done, some (q, acc ++ [c])⟩

/-- What the machine has found. -/
def Scan.found (s : Scan) : List (List Byte) × Bool :=
  match s.cur with
  | none => (s.done, false)
  | some (q, acc) => (s.done ++ [acc], q)

/-- What the arguments will be, behind what the machine has read. -/
def Scan.ahead (s : Scan) (cs : List Byte) : List (List Byte) × Bool :=
  match s.cur with
  | none => (s.done ++ (args cs).1, (args cs).2)
  | some (q, acc) =>
    if EndsEscape acc then argsFrom s.done q acc.dropLast (backslash :: cs)
    else argsFrom s.done q acc cs

theorem EndsEscape.eq {acc : List Byte} (h : EndsEscape acc) : acc.dropLast ++ [backslash] = acc :=
  List.dropLast_append_getLast? _ h

theorem endsEscape_concat {acc : List Byte} {c : Byte} :
    EndsEscape (acc ++ [c]) ↔ c = backslash := by
  rw [EndsEscape, List.getLast?_concat, Option.some.injEq]

theorem backslash_ne_closing (quoted : Bool) : backslash ≠ closing quoted := by
  cases quoted <;> decide

/-- The backslash at the end has been read. -/
theorem argsFrom_backslash {acc : List Byte} (h : EndsEscape acc)
    (hhead : ∀ d, cs.head? = some d → d ≠ space ∧ d ≠ quote) :
    argsFrom done quoted acc.dropLast (backslash :: cs) = argsFrom done quoted acc cs := by
  rw [argsFrom_cons (backslash_ne_closing quoted) fun _ => hhead, h.eq]

theorem ahead_nil (s : Scan) : s.ahead [] = s.found := by
  obtain ⟨done, cur⟩ := s
  cases cur with
  | none => simp only [Scan.ahead, Scan.found, args, List.append_nil]
  | some a =>
    obtain ⟨q, acc⟩ := a
    simp only [Scan.ahead, Scan.found]
    split_ifs with hesc
    · rw [argsFrom_backslash hesc fun d hd => absurd hd (by simp), argsFrom_nil]
    · exact argsFrom_nil

theorem ahead_step (s : Scan) (c : Byte) (cs : List Byte) :
    (s.step c).ahead cs = s.ahead (c :: cs) := by
  obtain ⟨done, cur⟩ := s
  cases cur with
  | none =>
    simp only [Scan.step]
    by_cases hspace : c = space
    · subst hspace
      simp only [if_true, Scan.ahead, args_space]
    rw [if_neg hspace]
    simp only [Scan.ahead]
    rw [args_open hspace, opening]
    by_cases hquote : c = quote
    · simp only [hquote, if_true, decide_true]
      exact if_neg (by decide)
    simp only [hquote, if_false, decide_false]
    by_cases hesc : c = backslash
    · rw [hesc]
      exact if_pos rfl
    · rw [if_neg (show ¬EndsEscape [c] from fun h => hesc (Option.some.inj h))]
      have hkept : argsFrom done false [] (c :: cs) = argsFrom done false [c] cs :=
        argsFrom_cons hspace fun h => absurd h hesc
      exact hkept.symm
  | some a =>
    obtain ⟨q, acc⟩ := a
    simp only [Scan.step]
    by_cases hback : (c = space ∨ c = quote) ∧ EndsEscape acc
    · obtain ⟨hc, hesc⟩ := hback
      have hne : c ≠ backslash := by
        rintro rfl
        exact absurd hc (by decide)
      simp only [hc, hesc, and_self, if_true, Scan.ahead, endsEscape_concat, hne, if_false]
      exact (argsFrom_escape hc).symm
    rw [if_neg hback]
    by_cases hclose : c = closing q
    · have hc : c = space ∨ c = quote := by
        rw [hclose]
        cases q
        · exact .inl rfl
        · exact .inr rfl
      have hesc : ¬EndsEscape acc := fun h => hback ⟨hc, h⟩
      rw [if_pos hclose]
      simp only [Scan.ahead, hesc, if_false, hclose, argsFrom_close]
    · rw [if_neg hclose]
      have hbehind : Scan.ahead ⟨done, some (q, acc)⟩ (c :: cs) =
          argsFrom done q acc (c :: cs) := by
        simp only [Scan.ahead]
        split_ifs with hesc
        · refine argsFrom_backslash hesc fun d hd => ?_
          obtain rfl := Option.some.inj hd
          exact ⟨fun h => hback ⟨.inl h, hesc⟩, fun h => hback ⟨.inr h, hesc⟩⟩
        · rfl
      rw [hbehind]
      simp only [Scan.ahead, endsEscape_concat]
      split_ifs with hesc
      · rw [List.dropLast_concat, hesc]
      · exact (argsFrom_cons hclose fun h => absurd h hesc).symm

/-- The machine finds the arguments. -/
theorem scan_args (cs : List Byte) : (cs.foldl Scan.step ⟨[], none⟩).found = args cs := by
  have hall : ∀ s : Scan, (cs.foldl Scan.step s).found = s.ahead cs := by
    induction cs with
    | nil => exact fun s => (ahead_nil s).symm
    | cons c cs ih => exact fun s => (ih (s.step c)).trans (ahead_step s c cs)
  exact hall _

end TuyaSdk.Cli
