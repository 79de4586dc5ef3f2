import TuyaSdk.Cli.Args

/-!
# The arguments are found in place

The variables of `handle_input` hold what the machine has found: the arguments that are done lie
as strings before the one that has begun, which ends at `i`, and the rest of the line is at `i`.
-/

namespace TuyaSdk.Cli

open TuyaSdk.Lib

variable {m m' : Mem} {argv argv' : Nat → Nat} {done : List (List Byte)} {limit limit' : Nat}
  {t : Tok} {s : Scan} {q : Bool} {acc rest text : List Byte} {c : Byte} {a k : Nat}

/-! ## Strings in the buffer -/

theorem bytesAt_moved {b : Nat} {bs : List Byte} (h : BytesAt m a bs)
    (hm : ∀ k, k < bs.length → m' (b + k) = m (a + k)) : BytesAt m' b bs :=
  (List.map_congr_left fun k hk => hm k (List.mem_range.mp hk)).trans h

/-- The strings are in memory, and end before the limit. -/
def Laid (m : Mem) (argv : Nat → Nat) (done : List (List Byte)) (limit : Nat) : Prop :=
  ∀ k text, done[k]? = some text →
    BytesAt m (argv k) (text ++ [0]) ∧ 0 ∉ text ∧ argv k + text.length < limit

theorem laid_nil : Laid m argv [] limit := fun k text h => absurd h (by simp)

theorem Laid.keep (h : Laid m argv done limit) (hm : ∀ x, x < limit → m' x = m x)
    (hargv : ∀ k, k < done.length → argv' k = argv k) (hle : limit ≤ limit') :
    Laid m' argv' done limit' := by
  intro k text hk
  obtain ⟨hbytes, hnul, hlt⟩ := h k text hk
  have hlen : k < done.length := (List.getElem?_eq_some_iff.mp hk).1
  rw [hargv k hlen]
  refine ⟨hbytes.congr fun x hx => hm x ?_, hnul, by omega⟩
  have := hx.2
  rw [List.length_append, List.length_singleton] at this
  omega

theorem Laid.concat (h : Laid m argv done (argv done.length))
    (hbytes : BytesAt m (argv done.length) (text ++ [0])) (hnul : 0 ∉ text)
    (hlt : argv done.length + text.length < limit) : Laid m argv (done ++ [text]) limit := by
  intro k other hk
  by_cases hlen : k < done.length
  · rw [List.getElem?_append_left hlen] at hk
    obtain ⟨hb, hn, hl⟩ := h k other hk
    exact ⟨hb, hn, by omega⟩
  · have hk' : k < (done ++ [text]).length := (List.getElem?_eq_some_iff.mp hk).1
    rw [List.length_append, List.length_singleton] at hk'
    obtain rfl : k = done.length := by omega
    rw [List.getElem?_concat_length, Option.some.injEq] at hk
    exact hk ▸ ⟨hbytes, hnul, hlt⟩

theorem cstrFuel_eq {n : Nat} (h : BytesAt m a (text ++ [0])) (hnul : 0 ∉ text)
    (hlt : text.length < n) : cstrFuel m n a = text := by
  induction text generalizing a n with
  | nil =>
    obtain ⟨n, rfl⟩ := Nat.exists_eq_succ_of_ne_zero (Nat.ne_of_gt hlt)
    rw [cstrFuel, if_pos (bytesAt_cons.mp h).1]
  | cons b text ih =>
    obtain ⟨n, rfl⟩ := Nat.exists_eq_succ_of_ne_zero (Nat.ne_zero_of_lt hlt)
    obtain ⟨hb, hrest⟩ := bytesAt_cons.mp h
    obtain ⟨hne, hnul⟩ := not_or.mp (List.mem_cons.not.mp hnul)
    rw [cstrFuel, hb, if_neg (Ne.symm hne), ih hrest hnul (Nat.lt_of_succ_lt_succ hlt)]

theorem cstr_eq (h : BytesAt m a (text ++ [0])) (hnul : 0 ∉ text) (hlt : text.length < inbufSize) :
    cstr m a = text := cstrFuel_eq h hnul hlt

/-! ## What the variables hold -/

/-- The argument that has begun ends at `i`, and before its first character there is no
backslash. -/
structure Begun (t : Tok) (start : Nat) (acc : List Byte) : Prop where
  bytes : BytesAt t.inbuf start acc
  noNul : 0 ∉ acc
  ends : start + acc.length = t.i
  back : acc = [] → t.inbuf (t.i - 1) ≠ backslash

/-- Where the strings that are done have to end. -/
def limitOf (t : Tok) (s : Scan) : Nat := if s.cur.isSome then t.argv s.done.length else t.i

/-- The variables hold what the machine has found, and the rest of the line. -/
structure Holds (t : Tok) (s : Scan) (rest : List Byte) : Prop where
  line : BytesAt t.inbuf t.i (rest ++ [0])
  noNul : 0 ∉ rest
  room : t.i + rest.length < inbufSize
  argc : t.argc = s.found.1.length
  stores : t.stores = List.range t.argc
  inQuote : t.inQuote = s.found.2
  inArg : t.inArg = s.cur.isSome
  laid : Laid t.inbuf t.argv s.done (limitOf t s)
  begun : ∀ q acc, s.cur = some (q, acc) → Begun t (t.argv s.done.length) acc

/-- The variables in the next pass. -/
def Tok.bump (t : Tok) : Tok := { t with i := t.i + 1 }

theorem Holds.head (h : Holds t s (c :: rest)) : t.inbuf t.i = c :=
  (bytesAt_cons.mp h.line).1

theorem Holds.zero (h : Holds t s []) : t.inbuf t.i = 0 := (bytesAt_cons.mp h.line).1

theorem Holds.step_line (h : Holds t s (c :: rest)) (hm : ∀ x, t.i < x → m x = t.inbuf x) :
    BytesAt m (t.i + 1) (rest ++ [0]) :=
  (bytesAt_cons.mp h.line).2.congr fun x hx => hm x hx.1

theorem Holds.step_room (h : Holds t s (c :: rest)) : t.i + 1 + rest.length < inbufSize := by
  have := h.room
  rw [List.length_cons] at this
  omega

theorem Holds.step_noNul (h : Holds t s (c :: rest)) : 0 ∉ rest :=
  fun hmem => h.noNul (List.mem_cons_of_mem _ hmem)

theorem Holds.ne_zero (h : Holds t s (c :: rest)) : 0 ≠ c :=
  fun hc => h.noNul (hc ▸ List.mem_cons_self)

theorem Holds.begun_of (h : Holds t ⟨done, some (q, acc)⟩ rest) :
    Begun t (t.argv done.length) acc := h.begun q acc rfl

/-- A character that is kept in the argument. -/
theorem Holds.append (h : Holds t ⟨done, some (q, acc)⟩ (c :: rest)) :
    Holds t.bump ⟨done, some (q, acc ++ [c])⟩ rest where
  line := h.step_line fun _ _ => rfl
  noNul := h.step_noNul
  room := h.step_room
  argc := h.argc.trans (by simp only [Scan.found, List.length_append, List.length_singleton])
  stores := h.stores
  inQuote := h.inQuote
  inArg := h.inArg
  laid := h.laid
  begun := by
    rintro q' acc' hcur
    obtain ⟨rfl, rfl⟩ := Prod.mk.inj (Option.some.inj hcur)
    obtain ⟨hbytes, hnul, hends, -⟩ := h.begun_of
    refine ⟨bytesAt_append.mpr ⟨hbytes, ?_⟩, ?_, ?_, fun hnil => absurd hnil (by simp)⟩
    · rw [show (t.bump).argv done.length + acc.length = t.i from hends]
      exact bytesAt_cons.mpr ⟨h.head, bytesAt_nil _ _⟩
    · rw [List.mem_append, List.mem_singleton]
      exact fun hmem => hmem.elim hnul h.ne_zero
    · rw [List.length_append, List.length_singleton, ← Nat.add_assoc]
      exact congrArg (· + 1) hends

/-- A space between arguments. -/
theorem Holds.skip (h : Holds t ⟨done, none⟩ (c :: rest)) : Holds t.bump ⟨done, none⟩ rest where
  line := h.step_line fun _ _ => rfl
  noNul := h.step_noNul
  room := h.step_room
  argc := h.argc
  stores := h.stores
  inQuote := h.inQuote
  inArg := h.inArg
  laid := h.laid.keep (fun _ _ => rfl) (fun _ _ => rfl) (Nat.le_succ _)
  begun := fun q acc hcur => absurd hcur (by simp)

/-- An argument that begins at `start`. -/
theorem Holds.openArg {u : Tok} (h : Holds t ⟨done, none⟩ (c :: rest)) {start : Nat}
    (hu : u = { t.openArg start with inQuote := q }) (hstart : t.i ≤ start)
    (hbegun : Begun u.bump start acc) : Holds u.bump ⟨done, some (q, acc)⟩ rest := by
  have hargc : t.argc = done.length := h.argc
  have hargv : u.argv done.length = start := by
    rw [hu, ← hargc]
    exact Function.update_self _ _ _
  subst hu
  exact {
    line := h.step_line fun _ _ => rfl
    noNul := h.step_noNul
    room := h.step_room
    argc := by
      simp only [Scan.found, List.length_append, List.length_singleton]
      exact congrArg (· + 1) hargc
    stores := by
      change t.stores ++ [t.argc] = List.range (t.argc + 1)
      rw [List.range_succ, h.stores]
    inQuote := rfl
    inArg := rfl
    laid := by
      refine h.laid.keep (fun _ _ => rfl) (fun k hk => ?_) ?_
      · exact Function.update_of_ne (by rw [hargc]; exact Nat.ne_of_lt hk) _ _
      · exact Nat.le_trans hstart (Nat.le_of_eq hargv.symm)
    begun := by
      rintro q' acc' hcur
      obtain ⟨rfl, rfl⟩ := Prod.mk.inj (Option.some.inj hcur)
      exact hargv.symm ▸ hbegun }

theorem Holds.openWord (h : Holds t ⟨done, none⟩ (c :: rest)) :
    Holds (t.openArg t.i).bump ⟨done, some (false, [c])⟩ rest := by
  have hquote : t.inQuote = false := h.inQuote
  have hopen : t.openArg t.i = { t.openArg t.i with inQuote := false } := by
    rw [← hquote]
    rfl
  refine h.openArg hopen (Nat.le_refl _) ?_
  exact ⟨bytesAt_cons.mpr ⟨h.head, bytesAt_nil _ _⟩,
    fun hmem => h.ne_zero (List.mem_singleton.mp hmem), rfl, fun hnil => absurd hnil (by simp)⟩

theorem Holds.openQuote (h : Holds t ⟨done, none⟩ (quote :: rest)) :
    Holds { t.openArg (t.i + 1) with inQuote := true }.bump ⟨done, some (true, [])⟩ rest := by
  have hopen : ({ t.openArg (t.i + 1) with inQuote := true } : Tok) =
      { t.openArg (t.i + 1) with inQuote := true } := rfl
  refine h.openArg hopen (Nat.le_succ _) ?_
  refine ⟨bytesAt_nil _ _, List.not_mem_nil, rfl, fun _ => ?_⟩
  change t.inbuf (t.i + 1 - 1) ≠ backslash
  rw [Nat.add_sub_cancel, h.head]
  decide

/-- The end of an argument. -/
theorem Holds.close (h : Holds t ⟨done, some (q, acc)⟩ (c :: rest)) :
    Holds t.closeArg.bump ⟨done ++ [acc], none⟩ rest := by
  obtain ⟨hbytes, hnul, hends, -⟩ := h.begun_of
  have hout : ∀ x, x ≠ t.i → t.closeArg.inbuf x = t.inbuf x := fun x hx => write8_apply hx
  exact {
    line := h.step_line fun x hx => hout x (Nat.ne_of_gt hx)
    noNul := h.step_noNul
    room := h.step_room
    argc := h.argc
    stores := h.stores
    inQuote := rfl
    inArg := rfl
    laid := by
      have hbefore : Laid t.closeArg.inbuf t.argv done (t.argv done.length) :=
        h.laid.keep (fun x hx => hout x (by have : x < t.argv done.length := hx; omega))
          (fun _ _ => rfl) (Nat.le_refl _)
      refine hbefore.concat (bytesAt_append.mpr ⟨?_, ?_⟩) hnul ?_
      · exact hbytes.congr fun x hx => hout x (by have := hx.2; omega)
      · rw [hends]
        exact bytesAt_cons.mpr ⟨write8_same _ _ _, bytesAt_nil _ _⟩
      · exact Nat.lt_succ_of_le (Nat.le_of_eq hends)
    begun := fun q acc hcur => absurd hcur (by simp) }

/-- The rest of the line is moved over a backslash. -/
theorem Holds.unescape (h : Holds t ⟨done, some (q, acc)⟩ (c :: rest)) (hesc : EndsEscape acc) :
    Holds t.unescape.bump ⟨done, some (q, acc.dropLast ++ [c])⟩ rest := by
  obtain ⟨hbytes, hnul, hends, -⟩ := h.begun_of
  have hlen : acc.dropLast.length + 1 = acc.length := by
    rw [← congrArg List.length hesc.eq, List.length_append, List.length_singleton]
  have hi : t.i - 1 + 1 = t.i := by omega
  have hstr : cstr t.inbuf t.i = c :: rest :=
    cstr_eq h.line h.noNul (Nat.lt_of_le_of_lt (Nat.le_add_left _ _) h.room)
  have hmoved : ∀ k, k < rest.length + 2 → t.unescape.inbuf (t.i - 1 + k) = t.inbuf (t.i + k) := by
    intro k hk
    refine memcpy_copied ?_
    rw [hstr, List.length_cons]
    exact hk
  have hout : ∀ x, x < t.i - 1 → t.unescape.inbuf x = t.inbuf x :=
    fun x hx => memcpy_apply (.inl hx)
  have hkept : BytesAt t.unescape.inbuf (t.argv done.length) acc.dropLast := by
    rw [← hesc.eq] at hbytes
    exact (bytesAt_append.mp hbytes).1.congr fun x hx => hout x (by have := hx.2; omega)
  have hlast : t.unescape.inbuf (t.i - 1) = c := (hmoved 0 (Nat.zero_lt_succ _)).trans h.head
  have hnext : t.unescape.bump.i = t.i := hi
  exact {
    line := by
      rw [hnext]
      refine bytesAt_moved (bytesAt_cons.mp h.line).2 fun k hk => ?_
      rw [List.length_append, List.length_singleton] at hk
      have hfrom : t.i + 1 + k = t.i + (k + 1) := Nat.add_right_comm _ _ _
      have hto : t.i + k = t.i - 1 + (k + 1) := by omega
      rw [hfrom, hto]
      exact hmoved (k + 1) (Nat.succ_lt_succ hk)
    noNul := h.step_noNul
    room := by
      rw [hnext]
      have := h.room
      rw [List.length_cons] at this
      omega
    argc := h.argc.trans (by simp only [Scan.found, List.length_append, List.length_singleton])
    stores := h.stores
    inQuote := h.inQuote
    inArg := h.inArg
    laid := by
      refine h.laid.keep (fun x hx => hout x ?_) (fun _ _ => rfl) (Nat.le_refl _)
      have : x < t.argv done.length := hx
      omega
    begun := by
      rintro q' acc' hcur
      obtain ⟨rfl, rfl⟩ := Prod.mk.inj (Option.some.inj hcur)
      refine ⟨bytesAt_append.mpr ⟨hkept, ?_⟩, ?_, ?_, fun hnil => absurd hnil (by simp)⟩
      · have hplace : t.argv done.length + acc.dropLast.length = t.i - 1 := by omega
        exact bytesAt_cons.mpr ⟨hplace ▸ hlast, bytesAt_nil _ _⟩
      · rw [List.mem_append, List.mem_singleton]
        exact fun hmem => hmem.elim (fun h' => hnul (List.mem_of_mem_dropLast h')) h.ne_zero
      · rw [hnext, List.length_append, List.length_singleton]
        exact hlen ▸ hends }

/-! ## A pass -/

/-- The look back finds what the machine finds. -/
theorem Begun.escaped_iff {start : Nat} (h : Begun t start acc) (hin : t.inArg = true) :
    t.Escaped ↔ EndsEscape acc := by
  obtain ⟨hbytes, -, hends, hback⟩ := h
  rcases List.eq_nil_or_concat acc with hnil | ⟨ys, b, hys⟩
  · refine iff_of_false (fun hesc => hback hnil hesc.2.1) fun hesc => ?_
    rw [hnil] at hesc
    exact absurd hesc (by simp [EndsEscape])
  · rw [List.concat_eq_append] at hys
    subst hys
    rw [List.length_append, List.length_singleton] at hends
    have hlast : t.inbuf (t.i - 1) = b := by
      have := (bytesAt_cons.mp (bytesAt_append.mp hbytes).2).1
      rwa [show start + ys.length = t.i - 1 by omega] at this
    rw [endsEscape_concat, Tok.Escaped, hlast]
    refine ⟨fun hesc => hesc.2.1, fun hb => ⟨by omega, hb, hin⟩⟩

theorem Holds.next (h : Holds t.bump s rest) : t.next = .again t.bump := by
  have hroom : t.i + 1 < inbufSize := Nat.lt_of_le_of_lt (Nat.le_add_right _ _) h.room
  rw [Tok.next, if_pos hroom]
  rfl

/-- A pass at a character, by what the cases do. -/
theorem handlePass_next {u : Tok} (hc : t.inbuf t.i = c) (hne : 0 ≠ c)
    (hquote : c = quote → t.onQuote = some u) (hspace : c = space → t.onSpace = u)
    (hother : c ≠ quote → c ≠ space → t.onOther = u) (hu : Holds u.bump s rest) :
    handlePass t = .again u.bump := by
  rw [handlePass, hc, if_neg hne.symm, ← hu.next]
  by_cases h1 : c = quote
  · rw [if_pos h1, hquote h1]
  by_cases h2 : c = space
  · rw [if_neg h1, if_pos h2, hspace h2]
  · rw [if_neg h1, if_neg h2, hother h1 h2]

/-- A character between arguments. -/
theorem Holds.passOutside (h : Holds t ⟨done, none⟩ (c :: rest)) :
    ∃ u, handlePass t = .again u ∧ Holds u (Scan.step ⟨done, none⟩ c) rest := by
  have hin : ¬t.inArg = true := fun hin => absurd (h.inArg.symm.trans hin) Bool.false_ne_true
  have hquoted : ¬t.inQuote = true := fun hq => absurd (h.inQuote.symm.trans hq) Bool.false_ne_true
  have hesc : ¬t.Escaped := fun hesc => hin hesc.2.2
  by_cases hspace : c = space
  · subst hspace
    refine ⟨_, handlePass_next h.head h.ne_zero (fun hc => absurd hc (by decide)) (fun _ => ?_)
      (fun _ hno => ?_) h.skip, h.skip⟩
    · rw [Tok.onSpace, if_neg hesc, if_neg fun hboth => hin hboth.2]
    · exact absurd rfl hno
  by_cases hquote : c = quote
  · subst hquote
    refine ⟨_, handlePass_next h.head h.ne_zero (fun _ => ?_) (fun hc => absurd hc hspace)
      (fun hno => absurd rfl hno) h.openQuote, h.openQuote⟩
    rw [Tok.onQuote, if_neg hesc, if_neg fun hboth => hin hboth.2,
      if_neg fun hboth => hquoted hboth.1, if_pos ⟨hquoted, hin⟩]
  · have hstep : Scan.step ⟨done, none⟩ c = ⟨done, some (false, [c])⟩ := by
      simp only [Scan.step, hspace, hquote, if_false, decide_false]
    rw [hstep]
    refine ⟨_, handlePass_next h.head h.ne_zero (fun hc => absurd hc hquote)
      (fun hc => absurd hc hspace) (fun _ _ => ?_) h.openWord, h.openWord⟩
    rw [Tok.onOther, if_pos hin]

/-- A character of an argument, or its end. -/
theorem Holds.passInside (h : Holds t ⟨done, some (q, acc)⟩ (c :: rest)) :
    ∃ u, handlePass t = .again u ∧ Holds u (Scan.step ⟨done, some (q, acc)⟩ c) rest := by
  have hin : t.inArg = true := h.inArg
  have hquoted : t.inQuote = q := h.inQuote
  have hback := h.begun_of.escaped_iff hin
  simp only [Scan.step]
  by_cases hmove : (c = space ∨ c = quote) ∧ EndsEscape acc
  · have hesc : t.Escaped := hback.mpr hmove.2
    have hmoved := h.unescape hmove.2
    rw [if_pos hmove]
    refine ⟨_, handlePass_next h.head h.ne_zero (fun _ => ?_) (fun _ => ?_) (fun h1 h2 => ?_)
      hmoved, hmoved⟩
    · rw [Tok.onQuote, if_pos hesc]
    · rw [Tok.onSpace, if_pos hesc]
    · exact absurd hmove.1 (not_or.mpr ⟨h2, h1⟩)
  rw [if_neg hmove]
  have hesc : c = space ∨ c = quote → ¬t.Escaped := fun hc hesc => hmove ⟨hc, hback.mp hesc⟩
  by_cases hclose : c = closing q
  · rw [if_pos hclose]
    have hclosed := h.close
    refine ⟨_, handlePass_next h.head h.ne_zero (fun hc => ?_) (fun hc => ?_) (fun h1 h2 => ?_)
      hclosed, hclosed⟩
    · have hq : t.inQuote = true := by
        rw [hquoted]
        cases q
        · exact absurd (hclose.symm.trans hc) (by decide)
        · rfl
      rw [Tok.onQuote, if_neg (hesc (.inr hc)), if_neg fun hboth => hboth.1 hq,
        if_neg fun hboth => hboth.2 hin, if_neg fun hboth => hboth.1 hq]
    · have hq : ¬t.inQuote = true := by
        rw [hquoted]
        cases q
        · exact Bool.false_ne_true
        · exact absurd (hclose.symm.trans hc) (by decide)
      rw [Tok.onSpace, if_neg (hesc (.inl hc)), if_pos ⟨hq, hin⟩]
    · cases q
      · exact absurd hclose h2
      · exact absurd hclose h1
  · rw [if_neg hclose]
    have hkept := h.append
    refine ⟨_, handlePass_next h.head h.ne_zero (fun hc => ?_) (fun hc => ?_) (fun _ _ => ?_)
      hkept, hkept⟩
    · have hq : ¬t.inQuote = true := by
        rw [hquoted]
        cases q
        · exact Bool.false_ne_true
        · exact absurd hc hclose
      rw [Tok.onQuote, if_neg (hesc (.inr hc)), if_pos ⟨hq, hin⟩]
    · have hq : t.inQuote = true := by
        rw [hquoted]
        cases q
        · exact absurd hc hclose
        · rfl
      rw [Tok.onSpace, if_neg (hesc (.inl hc)), if_neg fun hboth => hboth.1 hq]
    · rw [Tok.onOther, if_neg fun hno => hno hin]

theorem Holds.pass (h : Holds t s (c :: rest)) :
    ∃ u, handlePass t = .again u ∧ Holds u (s.step c) rest := by
  obtain ⟨done, cur⟩ := s
  cases cur with
  | none => exact h.passOutside
  | some a =>
    obtain ⟨q, acc⟩ := a
    exact h.passInside

/-! ## The line -/

/-- The loop reads the whole line. -/
theorem Holds.run {n : Nat} (h : Holds t s rest) (hn : rest.length < n) :
    ∃ u, Loop.run handlePass n t = some (u.inQuote, u) ∧ Holds u (rest.foldl Scan.step s) [] := by
  induction rest generalizing t s n with
  | nil =>
    obtain ⟨n, rfl⟩ := Nat.exists_eq_succ_of_ne_zero (Nat.ne_of_gt hn)
    refine ⟨t, Loop.run_exit ?_, h⟩
    rw [handlePass, h.zero, if_pos rfl]
  | cons c rest ih =>
    obtain ⟨n, rfl⟩ := Nat.exists_eq_succ_of_ne_zero (Nat.ne_zero_of_lt hn)
    obtain ⟨u, hpass, hu⟩ := h.pass
    obtain ⟨v, hrun, hv⟩ := ih hu (Nat.lt_of_succ_lt_succ hn)
    exact ⟨v, (Loop.run_again hpass).trans hrun, hv⟩

theorem Tok.length_args (t : Tok) : t.args.length = t.argc := by
  simp only [Tok.args, List.length_map, List.length_range]

theorem Tok.getElem_args (t : Tok) (hk : k < t.args.length) :
    t.args[k] = cstr t.inbuf (t.argv k) := by
  simp only [Tok.args, List.getElem_map, List.getElem_range]

/-- The arguments lie in the buffer when the line is read. -/
theorem Holds.args_eq (h : Holds t s []) : t.args = s.found.1 := by
  have hlaid : Laid t.inbuf t.argv s.found.1 inbufSize := by
    obtain ⟨done, cur⟩ := s
    have hroom : t.i < inbufSize := h.room
    cases cur with
    | none => exact h.laid.keep (fun _ _ => rfl) (fun _ _ => rfl) (Nat.le_of_lt hroom)
    | some a =>
      obtain ⟨hbytes, hnul, hends, -⟩ := h.begun a.1 a.2 rfl
      have hlaid : Laid t.inbuf t.argv done (t.argv done.length) := h.laid
      refine hlaid.concat (bytesAt_append.mpr ⟨hbytes, ?_⟩) hnul ?_
      · rw [hends]
        exact h.line
      · exact hends ▸ hroom
  refine List.ext_getElem (t.length_args.trans h.argc) fun k hk hk' => ?_
  obtain ⟨hbytes, hnul, hlt⟩ := hlaid k _ (List.getElem?_eq_getElem hk')
  rw [t.getElem_args hk]
  exact cstr_eq hbytes hnul (Nat.lt_of_le_of_lt (Nat.le_add_left _ _) hlt)

/-- `handle_input` behind its loop, on the arguments of the line. -/
def outcome (commands : List Name) (line : List Byte) : Outcome :=
  let found := args line
  let stores := List.range found.1.length
  if found.2 then ⟨2, stores, none, none⟩
  else
    match found.1 with
    | [] => ⟨0, stores, none, none⟩
    | name :: _ =>
      let len := (name.findIdx? (· = dot)).getD 0
      match lookupCommand commands name len with
      | none => ⟨1, stores, some (name, len), none⟩
      | some command => ⟨0, stores, some (name, len), some (command, found.1)⟩

/-- A line that ends inside of `inbuf`. -/
structure LineAt (m : Mem) (line : List Byte) : Prop where
  bytes : BytesAt m 0 (line ++ [0])
  noNul : 0 ∉ line
  fits : line.length < inbufSize

theorem handleInput_eq {commands : List Name} {line : List Byte} {n : Nat} (h : LineAt m line)
    (hn : line.length < n) : handleInput commands n m = some (outcome commands line) := by
  have hstart : Holds (tokStart m) ⟨[], none⟩ line := {
    line := h.bytes
    noNul := h.noNul
    room := by
      rw [tokStart, Nat.zero_add]
      exact h.fits
    argc := rfl
    stores := rfl
    inQuote := rfl
    inArg := rfl
    laid := laid_nil
    begun := fun q acc hcur => absurd hcur (by simp) }
  obtain ⟨u, hrun, hu⟩ := hstart.run hn
  have hargs := hu.args_eq
  have hargc := hu.argc
  have hquote := hu.inQuote
  rw [scan_args] at hargs hargc hquote
  rw [handleInput, hrun, Option.map_some]
  refine congrArg some ?_
  simp only [finishInput, outcome, or_self, hquote, hu.stores, hargc]
  split_ifs with hopen hnone
  · rfl
  · rw [List.length_eq_zero_iff.mp (Nat.lt_one_iff.mp hnone)]
  · cases hfound : (args line).1 with
    | nil => exact absurd (by rw [hfound]; decide) hnone
    | cons name others =>
      have hname : cstr u.inbuf (u.argv 0) = name := by
        have hzero : 0 < u.args.length := by
          rw [hargs, hfound]
          exact Nat.zero_lt_succ _
        rw [← u.getElem_args hzero]
        simp only [hargs, hfound, List.getElem_cons_zero]
      simp only [hname, hargs, hfound] <;> rfl

/-! ## What a line has to do -/

/-- The command is looked up by its name up to the first dot. -/
def lookedUp (name : List Byte) : List Byte × Nat := (name, (name.findIdx? (· = dot)).getD 0)

/-- The loop ends and stores inside of `argv`; the call returns 2 just when a quote is never closed
or there are too many arguments, and otherwise it looks up and calls with the arguments. -/
def Handles (commands : List Name) (m : Mem) (line : List Byte) : Prop :=
  ∃ o, (∀ n, line.length < n → handleInput commands n m = some o) ∧
    (∀ k ∈ o.stores, k < argvSize) ∧
    (o.ret = 2 ↔ (args line).2 = true ∨ argvSize < (args line).1.length) ∧
    (o.ret ≠ 2 → o.lookup = (args line).1.head?.map lookedUp ∧
      o.called = (args line).1.head?.bind fun name =>
        (lookupCommand commands (lookedUp name).1 (lookedUp name).2).map
          fun command => (command, (args line).1))

theorem outcome_stores (commands : List Name) (line : List Byte) :
    (outcome commands line).stores = List.range (args line).1.length := by
  unfold outcome
  dsimp only
  split_ifs
  · rfl
  · cases (args line).1 with
    | nil => rfl
    | cons name others =>
      dsimp only
      cases lookupCommand commands name _ <;> rfl

theorem outcome_ret (commands : List Name) (line : List Byte) :
    (outcome commands line).ret = 2 ↔ (args line).2 = true := by
  unfold outcome
  dsimp only
  split_ifs with hopen
  · exact iff_of_true rfl hopen
  · refine iff_of_false ?_ hopen
    cases (args line).1 with
    | nil => exact Nat.zero_ne_add_one 1
    | cons name others =>
      dsimp only
      cases lookupCommand commands name _ with
      | none => exact Nat.succ_ne_succ_iff.mpr Nat.zero_ne_one
      | some command => exact Nat.zero_ne_add_one 1

theorem outcome_called (commands : List Name) {line : List Byte} (hopen : ¬(args line).2 = true) :
    (outcome commands line).lookup = (args line).1.head?.map lookedUp ∧
      (outcome commands line).called = (args line).1.head?.bind fun name =>
        (lookupCommand commands (lookedUp name).1 (lookedUp name).2).map
          fun command => (command, (args line).1) := by
  rw [outcome, if_neg hopen]
  cases (args line).1 with
  | nil => exact ⟨rfl, rfl⟩
  | cons name others =>
    simp only [List.head?_cons, Option.map_some, Option.bind_some, lookedUp]
    cases lookupCommand commands name _ with
    | none => exact ⟨rfl, rfl⟩
    | some command => exact ⟨rfl, rfl⟩

theorem handles_iff {commands : List Name} {line : List Byte} (h : LineAt m line) :
    Handles commands m line ↔ (args line).1.length ≤ argvSize := by
  have hrun : ∀ n, line.length < n → handleInput commands n m = some (outcome commands line) :=
    fun n hn => handleInput_eq h hn
  constructor
  · rintro ⟨o, hall, hstores, -⟩
    have ho : some (outcome commands line) = some o :=
      (hrun _ (Nat.lt_succ_self _)).symm.trans (hall _ (Nat.lt_succ_self _))
    obtain rfl := Option.some.inj ho
    rw [outcome_stores] at hstores
    by_contra hmany
    exact absurd (hstores argvSize (List.mem_range.mpr (Nat.lt_of_not_le hmany))) (Nat.lt_irrefl _)
  · intro hfew
    refine ⟨outcome commands line, hrun, ?_, ?_, fun hret => ?_⟩
    · rw [outcome_stores]
      exact fun k hk => Nat.lt_of_lt_of_le (List.mem_range.mp hk) hfew
    · rw [outcome_ret, or_iff_left (Nat.not_lt.mpr hfew)]
    · exact outcome_called commands fun hopen => hret ((outcome_ret commands line).mpr hopen)

/-- Input stays in its buffer just when every tab finds a name that fits, and a line is cut into
its arguments just when `argv` has room for them. -/
theorem cli_iff {s : Line} {line : List Byte} (commands : List Name)
    (calls : List (List Byte × Mem)) (hbp : s.bp < inbufSize) (hline : LineAt m line) :
    (StaysInside commands s calls ↔ FitsRun commands s calls) ∧
      (Handles commands m line ↔ (args line).1.length ≤ argvSize) :=
  ⟨staysInside_iff commands hbp calls, handles_iff hline⟩

theorem lineAt_storeBytes {line : List Byte} (hnul : 0 ∉ line) (hfits : line.length < inbufSize) :
    LineAt (storeBytes m (line ++ [0])) line := ⟨bytesAt_storeBytes _ _, hnul, hfits⟩

/-- `ps "a b"` and an end of line -/
def psLine : List Byte := [0x70, 0x73, 0x20, 0x22, 0x61, 0x20, 0x62, 0x22]

theorem cli_iff_ps :
    let m := storeBytes (fun _ => 0) (psLine ++ [0])
    let calls := [(psLine ++ [endChar], fun _ => 0)]
    (StaysInside [] ⟨fun _ => 0, 0⟩ calls ↔ FitsRun [] ⟨fun _ => 0, 0⟩ calls) ∧
      (Handles [] m psLine ↔ (args psLine).1.length ≤ argvSize) :=
  cli_iff [] _ (by decide) (lineAt_storeBytes (by decide) (by decide))

/-- A name that leaves no room for the end of the line. -/
def longName : Name where
  text := List.replicate 127 0x61
  noNul := fun h => absurd (List.eq_of_mem_replicate h) (by decide)
  fits := by
    rw [List.length_replicate]
    decide

/-- A line of 21 arguments. -/
def crowded : List Byte := (List.replicate 21 [0x61, space]).flatten

/-- The long name is completed past the buffer, and the last of the arguments is stored behind
`argv`. -/
theorem not_cli : ¬StaysInside [longName] ⟨fun _ => 0, 0⟩ [([tab], fun _ => 0)] ∧
    ¬Handles [] (storeBytes (fun _ => 0) (crowded ++ [0])) crowded := by
  constructor
  · rw [staysInside_iff _ (by decide)]
    rintro ⟨⟨hfits, -⟩, -⟩
    have hroom := hfits rfl longName rfl
    have hlen : longName.text.length = 127 := List.length_replicate
    rw [hlen] at hroom
    exact absurd hroom (by decide)
  · rw [handles_iff (lineAt_storeBytes (by decide) (by decide)), ← scan_args]
    decide

end TuyaSdk.Cli
