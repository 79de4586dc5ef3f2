import TuyaSdk.Cli.Defs
import TuyaSdk.Lib.Machine

/-!
# The table of the commands (`wlan_cli.c`)

`cli_register_command` and `cli_unregister_command` keep an array of pointers to commands, which
`lookup_command` goes through. A command is known by its address; `0` is `NULL`. An access behind
the array has no result.

After any calls the array holds the list of the registered commands in their order, and each of them
has a name (`commands_run`): their names are the list in which `handle_input` looks one up.
-/

namespace TuyaSdk.Cli

open TuyaSdk.Lib

/-- `struct cli_command`, less the help text: its name unless that is `NULL`, and whether it has a
function. -/
structure CliCommand where
  name : Option Name
  function : Bool

/-- The commands in memory, which are constant. -/
abbrev Rom := Nat → CliCommand

/-- `MAX_COMMANDS` -/
def maxCommands : Nat := 64

/-- `sizeof(struct cli_command)` -/
def sizeofCliCommand : Nat := 12

/-- The table in `struct cli_st`. -/
structure CliSt where
  commands : Nat → Nat
  numCommands : Nat

/-- After the `os_memset` of `cli_init`. -/
def CliSt.zero : CliSt := ⟨fun _ => 0, 0⟩

/-- `pCli->commands[i]` -/
def CliSt.command (s : CliSt) (i : Nat) : Option Nat :=
  if i < maxCommands then some (s.commands i) else none

/-- `pCli->commands[i] = command` -/
def CliSt.store (s : CliSt) (i command : Nat) : Option CliSt :=
  if i < maxCommands then some { s with commands := Function.update s.commands i command }
  else none

/-- The `os_memmove` of `cli_unregister_command`. -/
def CliSt.moveDown (s : CliSt) (i remainingCmds : Nat) : Option CliSt :=
  if i + 1 + remainingCmds ≤ maxCommands then
    some { s with
      commands := fun k =>
        if i ≤ k ∧ k < i + remainingCmds then s.commands (k + 1) else s.commands k }
  else none

/-- The loops that look for `command`, over the `n` places from `i` on. -/
def CliSt.search (s : CliSt) (command : Nat) : Nat → Nat → Option (Option Nat)
  | 0, _ => some none
  | n + 1, i => (s.command i).bind fun c =>
    if c = command then some (some i) else s.search command n (i + 1)

/-- `!command->name || !command->function` -/
def CliCommand.lacks (c : CliCommand) : Bool := c.name.isNone || !c.function

/-- `cli_register_command` -/
def cliRegisterCommand (rom : Rom) (s : CliSt) (command : Nat) : Option (CliSt × Nat) :=
  if (rom command).lacks then some (s, 1)
  else if s.numCommands < maxCommands then
    (s.search command s.numCommands 0).bind fun found =>
      if found.isSome then some (s, 0)
      else (s.store s.numCommands command).map fun s =>
        ({ s with numCommands := s.numCommands + 1 }, 0)
  else some (s, 1)

/-- `cli_unregister_command`, once it has found the command at `i`. -/
def CliSt.remove (s : CliSt) (i : Nat) : Option CliSt :=
  let s := { s with numCommands := s.numCommands - 1 }
  let remainingCmds := s.numCommands - i
  (if 0 < remainingCmds then s.moveDown i remainingCmds else some s).bind fun s =>
    s.store s.numCommands 0

/-- `cli_unregister_command` -/
def cliUnregisterCommand (rom : Rom) (s : CliSt) (command : Nat) : Option (CliSt × Nat) :=
  if (rom command).lacks then some (s, 1)
  else (s.search command s.numCommands 0).bind fun found =>
    match found with
    | none => some (s, 1)
    | some i => (s.remove i).map fun s => (s, 0)

/-- The loop of `cli_register_commands` and `cli_unregister_commands`, which a call that fails
ends. -/
def forCommands (call : CliSt → Nat → Option (CliSt × Nat)) :
    Nat → CliSt → Nat → Option (CliSt × Nat)
  | 0, s, _ => some (s, 0)
  | n + 1, s, commands => (call s commands).bind fun r =>
    if r.2 ≠ 0 then some (r.1, 1) else forCommands call n r.1 (commands + sizeofCliCommand)

/-- `cli_register_commands` -/
def cliRegisterCommands (rom : Rom) (s : CliSt) (commands : Nat) (numCommands : Int) :
    Option (CliSt × Nat) :=
  forCommands (cliRegisterCommand rom) numCommands.toNat s commands

/-- `cli_unregister_commands` -/
def cliUnregisterCommands (rom : Rom) (s : CliSt) (commands : Nat) (numCommands : Int) :
    Option (CliSt × Nat) :=
  forCommands (cliUnregisterCommand rom) numCommands.toNat s commands

/-- The comparison of `lookup_command`. -/
def Name.found (c : Name) (name : List Byte) (len : Nat) : Bool :=
  if len ≠ 0 then strncmpEq c.chars (fun k => name.getD k 0) len else c.text = name

/-- The loop of `lookup_command` over the last `k` places of the array. -/
def lookupLoop (rom : Rom) (s : CliSt) (name : List Byte) (len : Nat) :
    Nat → Nat → Option (Option Nat)
  | 0, _ => some none
  | k + 1, n =>
    if n < s.numCommands then
      (s.command (maxCommands - (k + 1))).bind fun c =>
        match (rom c).name with
        | none => lookupLoop rom s name len k n
        | some text =>
          if text.found name len then some (some c) else lookupLoop rom s name len k (n + 1)
    else some none

/-- `lookup_command` on the table. -/
def lookupTable (rom : Rom) (s : CliSt) (name : List Byte) (len : Nat) : Option (Option Nat) :=
  lookupLoop rom s name len maxCommands 0

/-- A call. -/
inductive TableCall where
  | register (command : Nat)
  | unregister (command : Nat)
  | registerAll (commands : Nat) (numCommands : Int)
  | unregisterAll (commands : Nat) (numCommands : Int)
  | lookup (name : List Byte) (len : Nat)

/-- What it returns. -/
inductive TableReply where
  | ret (n : Nat)
  | found (command : Option Nat)

/-- A call that returns `0` or `1`. -/
def answered {σ : Type} (r : σ × Nat) : σ × TableReply := (r.1, .ret r.2)

def table (rom : Rom) : Machine CliSt TableCall TableReply := fun s call =>
  match call with
  | .register command => (cliRegisterCommand rom s command).map answered
  | .unregister command => (cliUnregisterCommand rom s command).map answered
  | .registerAll commands n => (cliRegisterCommands rom s commands n).map answered
  | .unregisterAll commands n => (cliUnregisterCommands rom s commands n).map answered
  | .lookup name len => (lookupTable rom s name len).map fun found => (s, .found found)

/-! ## The list -/

/-- A new command goes to the end, while there is room. -/
def register (rom : Rom) (l : List Nat) (command : Nat) : List Nat × Nat :=
  if (rom command).lacks ∨ maxCommands ≤ l.length then (l, 1)
  else if command ∈ l then (l, 0)
  else (l ++ [command], 0)

def unregister (l : List Nat) (command : Nat) : List Nat × Nat :=
  if command ∈ l then (l.erase command, 0) else (l, 1)

/-- Calls for neighbouring commands, until one fails. -/
def untilFailure (call : List Nat → Nat → List Nat × Nat) :
    Nat → List Nat → Nat → List Nat × Nat
  | 0, l, _ => (l, 0)
  | n + 1, l, commands =>
    let r := call l commands
    if r.2 ≠ 0 then (r.1, 1) else untilFailure call n r.1 (commands + sizeofCliCommand)

/-- The command has a name that is looked for. -/
def CliCommand.isFound (c : CliCommand) (name : List Byte) (len : Nat) : Bool :=
  c.name.any fun text => text.found name len

/-- One call on the list of the registered commands. -/
def listStep (rom : Rom) (l : List Nat) : TableCall → List Nat × TableReply
  | .register command => answered (register rom l command)
  | .unregister command => answered (unregister l command)
  | .registerAll commands n => answered (untilFailure (register rom) n.toNat l commands)
  | .unregisterAll commands n => answered (untilFailure unregister n.toNat l commands)
  | .lookup name len => (l, .found (l.find? fun c => (rom c).isFound name len))

/-- The array holds the list. -/
structure Lists (rom : Rom) (s : CliSt) (l : List Nat) : Prop where
  count : s.numCommands = l.length
  fits : l.length ≤ maxCommands
  stored : ∀ i, s.commands i = l.getD i 0
  nodup : l.Nodup
  complete : ∀ c ∈ l, (rom c).lacks = false

section
variable {rom : Rom} {s : CliSt} {l rest : List Nat} {c command i : Nat}

/-! ## Going through the array -/

theorem lists_zero (rom : Rom) : Lists rom .zero [] :=
  ⟨rfl, Nat.zero_le _, fun _ => rfl, .nil, nofun⟩

/-- The next command. -/
theorem Lists.next (h : Lists rom s l) (hrest : l.drop i = c :: rest) :
    i < l.length ∧ s.command i = some c ∧ l.drop (i + 1) = rest := by
  have hget : l[i]? = some c := by rw [← List.head?_drop, hrest, List.head?_cons]
  have hi := (List.getElem?_eq_some_iff.mp hget).1
  refine ⟨hi, ?_, ?_⟩
  · rw [CliSt.command, if_pos (Nat.lt_of_lt_of_le hi h.fits), h.stored,
      List.getD_eq_getElem?_getD, hget, Option.getD_some]
  · rw [← List.tail_drop, hrest, List.tail_cons]

theorem Lists.search_drop (h : Lists rom s l) (command : Nat) (hrest : l.drop i = rest) :
    s.search command rest.length i = some ((rest.idxOf? command).map (· + i)) := by
  induction rest generalizing i with
  | nil => rfl
  | cons c rest ih =>
    obtain ⟨-, hcommand, hdrop⟩ := h.next hrest
    rw [List.length_cons, CliSt.search, hcommand, Option.bind_some, List.idxOf?_cons]
    by_cases heq : c = command
    · rw [if_pos heq, if_pos (beq_iff_eq.mpr heq), Option.map_some, Nat.zero_add]
    · have hne : ¬(c == command) = true := fun hbeq => heq (beq_iff_eq.mp hbeq)
      rw [if_neg heq, if_neg hne, ih hdrop, Option.map_map]
      congr 2
      funext k
      exact (Nat.succ_add_eq_add_succ k i).symm

theorem Lists.search (h : Lists rom s l) (command : Nat) :
    s.search command s.numCommands 0 = some (l.idxOf? command) := by
  rw [h.count, h.search_drop command (List.drop_zero (l := l))]
  exact congrArg some Option.map_id'

theorem Lists.lookup_drop (h : Lists rom s l) (name : List Byte) (len : Nat)
    (hrest : l.drop i = rest) : lookupLoop rom s name len (maxCommands - i) i =
      some (rest.find? fun c => (rom c).isFound name len) := by
  induction rest generalizing i with
  | nil =>
    have hend : ¬i < s.numCommands := by
      rw [h.count]
      exact Nat.not_lt.mpr (List.drop_eq_nil_iff.mp hrest)
    cases maxCommands - i with
    | zero => rfl
    | succ k => exact if_neg hend
  | cons c rest ih =>
    obtain ⟨hi, hcommand, hdrop⟩ := h.next hrest
    have hfits := h.fits
    obtain ⟨k, hk⟩ : ∃ k, maxCommands - i = k + 1 := ⟨maxCommands - (i + 1), by omega⟩
    have hplace : maxCommands - (k + 1) = i := by omega
    have hnext : k = maxCommands - (i + 1) := by omega
    have hmem : c ∈ l := List.mem_of_mem_drop (hrest ▸ List.mem_cons_self)
    obtain ⟨text, hname⟩ : ∃ text, (rom c).name = some text := by
      have hc := h.complete c hmem
      cases hname : (rom c).name with
      | none => simp [CliCommand.lacks, hname] at hc
      | some text => exact ⟨text, rfl⟩
    have hfound : (rom c).isFound name len = text.found name len := by
      rw [CliCommand.isFound, hname, Option.any_some]
    rw [hk, lookupLoop, if_pos (h.count ▸ hi), hplace, hcommand, Option.bind_some]
    simp only [hname]
    cases htext : text.found name len with
    | true =>
      rw [if_pos rfl, List.find?_cons_of_pos (by rw [hfound, htext])]
    | false =>
      rw [if_neg Bool.false_ne_true, List.find?_cons_of_neg (by rw [hfound, htext]; decide),
        hnext, ih hdrop]

theorem Lists.lookup (h : Lists rom s l) (name : List Byte) (len : Nat) :
    lookupTable rom s name len = some (l.find? fun c => (rom c).isFound name len) :=
  h.lookup_drop name len List.drop_zero

/-! ## The calls -/

/-- A command behind the last one. -/
theorem Lists.append (h : Lists rom s l) (hlen : l.length < maxCommands) (hmem : command ∉ l)
    (hcomplete : (rom command).lacks = false) :
    Lists rom ⟨Function.update s.commands s.numCommands command, s.numCommands + 1⟩
      (l ++ [command]) where
  count := by rw [List.length_append, List.length_singleton, h.count]
  fits := by
    rw [List.length_append, List.length_singleton]
    exact hlen
  stored i := by
    change Function.update s.commands s.numCommands command i = _
    rw [Function.update_apply, h.count, h.stored]
    rcases Nat.lt_trichotomy i l.length with hlt | rfl | hgt
    · rw [if_neg hlt.ne, List.getD_append _ _ _ _ hlt]
    · rw [if_pos rfl, List.getD_append_right _ _ _ _ (Nat.le_refl _), Nat.sub_self]
      rfl
    · have hbeyond : (l ++ [command]).length ≤ i := by
        rw [List.length_append, List.length_singleton]
        exact hgt
      rw [if_neg hgt.ne', List.getD_eq_default _ _ hgt.le, List.getD_eq_default _ _ hbeyond]
  nodup := List.nodup_append.mpr ⟨h.nodup, List.nodup_singleton _, fun a ha b hb heq =>
    hmem (List.mem_singleton.mp hb ▸ heq ▸ ha)⟩
  complete c hc := by
    rcases List.mem_append.mp hc with hc | hc
    · exact h.complete c hc
    · rw [List.mem_singleton.mp hc]
      exact hcomplete

theorem Lists.registers (h : Lists rom s l) (command : Nat) :
    ∃ s', cliRegisterCommand rom s command = some (s', (register rom l command).2) ∧
      Lists rom s' (register rom l command).1 := by
  unfold cliRegisterCommand register
  by_cases hlacks : (rom command).lacks = true
  · rw [if_pos hlacks, if_pos (Or.inl hlacks)]
    exact ⟨s, rfl, h⟩
  rw [if_neg hlacks]
  by_cases hroom : s.numCommands < maxCommands
  · have hlen : l.length < maxCommands := h.count ▸ hroom
    have hopen : ¬((rom command).lacks = true ∨ maxCommands ≤ l.length) :=
      not_or.mpr ⟨hlacks, Nat.not_le.mpr hlen⟩
    rw [if_pos hroom, if_neg hopen, h.search, Option.bind_some]
    by_cases hmem : command ∈ l
    · rw [if_pos (List.isSome_idxOf?.mpr hmem), if_pos hmem]
      exact ⟨s, rfl, h⟩
    · rw [if_neg fun hsome => hmem (List.isSome_idxOf?.mp hsome), if_neg hmem, CliSt.store,
        if_pos hroom]
      exact ⟨_, rfl, h.append hlen hmem (Bool.eq_false_iff.mpr hlacks)⟩
  · have hfull : maxCommands ≤ l.length := h.count ▸ Nat.not_lt.mp hroom
    rw [if_neg hroom, if_pos (Or.inr hfull)]
    exact ⟨s, rfl, h⟩

theorem getD_eraseIdx (l : List Nat) (i k : Nat) :
    (l.eraseIdx i).getD k 0 = if k < i then l.getD k 0 else l.getD (k + 1) 0 := by
  simp only [List.getD_eq_getElem?_getD, List.getElem?_eraseIdx]
  split <;> rfl

/-- The commands behind the place that is removed move down, and the last place is cleared. -/
theorem Lists.remove_eq (h : Lists rom s l) (hi : i < l.length) :
    s.remove i = some ⟨Function.update
      (fun k => if i ≤ k ∧ k < l.length - 1 then l.getD (k + 1) 0 else l.getD k 0)
      (l.length - 1) 0, l.length - 1⟩ := by
  have hfits := h.fits
  have hstored : s.commands = fun k => l.getD k 0 := funext h.stored
  have hlast : l.length - 1 < maxCommands := by omega
  unfold CliSt.remove
  simp only [h.count]
  by_cases hmove : 0 < l.length - 1 - i
  · have hinside : i + 1 + (l.length - 1 - i) ≤ maxCommands := by omega
    have hend : i + (l.length - 1 - i) = l.length - 1 := by omega
    rw [if_pos hmove, CliSt.moveDown, if_pos hinside, Option.bind_some, CliSt.store, if_pos hlast]
    simp only [hend, hstored]
  · have hnone : ∀ k, ¬(i ≤ k ∧ k < l.length - 1) := fun k => by omega
    rw [if_neg hmove, Option.bind_some, CliSt.store, if_pos hlast]
    simp only [hnone, if_false, hstored]

theorem Lists.remove (h : Lists rom s l) (hi : i < l.length) :
    ∃ s', s.remove i = some s' ∧ Lists rom s' (l.eraseIdx i) := by
  have hlen : (l.eraseIdx i).length = l.length - 1 := List.length_eraseIdx_of_lt hi
  refine ⟨_, h.remove_eq hi, hlen.symm, ?_, fun k => ?_, ?_, ?_⟩
  · have hfits := h.fits
    omega
  · have hbeyond : ∀ k, l.length ≤ k → l.getD k 0 = 0 := fun k hk =>
      List.getD_eq_default _ _ hk
    simp only [getD_eraseIdx, Function.update_apply]
    by_cases hlast : k = l.length - 1
    · rw [if_pos hlast, if_neg (by omega), hbeyond (k + 1) (by omega)]
    · rw [if_neg hlast]
      by_cases hk : k < i
      · rw [if_pos hk, if_neg (by omega)]
      · by_cases hinside : k < l.length - 1
        · rw [if_neg hk, if_pos ⟨Nat.not_lt.mp hk, hinside⟩]
        · rw [if_neg hk, if_neg (by omega), hbeyond k (by omega), hbeyond (k + 1) (by omega)]
  · exact h.nodup.sublist (List.eraseIdx_sublist l i)
  · exact fun c hc => h.complete c (List.mem_of_mem_eraseIdx hc)

theorem Lists.unregisters (h : Lists rom s l) (command : Nat) :
    ∃ s', cliUnregisterCommand rom s command = some (s', (unregister l command).2) ∧
      Lists rom s' (unregister l command).1 := by
  unfold cliUnregisterCommand unregister
  by_cases hmem : command ∈ l
  · obtain ⟨i, hidx⟩ := Option.isSome_iff_exists.mp (List.isSome_idxOf?.mpr hmem)
    have herase : l.erase command = l.eraseIdx i := by
      rw [List.erase_eq_eraseIdx, hidx]
    have hi : i < l.length := (List.idxOf?_eq_some_iff.mp hidx).1
    obtain ⟨s', hremove, hs'⟩ := h.remove hi
    rw [if_neg (by rw [h.complete command hmem]; decide), if_pos hmem, h.search, hidx, herase]
    refine ⟨s', ?_, hs'⟩
    simp only [Option.bind_some, hremove, Option.map_some]
  · have hidx : l.idxOf? command = none := List.idxOf?_eq_none_iff.mpr hmem
    rw [if_neg hmem, h.search, hidx, Option.bind_some, ite_self]
    exact ⟨s, rfl, h⟩

theorem forCommands_lists {call : CliSt → Nat → Option (CliSt × Nat)}
    {abs : List Nat → Nat → List Nat × Nat}
    (hcall : ∀ s l command, Lists rom s l →
      ∃ s', call s command = some (s', (abs l command).2) ∧ Lists rom s' (abs l command).1)
    (n : Nat) (h : Lists rom s l) (commands : Nat) :
    ∃ s', forCommands call n s commands = some (s', (untilFailure abs n l commands).2) ∧
      Lists rom s' (untilFailure abs n l commands).1 := by
  induction n generalizing s l commands with
  | zero => exact ⟨s, rfl, h⟩
  | succ n ih =>
    obtain ⟨s', hrun, hs'⟩ := hcall s l commands h
    rw [forCommands, hrun, Option.bind_some, untilFailure]
    by_cases hret : (abs l commands).2 ≠ 0
    · rw [if_pos hret, if_pos hret]
      exact ⟨s', rfl, hs'⟩
    · rw [if_neg hret, if_neg hret]
      exact ih hs' _

theorem Lists.step (h : Lists rom s l) (call : TableCall) :
    ∃ s', table rom s call = some (s', (listStep rom l call).2) ∧
      Lists rom s' (listStep rom l call).1 := by
  cases call with
  | register command =>
    obtain ⟨s', hrun, hs'⟩ := h.registers command
    exact ⟨s', congrArg (Option.map answered) hrun, hs'⟩
  | unregister command =>
    obtain ⟨s', hrun, hs'⟩ := h.unregisters command
    exact ⟨s', congrArg (Option.map answered) hrun, hs'⟩
  | registerAll commands n =>
    obtain ⟨s', hrun, hs'⟩ :=
      forCommands_lists (fun _ _ command h => h.registers command) n.toNat h commands
    exact ⟨s', congrArg (Option.map answered) hrun, hs'⟩
  | unregisterAll commands n =>
    obtain ⟨s', hrun, hs'⟩ :=
      forCommands_lists (fun _ _ command h => h.unregisters command) n.toNat h commands
    exact ⟨s', congrArg (Option.map answered) hrun, hs'⟩
  | lookup name len => exact ⟨s, congrArg (Option.map _) (h.lookup name len), h⟩

/-! ## The names -/

/-- Every registered command has a name. -/
theorem Lists.names (h : Lists rom s l) :
    ∃ names : List Name, l.map (fun c => (rom c).name) = names.map some := by
  refine ⟨l.filterMap fun c => (rom c).name, ?_⟩
  rw [List.map_filterMap_some_eq_filter_map_isSome]
  refine (List.filter_eq_self.mpr fun name hname => ?_).symm
  obtain ⟨c, hc, rfl⟩ := List.mem_map.mp hname
  have hcomplete := h.complete c hc
  rw [CliCommand.lacks, Bool.or_eq_false_iff, Option.isNone_eq_false_iff] at hcomplete
  exact hcomplete.1

/-- A command is found by its name in the list of the names. -/
theorem lookupCommand_names {names : List Name}
    (h : l.map (fun c => (rom c).name) = names.map some) (name : List Byte) (len : Nat) :
    ((lookupCommand names name len).bind fun i => l[i]?) =
      l.find? fun c => (rom c).isFound name len := by
  change ((names.findIdx? fun text => text.found name len).bind fun i => l[i]?) = _
  induction l generalizing names with
  | nil =>
    rw [List.map_nil] at h
    rw [List.map_eq_nil_iff.mp h.symm]
    rfl
  | cons c l ih =>
    obtain ⟨text, names', rfl, htext, hnames⟩ := List.map_eq_cons_iff.mp h.symm
    have hname : (rom c).name = some text := htext.symm
    have hfound : (rom c).isFound name len = text.found name len := by
      rw [CliCommand.isFound, hname, Option.any_some]
    rw [List.findIdx?_cons]
    cases hval : text.found name len with
    | true =>
      rw [if_pos rfl, List.find?_cons_of_pos (by rw [hfound, hval])]
      rfl
    | false =>
      rw [if_neg Bool.false_ne_true, List.find?_cons_of_neg (by rw [hfound, hval]; decide),
        ← ih hnames.symm, Option.bind_map]
      rfl

/-- After any calls the replies are those of the list of the registered commands, which the array
holds, no command twice; and `lookup_command` finds a command where its name is found in the list of
their names. -/
theorem commands_run (rom : Rom) (calls : List TableCall) :
    ∃ s l replies, Machine.run (table rom) .zero calls = some (s, replies) ∧
      Machine.run (fun l call => some (listStep rom l call)) [] calls = some (l, replies) ∧
      Lists rom s l ∧ ∃ names : List Name, l.map (fun c => (rom c).name) = names.map some ∧
        ∀ name len, lookupTable rom s name len =
          some ((lookupCommand names name len).bind fun i => l[i]?) := by
  have hstep : ∀ s l call, Lists rom s l → True →
      ∃ s', table rom s call = some (s', (listStep rom l call).2) ∧
        Lists rom s' (listStep rom l call).1 := fun _ _ call h _ => h.step call
  obtain ⟨s, l, replies, hrun, habs, h⟩ :=
    Machine.run_simulates hstep (lists_zero rom) (Machine.legal_true _ calls)
  obtain ⟨names, hnames⟩ := h.names
  refine ⟨s, l, replies, hrun, habs, h, names, hnames, fun name len => ?_⟩
  rw [h.lookup, lookupCommand_names hnames]

end

end TuyaSdk.Cli
