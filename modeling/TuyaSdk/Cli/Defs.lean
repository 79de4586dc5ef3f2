import TuyaSdk.Lib.Bytes
import TuyaSdk.Lib.Loop

/-!
# The command line (`wlan_cli.c`)

`get_input` puts what the serial line delivers into `inbuf` at `bp`; a tab completes the name of
a command. `handle_input` cuts the finished line into arguments in place and calls the command.

Positions are counted from the start of `inbuf`; the memory goes on behind it. A command that is
registered has a name, so that the branches for one without are never taken.
-/

namespace TuyaSdk.Cli

open TuyaSdk.Lib

/-- `INBUF_SIZE` -/
def inbufSize : Nat := 128

/-- The entries of `argv`. -/
def argvSize : Nat := 20

def space : Byte := 0x20
def quote : Byte := 0x22
def dot : Byte := 0x2E
def backslash : Byte := 0x5C
def tab : Byte := 0x09

/-- `RET_CHAR` -/
def retChar : Byte := 0x0A

/-- `END_CHAR` -/
def endChar : Byte := 0x0D

/-- A string without its end. -/
structure Name where
  text : List Byte
  noNul : 0 ∉ text
  fits : text.length < 2 ^ 32

/-- The memory of a string. -/
def Name.chars (s : Name) : Nat → Byte := fun k => s.text.getD k 0

/-- `os_strncmp` finds no difference. -/
def strncmpEq (a b : Nat → Byte) : Nat → Bool
  | 0 => true
  | n + 1 => a 0 == b 0 &&
    (a 0 == 0 || strncmpEq (fun k => a (k + 1)) (fun k => b (k + 1)) n)

/-! ## Input -/

/-- `pCli->inbuf` and `pCli->bp`. -/
structure Line where
  mem : Mem
  bp : Nat

/-- What a call or a part of it leaves, and the places it writes: where and how many. -/
structure Written where
  line : Line
  writes : List (Nat × Nat)

/-- A byte is stored. -/
def Line.put (s : Line) (pos : Nat) (b : Byte) : Line := { s with mem := write8 s.mem pos b }

/-- The registered names that agree with the line up to `bp`. -/
def matching (commands : List Name) (s : Line) : List Name :=
  commands.filter fun c => strncmpEq s.mem c.chars s.bp

/-- `tab_complete`; `n` is negative as a large word. -/
def tabComplete (commands : List Name) (s : Line) : Written :=
  match matching commands s with
  | [fm] =>
    let n := sub32 fm.text.length s.bp
    let stop := u32 (s.bp + n)
    if stop < inbufSize then
      let copied : Mem := fun x =>
        if s.bp ≤ x ∧ x < s.bp + n then fm.chars x else s.mem x
      ⟨{ mem := write8 (write8 copied stop space) (stop + 1) 0, bp := stop + 1 },
        [(s.bp, n), (stop, 1), (stop + 1, 1)]⟩
    else ⟨s, []⟩
  | _ => ⟨s, []⟩

/-- What `get_input` does with a byte, and what it returns then. -/
structure Received where
  ret : Option Nat
  line : Line
  writes : List (Nat × Nat)

/-- A pass of the loop of `get_input`. -/
def receive (commands : List Name) (s : Line) (b : Byte) : Received :=
  let pos := s.bp
  let s := s.put pos b
  if b = retChar then ⟨none, s, [(pos, 1)]⟩
  else if b = endChar then
    ⟨some 1, { s.put pos 0 with bp := 0 }, [(pos, 1), (pos, 1)]⟩
  else if b = 0x08 ∨ b = 0x7F then
    ⟨none, if s.bp > 0 then { s with bp := s.bp - 1 } else s, [(pos, 1)]⟩
  else if b = tab then
    let done := tabComplete commands (s.put pos 0)
    ⟨none, done.line, [(pos, 1), (pos, 1)] ++ done.writes⟩
  else if s.bp + 1 ≥ inbufSize then ⟨some 0, { s with bp := 0 }, [(pos, 1)]⟩
  else ⟨none, { s with bp := s.bp + 1 }, [(pos, 1)]⟩

/-- `get_input`, with the bytes that are there: what it returns, what it leaves, and the bytes
that it did not take. -/
def getInput (commands : List Name) : List Byte → Line → Nat × Written × List Byte
  | [], s => (0, ⟨s, []⟩, [])
  | b :: bs, s =>
    let r := receive commands s b
    match r.ret with
    | some ret => (ret, ⟨r.line, r.writes⟩, bs)
    | none =>
      let rest := getInput commands bs r.line
      (rest.1, ⟨rest.2.1.line, r.writes ++ rest.2.1.writes⟩, rest.2.2)

/-! ## Arguments -/

/-- At most `n` bytes from `a` on, up to a zero. -/
def cstrFuel (m : Mem) : Nat → Nat → List Byte
  | 0, _ => []
  | n + 1, a => if m a = 0 then [] else m a :: cstrFuel m n (a + 1)

/-- The string at `a` in `inbuf`. -/
def cstr (m : Mem) (a : Nat) : List Byte := cstrFuel m inbufSize a

/-- The variables of `handle_input`. The array goes on behind its end. -/
structure Tok where
  inbuf : Mem
  i : Nat
  inArg : Bool
  inQuote : Bool
  argc : Nat
  argv : Nat → Nat
  /-- The entries of `argv` that were stored. -/
  stores : List Nat

/-- The character before is a backslash of an argument. -/
def Tok.Escaped (s : Tok) : Prop :=
  0 < s.i ∧ s.inbuf (s.i - 1) = backslash ∧ s.inArg = true

instance (s : Tok) : Decidable s.Escaped := inferInstanceAs (Decidable (_ ∧ _ ∧ _))

/-- The rest of the line is moved over the backslash. -/
def Tok.unescape (s : Tok) : Tok :=
  { s with
    inbuf := memcpy s.inbuf (s.i - 1) s.i ((cstr s.inbuf s.i).length + 1)
    i := s.i - 1 }

/-- An argument begins. -/
def Tok.openArg (s : Tok) (start : Nat) : Tok :=
  { s with
    inArg := true
    argc := s.argc + 1
    argv := Function.update s.argv s.argc start
    stores := s.stores ++ [s.argc] }

/-- An argument ends. -/
def Tok.closeArg (s : Tok) : Tok :=
  { s with inArg := false, inQuote := false, inbuf := write8 s.inbuf s.i 0 }

/-- The case of a quote; `none` is the return of 2. -/
def Tok.onQuote (s : Tok) : Option Tok :=
  if s.Escaped then some s.unescape
  else if ¬s.inQuote ∧ s.inArg then some s
  else if s.inQuote ∧ ¬s.inArg then none
  else if ¬s.inQuote ∧ ¬s.inArg then some { s.openArg (s.i + 1) with inQuote := true }
  else some s.closeArg

/-- The case of a space. -/
def Tok.onSpace (s : Tok) : Tok :=
  if s.Escaped then s.unescape
  else if ¬s.inQuote ∧ s.inArg then s.closeArg
  else s

/-- The default case. -/
def Tok.onOther (s : Tok) : Tok := if ¬s.inArg then s.openArg s.i else s

/-- `++i < INBUF_SIZE` -/
def Tok.next (s : Tok) : Pass Tok (Bool × Tok) :=
  if s.i + 1 < inbufSize then .again { s with i := s.i + 1 }
  else .exit (false, { s with i := s.i + 1 })

/-- A pass of the loop of `handle_input`; `true` is the return of 2. -/
def handlePass (s : Tok) : Pass Tok (Bool × Tok) :=
  let c := s.inbuf s.i
  if c = 0 then .exit (s.inQuote, s)
  else if c = quote then
    match s.onQuote with
    | none => .exit (true, s)
    | some s => s.next
  else if c = space then s.onSpace.next
  else s.onOther.next

/-- The variables before the loop. -/
def tokStart (inbuf : Mem) : Tok := ⟨inbuf, 0, false, false, 0, fun _ => 0, []⟩

/-- `lookup_command`, with the number of the command that is found. -/
def lookupCommand (commands : List Name) (name : List Byte) (len : Nat) : Option Nat :=
  commands.findIdx? fun c =>
    if len ≠ 0 then strncmpEq c.chars (fun k => name.getD k 0) len else c.text = name

/-- What `handle_input` returns and does: the entries of `argv` it stores, what it looks up, and
the command and arguments of its call. -/
structure Outcome where
  ret : Nat
  stores : List Nat
  lookup : Option (List Byte × Nat)
  called : Option (Nat × List (List Byte))
  deriving DecidableEq

/-- The arguments behind the loop. -/
def Tok.args (s : Tok) : List (List Byte) :=
  (List.range s.argc).map fun k => cstr s.inbuf (s.argv k)

/-- `handle_input` behind its loop. -/
def finishInput (commands : List Name) (bad : Bool) (s : Tok) : Outcome :=
  if bad ∨ s.inQuote then ⟨2, s.stores, none, none⟩
  else if s.argc < 1 then ⟨0, s.stores, none, none⟩
  else
    let name := cstr s.inbuf (s.argv 0)
    let len := (name.findIdx? (· = dot)).getD 0
    match lookupCommand commands name len with
    | none => ⟨1, s.stores, some (name, len), none⟩
    | some command => ⟨0, s.stores, some (name, len), some (command, s.args)⟩

/-- `handle_input`, with at most `fuel` passes of its loop. -/
def handleInput (commands : List Name) (fuel : Nat) (inbuf : Mem) : Option Outcome :=
  (Loop.run handlePass fuel (tokStart inbuf)).map fun r => finishInput commands r.1 r.2

end TuyaSdk.Cli
