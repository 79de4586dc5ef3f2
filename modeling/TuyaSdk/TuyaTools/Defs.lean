import TuyaSdk.Lib.Bytes
import TuyaSdk.Lib.Loop

/-!
# Conversions between numbers, digits and texts

`tuya_tools.c`: numbers from and to decimal digits, bytes from and to hexadecimal text, and the
comparison without regard to case. An array is a memory from its start on, and an array that a
function writes is what it leaves of it. The parameters are the arguments in their C types'
ranges; `none` is a loop that does not end.
-/

namespace TuyaSdk.TuyaTools
open TuyaSdk.Lib

/-! ## Hexadecimal text -/

/-- `tuya_asc2hex`. A character above 127 is negative, and no digit either way. -/
def tuyaAsc2hex (asccode : Byte) : Byte :=
  if 0x30 ≤ asccode ∧ asccode ≤ 0x39 then asccode - 0x30
  else if 0x61 ≤ asccode ∧ asccode ≤ 0x66 then asccode - 0x61 + 10
  else if 0x41 ≤ asccode ∧ asccode ≤ 0x46 then asccode - 0x41 + 10
  else 0

/-- The byte of the characters at `2 * k`. -/
def ascsByte (ascs : Mem) (k : Nat) : Byte :=
  tuyaAsc2hex (ascs (2 * k)) <<< 4 + tuyaAsc2hex (ascs (2 * k + 1))

/-- `tuya_ascs2hex`: what is in `hex` behind it. The loop counts in characters, two each time. -/
def tuyaAscs2hex (hex ascs : Mem) (srclen : Nat) : Mem :=
  let lenstr := srclen - srclen % 2
  if lenstr = 0 then hex
  else (List.range (lenstr / 2)).foldl (fun hex k => write8 hex k (ascsByte ascs k)) hex

/-- `ddh` or `ddl` for half a byte. -/
def hexChar (half : Nat) : Byte :=
  let dd := 48 + half
  BitVec.ofNat 8 (if dd > 57 then dd + 7 else dd)

/-- `tuya_hex2str`: what is in `str` behind it. -/
def tuyaHex2str (str hex : Mem) (hexlen : Nat) : Mem :=
  let str := (List.range hexlen).foldl (fun str i =>
    write8 (write8 str (i * 2) (hexChar ((hex i).toNat / 16)))
      (i * 2 + 1) (hexChar ((hex i).toNat % 16))) str
  write8 str (hexlen * 2) 0

/-! ## Decimal digits -/

/-- `'0' ≤ c && c ≤ '9'` -/
def IsDigit (c : Byte) : Prop := 0x30 ≤ c ∧ c ≤ 0x39

instance (c : Byte) : Decidable (IsDigit c) := inferInstanceAs (Decidable (_ ∧ _))

/-- The loop of `tuya_str2num` from `str[i]` on, with `left` characters left. -/
def str2numLoop (str : Mem) : Nat → Nat → Nat → Option Nat
  | 0, _, value => some value
  | left + 1, i, value =>
    if IsDigit (str i) then str2numLoop str left (i + 1) (u32 (value * 10 + ((str i).toNat - 0x30)))
    else none

/-- `tuya_str2num`: what it returns, and what is in `number` behind it. -/
def tuyaStr2num (number : Nat) (str : Mem) (strlen : BitVec 8) : Bool × Nat :=
  match str2numLoop str strlen.toNat 0 0 with
  | none => (false, number)
  | some value => (true, value)

/-- The variables of the loop of `tuya_intArray2int`. -/
structure SumVars where
  num : Nat
  i : BitVec 8
  deriving DecidableEq, Repr

/-- One pass of it. The bound is computed in 32 bits, and the counter has 8. -/
def sumPass (intArray : Mem) (bound : BitVec 32) (v : SumVars) : Pass SumVars Nat :=
  if v.i.toNat < bound.toNat then
    .again ⟨u32 (v.num * 10 + (intArray v.i.toNat).toNat), v.i + 1⟩
  else .exit v.num

/-- The bound and the first variables of the loop. -/
def sumBound (index : BitVec 32) (len : BitVec 8) : BitVec 32 := index + len.setWidth 32

def sumStart (index : BitVec 32) : SumVars := ⟨0, index.setWidth 8⟩

/-- `tuya_intArray2int`, in at most `passes` passes of its loop. -/
def tuyaIntArray2int (intArray : Mem) (index : BitVec 32) (len : BitVec 8) (passes : Nat) :
    Option Nat :=
  if index.toNat ≥ len.toNat then some (2 ^ 32 - 1)
  else Loop.run (sumPass intArray (sumBound index len)) passes (sumStart index)

/-- The entries that it reads in these passes. -/
def intArray2intReads (intArray : Mem) (index : BitVec 32) (len : BitVec 8) (passes : Nat) :
    List Nat :=
  if index.toNat ≥ len.toNat then []
  else (Loop.visited (sumPass intArray (sumBound index len)) passes (sumStart index)).map
    fun v => v.i.toNat

/-- `tuya_buff_reverse`: what is in `buf` behind it. -/
def tuyaBuffReverse (buf : Mem) (len : Nat) : Mem :=
  (List.range (len / 2)).foldl
    (fun buf i => write8 (write8 buf i (buf (len - 1 - i))) (len - 1 - i) (buf i)) buf

/-- One pass of the loop that counts the digits, over `tmp` and `i`. -/
def countPass (v : Nat × BitVec 8) : Pass (Nat × BitVec 8) (BitVec 8) :=
  if v.1 / 10 ≠ 0 then .again (v.1 / 10, v.2 + 1) else .exit (v.2 + 1)

/-- The variables of the loop that stores the digits. -/
structure DigitVars where
  tmp : Nat
  i : BitVec 8
  intArray : Mem

/-- One pass of it. -/
def digitPass (v : DigitVars) : Pass DigitVars (BitVec 8 × Mem) :=
  if v.tmp ≠ 0 then
    .again ⟨v.tmp / 10, v.i + 1, write8 v.intArray v.i.toNat (BitVec.ofNat 8 (v.tmp % 10))⟩
  else .exit (v.i, v.intArray)

/-- `tuya_int2intArray`: what it returns, and what is in `intArray` behind it. A number of 32 bits
takes at most ten passes of each loop, and one to leave it. -/
def tuyaInt2intArray (num : BitVec 32) (intArray : Mem) (len : BitVec 8) : Option (Nat × Mem) :=
  match Loop.run countPass 11 (num.toNat, 0) with
  | none => none
  | some i =>
    if len < i then some (0, intArray)
    else
      match Loop.run digitPass 11 ⟨num.toNat, 0, intArray⟩ with
      | none => none
      | some (i, intArray) => some (i.toNat, tuyaBuffReverse intArray i.toNat)

/-! ## Comparison -/

/-- `__TOLOWER` -/
def toLower (c : Byte) : Int :=
  if 0x41 ≤ c ∧ c ≤ 0x5A then (c.toNat : Int) - 0x41 + 0x61 else c.toNat

/-- The variables of the loop of `tuya_strncasecmp`, and the addresses that it has read. -/
structure CompareVars where
  p1 : Nat
  p2 : Nat
  cnt : Nat
  reads : List (Nat × Nat)
  deriving DecidableEq, Repr

/-- One pass of it. -/
def comparePass (mem : Mem) (n : Nat) (v : CompareVars) :
    Pass CompareVars (Int × List (Nat × Nat)) :=
  let result := toLower (mem v.p1) - toLower (mem v.p2)
  let reads := v.reads ++ [(v.p1, v.p2)]
  if result ≠ 0 then .exit (result, reads)
  else if v.cnt + 1 ≥ n then .exit (result, reads)
  else if mem v.p1 = 0 then .exit (-1, reads)
  else if mem v.p2 = 0 then .exit (1, reads)
  else .again ⟨v.p1 + 1, v.p2 + 1, v.cnt + 1, reads⟩

/-- `tuya_strncasecmp`, with the addresses that it reads of the two strings. The counter ends its
loop after at most `n` passes, or after one. -/
def tuyaStrncasecmp (mem : Mem) (s1 s2 n : Nat) : Option (Int × List (Nat × Nat)) :=
  if s1 = s2 then some (0, []) else Loop.run (comparePass mem n) (n + 1) ⟨s1, s2, 0, []⟩

end TuyaSdk.TuyaTools
