import TuyaSdk.Lib.Digits
import TuyaSdk.TuyaTools.Defs

/-!
# Decimal digits there and back

`tuya_int2intArray` counts the digits of a number in one loop and stores them in another, which
for zero does nothing (`decimalOk_iff`). `tuya_intArray2int` takes its second argument for the
number of entries from `index` on (`inArray_iff`), and `tuya_str2num` reduces the value without a
check (`parsesSoundly_iff`).
-/

namespace TuyaSdk.TuyaTools
open TuyaSdk.Lib

theorem writeBytes_nil (m : Mem) (a : Nat) : writeBytes m a [] = m := by
  funext x
  exact writeBytes_apply (by rw [List.length_nil]; omega)

/-- Storing the first byte, and the rest behind it. -/
theorem writeBytes_cons (m : Mem) (a : Nat) (b : Byte) (bs : List Byte) :
    writeBytes m a (b :: bs) = writeBytes (write8 m a b) (a + 1) bs := by
  funext x
  unfold writeBytes write8
  rw [List.length_cons]
  by_cases hx : x = a
  · rw [if_pos (by omega), if_neg (by omega), if_pos hx, hx, Nat.sub_self]
    rfl
  · by_cases hin : a ≤ x ∧ x < a + (bs.length + 1)
    · obtain ⟨k, rfl⟩ : ∃ k, x = a + 1 + k := ⟨x - (a + 1), by omega⟩
      rw [if_pos hin, if_pos (by omega), Nat.add_sub_cancel_left,
        show a + 1 + k - a = k + 1 by omega]
      rfl
    · rw [if_neg hin, if_neg (by omega), if_neg hx]

/-! ## Reversing -/

theorem reverse_passes (buf : Mem) (len k : Nat) (hk : k ≤ len / 2) (x : Nat) :
    (List.range k).foldl
        (fun buf i => write8 (write8 buf i (buf (len - 1 - i))) (len - 1 - i) (buf i)) buf x =
      if x < len ∧ (x < k ∨ len - 1 - x < k) then buf (len - 1 - x) else buf x := by
  induction k generalizing x with
  | zero => rw [if_neg (by omega)]; rfl
  | succ k ih =>
    rw [List.range_succ, List.foldl_append]
    generalize (List.range k).foldl
      (fun buf i => write8 (write8 buf i (buf (len - 1 - i))) (len - 1 - i) (buf i)) buf = b at ih ⊢
    have hfirst := ih (by omega) k
    have hlast := ih (by omega) (len - 1 - k)
    have hx := ih (by omega) x
    rw [if_neg (by omega)] at hfirst hlast
    change write8 (write8 b k (b (len - 1 - k))) (len - 1 - k) (b k) x = _
    unfold write8
    rw [hfirst, hlast, hx]
    by_cases hxl : x = len - 1 - k
    · rw [if_pos hxl, if_pos (by omega)]
      congr 1
      omega
    · rw [if_neg hxl]
      by_cases hxk : x = k
      · rw [if_pos hxk, if_pos (by omega), hxk]
      · rw [if_neg hxk]
        by_cases hin : x < len ∧ (x < k ∨ len - 1 - x < k)
        · rw [if_pos hin, if_pos (by omega)]
        · rw [if_neg hin, if_neg (by omega)]

theorem tuyaBuffReverse_apply (buf : Mem) (len x : Nat) :
    tuyaBuffReverse buf len x = if x < len then buf (len - 1 - x) else buf x := by
  rw [tuyaBuffReverse, reverse_passes buf len _ (Nat.le_refl _) x]
  by_cases hx : x < len
  · rw [if_pos hx]
    by_cases hin : x < len / 2 ∨ len - 1 - x < len / 2
    · rw [if_pos ⟨hx, hin⟩]
    · rw [if_neg (fun h => hin h.2)]
      congr 1
      omega
  · rw [if_neg hx, if_neg (fun h => hx h.1)]

/-! ## Counting and storing -/

theorem toNat_ofNat_add_one {i : Nat} : BitVec.ofNat 8 i + 1 = BitVec.ofNat 8 (i + 1) := by
  rw [BitVec.ofNat_add]
  rfl

/-- The counting loop from `i` on. -/
theorem countLoop {k n i : Nat} (hn : n < 10 ^ (k + 1)) :
    Loop.run countPass (k + 1) (n, BitVec.ofNat 8 i) =
      some (BitVec.ofNat 8 (i + (toDigits 10 n).length)) := by
  induction k generalizing n i with
  | zero =>
    have hdiv : n / 10 = 0 := Nat.div_eq_of_lt (by omega)
    have hpass : countPass (n, BitVec.ofNat 8 i) = .exit (BitVec.ofNat 8 (i + 1)) := by
      rw [countPass, if_neg (not_not.mpr hdiv), toNat_ofNat_add_one]
    rw [Loop.run_exit hpass, length_toDigits_of_lt (by decide) hdiv]
  | succ k ih =>
    by_cases hdiv : n / 10 = 0
    · have hpass : countPass (n, BitVec.ofNat 8 i) = .exit (BitVec.ofNat 8 (i + 1)) := by
        rw [countPass, if_neg (not_not.mpr hdiv), toNat_ofNat_add_one]
      rw [Loop.run_exit hpass, length_toDigits_of_lt (by decide) hdiv]
    · have hpass : countPass (n, BitVec.ofNat 8 i) = .again (n / 10, BitVec.ofNat 8 (i + 1)) := by
        rw [countPass, if_pos hdiv, toNat_ofNat_add_one]
      have hlt : n / 10 < 10 ^ (k + 1) := by
        rw [Nat.div_lt_iff_lt_mul (by decide), ← Nat.pow_succ]
        exact hn
      rw [Loop.run_again hpass, ih hlt, length_toDigits_div (by decide) hdiv]
      congr 2
      omega

/-- The digits of `n` as they are stored, the least significant one first. -/
def digitBytes (n : Nat) : List Byte := (Nat.digits 10 n).map (BitVec.ofNat 8)

theorem length_digitBytes (n : Nat) : (digitBytes n).length = (Nat.digits 10 n).length :=
  List.length_map _

theorem digitBytes_of_ne_zero {n : Nat} (hn : n ≠ 0) :
    digitBytes n = BitVec.ofNat 8 (n % 10) :: digitBytes (n / 10) := by
  rw [digitBytes, Nat.digits_def' (by decide) (Nat.pos_of_ne_zero hn)]
  rfl

/-- The storing loop from `i` on. -/
theorem digitLoop {k n i : Nat} {a : Mem} (hn : n < 10 ^ k) (hi : i + k < 256) :
    Loop.run digitPass (k + 1) ⟨n, BitVec.ofNat 8 i, a⟩ =
      some (BitVec.ofNat 8 (i + (digitBytes n).length), writeBytes a i (digitBytes n)) := by
  induction k generalizing n i a with
  | zero =>
    obtain rfl : n = 0 := by omega
    have hpass : digitPass ⟨0, BitVec.ofNat 8 i, a⟩ = .exit (BitVec.ofNat 8 i, a) :=
      if_neg (not_not.mpr rfl)
    have hnil : digitBytes 0 = [] := rfl
    rw [Loop.run_exit hpass, hnil, writeBytes_nil]
    rfl
  | succ k ih =>
    by_cases hzero : n = 0
    · have hpass : digitPass ⟨n, BitVec.ofNat 8 i, a⟩ = .exit (BitVec.ofNat 8 i, a) :=
        if_neg (not_not.mpr hzero)
      have hnil : digitBytes n = [] := by
        rw [hzero]
        rfl
      rw [Loop.run_exit hpass, hnil, writeBytes_nil]
      rfl
    · have hpass : digitPass ⟨n, BitVec.ofNat 8 i, a⟩ =
          .again ⟨n / 10, BitVec.ofNat 8 (i + 1), write8 a i (BitVec.ofNat 8 (n % 10))⟩ := by
        have hi : (BitVec.ofNat 8 i).toNat = i := by
          rw [BitVec.toNat_ofNat]
          exact Nat.mod_eq_of_lt (by omega)
        rw [digitPass, if_pos hzero, toNat_ofNat_add_one, hi]
      have hlt : n / 10 < 10 ^ k := by
        rw [Nat.div_lt_iff_lt_mul (by decide), ← Nat.pow_succ]
        exact hn
      rw [Loop.run_again hpass, ih hlt (by omega), digitBytes_of_ne_zero hzero,
        writeBytes_cons, List.length_cons]
      congr 3
      omega

theorem length_digitBytes_le (num : BitVec 32) : (digitBytes num.toNat).length ≤ 10 := by
  rw [length_digitBytes, Nat.digits_length_le_iff (by decide)]
  have := num.isLt
  omega

theorem toDigits_eq_digitBytes {n : Nat} (hn : n ≠ 0) :
    (toDigits 10 n).map (BitVec.ofNat 8) = (digitBytes n).reverse := by
  rw [toDigits_ne_zero hn, List.map_reverse]
  rfl

/-- The stored bytes hold the digits themselves. -/
theorem values_toDigits (n : Nat) :
    ((toDigits 10 n).map (BitVec.ofNat 8)).map BitVec.toNat = toDigits 10 n := by
  rw [List.map_map]
  refine (List.map_congr_left (g := id) ?_).trans (List.map_id _)
  intro d hd
  have hlt := lt_base_of_mem_toDigits (by decide) hd
  change (BitVec.ofNat 8 d).toNat = d
  rw [BitVec.toNat_ofNat]
  exact Nat.mod_eq_of_lt (by omega)

theorem length_toDigits_eq {n : Nat} (hn : n ≠ 0) :
    (toDigits 10 n).length = (digitBytes n).length := by
  rw [toDigits_ne_zero hn, List.length_reverse, length_digitBytes]

theorem length_toDigits_le (num : BitVec 32) : (toDigits 10 num.toNat).length ≤ 10 := by
  by_cases hzero : num.toNat = 0
  · rw [hzero]
    decide
  · rw [length_toDigits_eq hzero]
    exact length_digitBytes_le num

/-- What `tuya_int2intArray` returns and leaves. -/
theorem tuyaInt2intArray_eq (num : BitVec 32) (intArray : Mem) (len : BitVec 8) :
    tuyaInt2intArray num intArray len =
      if len.toNat < (toDigits 10 num.toNat).length then some (0, intArray)
      else some ((digitBytes num.toNat).length,
        tuyaBuffReverse (writeBytes intArray 0 (digitBytes num.toNat))
          (digitBytes num.toNat).length) := by
  have hnum : num.toNat < 10 ^ 10 := by
    have := num.isLt
    omega
  have hcount : Loop.run countPass 11 (num.toNat, 0) =
      some (BitVec.ofNat 8 (0 + (toDigits 10 num.toNat).length)) :=
    countLoop (k := 10) (i := 0) (Nat.lt_trans hnum (by decide))
  have hdigits : Loop.run digitPass 11 ⟨num.toNat, 0, intArray⟩ =
      some (BitVec.ofNat 8 (0 + (digitBytes num.toNat).length),
        writeBytes intArray 0 (digitBytes num.toNat)) :=
    digitLoop (k := 10) (i := 0) hnum (by decide)
  have hlen := length_toDigits_le num
  have hstored := length_digitBytes_le num
  rw [Nat.zero_add] at hcount hdigits
  have hcountNat : (BitVec.ofNat 8 (toDigits 10 num.toNat).length).toNat =
      (toDigits 10 num.toNat).length := by
    rw [BitVec.toNat_ofNat]
    exact Nat.mod_eq_of_lt (by omega)
  have hstoredNat : (BitVec.ofNat 8 (digitBytes num.toNat).length).toNat =
      (digitBytes num.toNat).length := by
    rw [BitVec.toNat_ofNat]
    exact Nat.mod_eq_of_lt (by omega)
  rw [tuyaInt2intArray, hcount]
  simp only [BitVec.lt_def, hcountNat]
  split
  next => rfl
  next =>
    rw [hdigits]
    simp only [hstoredNat]

/-- The digits lie in the array, the most significant first, and the rest of it is as before. -/
theorem readBytes_reversed (a : Mem) (bs : List Byte) :
    readBytes (tuyaBuffReverse (writeBytes a 0 bs) bs.length) 0 bs.length = bs.reverse := by
  apply List.ext_getElem
  · rw [length_readBytes, List.length_reverse]
  · intro i h h'
    have hi : i < bs.length := by rwa [length_readBytes] at h
    rw [getElem_readBytes h, Nat.zero_add, tuyaBuffReverse_apply, if_pos hi, writeBytes,
      if_pos (by omega), List.getElem_reverse, Nat.sub_zero,
      List.getD_eq_getElem _ _ (by omega)]

theorem reversed_apply (a : Mem) (bs : List Byte) {x : Nat} (hx : bs.length ≤ x) :
    tuyaBuffReverse (writeBytes a 0 bs) bs.length x = a x := by
  rw [tuyaBuffReverse_apply, if_neg (by omega), writeBytes_apply (Or.inr (by omega))]

/-! ## The number of an array of digits -/

/-- The loop of `tuya_intArray2int` from `i` on. -/
theorem sumLoop {a : Mem} {bound : BitVec 32} {k i num : Nat} (hb : bound.toNat < 256)
    (hi : i + k = bound.toNat) :
    Loop.run (sumPass a bound) (k + 1) ⟨num, BitVec.ofNat 8 i⟩ =
      some ((readBytes a i k).foldl (fun v d => u32 (v * 10 + d.toNat)) num) := by
  have hiNat : (BitVec.ofNat 8 i).toNat = i := by
    rw [BitVec.toNat_ofNat]
    exact Nat.mod_eq_of_lt (by omega)
  induction k generalizing i num with
  | zero =>
    have hpass : sumPass a bound ⟨num, BitVec.ofNat 8 i⟩ = .exit num := by
      rw [sumPass, if_neg]
      rw [hiNat]
      omega
    rw [Loop.run_exit hpass]
    rfl
  | succ k ih =>
    have hpass : sumPass a bound ⟨num, BitVec.ofNat 8 i⟩ =
        .again ⟨u32 (num * 10 + (a i).toNat), BitVec.ofNat 8 (i + 1)⟩ := by
      rw [sumPass, if_pos, hiNat, toNat_ofNat_add_one]
      rw [hiNat]
      omega
    have hnext : (BitVec.ofNat 8 (i + 1)).toNat = i + 1 := by
      rw [BitVec.toNat_ofNat]
      exact Nat.mod_eq_of_lt (by omega)
    rw [Loop.run_again hpass, ih (by omega) hnext, readBytes_succ]
    rfl

/-- The first `k` entries that it reads, from `i` on. -/
theorem sumVisited {a : Mem} {bound : BitVec 32} {k i num : Nat} (hi : i + k ≤ 256)
    (hb : i + k ≤ bound.toNat) :
    (Loop.visited (sumPass a bound) k ⟨num, BitVec.ofNat 8 i⟩).map (fun v => v.i.toNat) =
      List.range' i k := by
  induction k generalizing i num with
  | zero => rfl
  | succ k ih =>
    have hiNat : (BitVec.ofNat 8 i).toNat = i := by
      rw [BitVec.toNat_ofNat]
      exact Nat.mod_eq_of_lt (by omega)
    have hpass : sumPass a bound ⟨num, BitVec.ofNat 8 i⟩ =
        .again ⟨u32 (num * 10 + (a i).toNat), BitVec.ofNat 8 (i + 1)⟩ := by
      rw [sumPass, if_pos, hiNat, toNat_ofNat_add_one]
      rw [hiNat]
      omega
    rw [Loop.visited_again hpass, List.map_cons, ih (by omega) (by omega), hiNat,
      List.range'_succ]

theorem sumBound_toNat {index : BitVec 32} {len : BitVec 8} (h : index.toNat < len.toNat) :
    (sumBound index len).toNat = index.toNat + len.toNat := by
  have hlen := len.isLt
  rw [sumBound, BitVec.toNat_add, BitVec.toNat_setWidth]
  omega

theorem sumStart_eq (index : BitVec 32) :
    sumStart index = ⟨0, BitVec.ofNat 8 index.toNat⟩ := rfl

/-- From the first entry on, it is the number of the whole array, as far as 32 bits hold it. -/
theorem tuyaIntArray2int_zero {a : Mem} {len : BitVec 8} (hlen : 0 < len.toNat) :
    tuyaIntArray2int a 0 len (len.toNat + 1) =
      some (u32 (fromDigits 10 ((readBytes a 0 len.toNat).map BitVec.toNat))) := by
  have hlt : (0 : BitVec 32).toNat < len.toNat := hlen
  have hbound : (sumBound 0 len).toNat = len.toNat :=
    (sumBound_toNat hlt).trans (Nat.zero_add _)
  rw [tuyaIntArray2int, if_neg (Nat.not_le.mpr hlt), sumStart_eq]
  have h : Loop.run (sumPass a (sumBound 0 len)) (len.toNat + 1) ⟨0, BitVec.ofNat 8 0⟩ = _ :=
    sumLoop (hbound.trans_lt len.isLt) (hbound ▸ Nat.zero_add _)
  rw [u32, ← foldl_mod_fromDigits, List.foldl_map]
  exact h

/-! ## There and back -/

/-- The digits of `num` go into the array when it has room for them, and come out again as `num`;
else nothing is written. -/
def DecimalOk (num : BitVec 32) (a : Mem) (len : BitVec 8) : Prop :=
  if (toDigits 10 num.toNat).length ≤ len.toNat then
    ∃ n a', tuyaInt2intArray num a len = some (n, a') ∧ 1 ≤ n ∧
      readBytes a' 0 n = (toDigits 10 num.toNat).map (BitVec.ofNat 8) ∧
      (∀ x, n ≤ x → a' x = a x) ∧
      ∃ passes, tuyaIntArray2int a' 0 (BitVec.ofNat 8 n) passes = some num.toNat
  else tuyaInt2intArray num a len = some (0, a)

/-- Zero is counted as one digit and stored as none. -/
theorem not_decimalOk_of_zero {a : Mem} {len : BitVec 8} (hlen : 1 ≤ len.toNat) :
    ¬DecimalOk 0 a len := by
  have hroom : (toDigits 10 (0 : BitVec 32).toNat).length ≤ len.toNat := hlen
  unfold DecimalOk
  rw [if_pos hroom, tuyaInt2intArray_eq, if_neg (Nat.not_lt.mpr hroom)]
  rintro ⟨n, a', heq, hn, -⟩
  obtain ⟨rfl, -⟩ := Prod.mk.inj (Option.some.inj heq)
  exact absurd hn (by decide)

/-- The digits of every other number come back. -/
theorem decimalOk_of_ne_zero {num : BitVec 32} {a : Mem} {len : BitVec 8} (hzero : num ≠ 0) :
    DecimalOk num a len := by
  unfold DecimalOk
  rw [tuyaInt2intArray_eq]
  split
  next hroom =>
    have hne : num.toNat ≠ 0 := fun h => hzero (BitVec.eq_of_toNat_eq h)
    have hlen := length_toDigits_eq hne
    have hle := length_digitBytes_le num
    have hpos := length_toDigits_pos (b := 10) num.toNat
    have hread := readBytes_reversed a (digitBytes num.toNat)
    have hNat : (BitVec.ofNat 8 (digitBytes num.toNat).length).toNat =
        (digitBytes num.toNat).length := by
      rw [BitVec.toNat_ofNat]
      exact Nat.mod_eq_of_lt (by omega)
    rw [if_neg (Nat.not_lt.mpr hroom)]
    refine ⟨_, _, rfl, by omega, ?_, fun x hx => reversed_apply a _ hx,
      (digitBytes num.toNat).length + 1, ?_⟩
    · rw [hread, toDigits_eq_digitBytes hne]
    · have h := @tuyaIntArray2int_zero
        (tuyaBuffReverse (writeBytes a 0 (digitBytes num.toNat)) (digitBytes num.toNat).length)
        (BitVec.ofNat 8 (digitBytes num.toNat).length) (by omega)
      rw [hNat, hread, ← toDigits_eq_digitBytes hne] at h
      rw [h, values_toDigits, fromDigits_toDigits, u32_of_lt num.isLt]
  next hroom => rw [if_pos (Nat.not_le.mp hroom)]

/-- The digits come back, but for zero where there is room for it. -/
theorem decimalOk_iff (num : BitVec 32) (a : Mem) (len : BitVec 8) :
    DecimalOk num a len ↔ num ≠ 0 ∨ len = 0 := by
  constructor
  · intro h
    by_contra hnot
    obtain ⟨hzero, hlen⟩ := not_or.mp hnot
    obtain rfl := not_not.mp hzero
    have hpos : len.toNat ≠ 0 := fun h => hlen (BitVec.eq_of_toNat_eq h)
    exact not_decimalOk_of_zero (by omega) h
  · rintro (hzero | rfl)
    · exact decimalOk_of_ne_zero hzero
    · by_cases hzero : num = 0
      · subst hzero
        rfl
      · exact decimalOk_of_ne_zero hzero

/-- Room for the digit that is counted. -/
theorem not_decimalOk_zero : ¬DecimalOk 0 (fun _ => 0) 1 := not_decimalOk_of_zero (by decide)

/-! ## The bounds of the array -/

/-- `tuya_intArray2int` comes to an end, and reads only the entries from `index` to `len`. -/
def InArray (a : Mem) (index : BitVec 32) (len : BitVec 8) : Prop :=
  (∃ passes num, tuyaIntArray2int a index len passes = some num) ∧
    ∀ passes, ∀ k ∈ intArray2intReads a index len passes, index.toNat ≤ k ∧ k < len.toNat

/-- A bound of 256 or more is never reached by a counter of 8 bits. -/
theorem tuyaIntArray2int_endless {a : Mem} {index : BitVec 32} {len : BitVec 8}
    (hlt : index.toNat < len.toNat) (hsum : 256 ≤ index.toNat + len.toNat) (passes : Nat) :
    tuyaIntArray2int a index len passes = none := by
  have hbound := sumBound_toNat hlt
  rw [tuyaIntArray2int, if_neg (Nat.not_le.mpr hlt)]
  generalize sumStart index = v
  induction passes generalizing v with
  | zero => rfl
  | succ passes ih =>
    have hi := v.i.isLt
    have hpass : sumPass a (sumBound index len) v =
        .again ⟨u32 (v.num * 10 + (a v.i.toNat).toNat), v.i + 1⟩ := if_pos (by omega)
    rw [Loop.run_again hpass]
    exact ih _

/-- Each index but the first reads behind the end of the array. -/
theorem not_inArray_of_pos {a : Mem} {index : BitVec 32} {len : BitVec 8}
    (hpos : 1 ≤ index.toNat) (hlt : index.toNat < len.toNat) : ¬InArray a index len := by
  rintro ⟨-, hreads⟩
  have hbound := sumBound_toNat hlt
  have hlen := len.isLt
  have hvisited : (Loop.visited (sumPass a (sumBound index len)) (len.toNat - index.toNat + 1)
      ⟨0, BitVec.ofNat 8 index.toNat⟩).map (fun v => v.i.toNat) =
        List.range' index.toNat (len.toNat - index.toNat + 1) :=
    sumVisited (by omega) (by omega)
  have hmem : len.toNat ∈ intArray2intReads a index len (len.toNat - index.toNat + 1) := by
    rw [intArray2intReads, if_neg (Nat.not_le.mpr hlt), sumStart_eq, hvisited, List.mem_range'_1]
    omega
  exact Nat.lt_irrefl _ (hreads _ _ hmem).2

/-- The bound leaves out that `len` is the length of the whole array. -/
theorem inArray_iff (a : Mem) (index : BitVec 32) (len : BitVec 8) :
    InArray a index len ↔ index = 0 ∨ len.toNat ≤ index.toNat := by
  by_cases hlt : index.toNat < len.toNat
  · have hbound := sumBound_toNat hlt
    constructor
    · intro h
      by_contra hnot
      have hne : index.toNat ≠ 0 := fun h => hnot (Or.inl (BitVec.eq_of_toNat_eq h))
      exact not_inArray_of_pos (by omega) hlt h
    · rintro (rfl | h)
      · refine ⟨⟨_, _, tuyaIntArray2int_zero hlt⟩, fun passes k hk => ⟨Nat.zero_le _, ?_⟩⟩
        rw [intArray2intReads, if_neg (Nat.not_le.mpr hlt)] at hk
        obtain ⟨v, hv, rfl⟩ := List.mem_map.mp hk
        obtain ⟨-, v', hagain⟩ := Loop.visited_invariant (I := fun _ => True)
          (fun _ _ _ _ => trivial) trivial v hv
        have hi : v.i.toNat < (sumBound 0 len).toNat := by
          by_contra hge
          rw [sumPass, if_neg hge] at hagain
          cases hagain
        rw [hbound] at hi
        exact hi.trans_eq (Nat.zero_add _)
      · omega
  · refine ⟨fun _ => Or.inr (Nat.not_lt.mp hlt), fun _ => ⟨⟨0, _, if_pos (Nat.not_lt.mp hlt)⟩, ?_⟩⟩
    intro passes k hk
    rw [intArray2intReads, if_pos (Nat.not_lt.mp hlt)] at hk
    cases hk

/-- The second entry of an array of two is read with the one behind it. -/
theorem not_inArray_second : ¬InArray (fun _ => 0) 1 2 :=
  not_inArray_of_pos (by decide) (by decide)

/-! ## The number of a text -/

/-- `tuya_str2num` takes only texts of at least one digit whose value 32 bits hold, and gives
that value; else it leaves the number as it was. -/
def ParsesSoundly (number : Nat) (str : Mem) (strlen : BitVec 8) : Prop :=
  let text := readBytes str 0 strlen.toNat
  let value := fromDigits 10 (text.map fun c => c.toNat - 0x30)
  let result := tuyaStr2num number str strlen
  (result.1 = true → (∀ c ∈ text, IsDigit c) ∧ 1 ≤ strlen.toNat ∧ value < 2 ^ 32 ∧
      result.2 = value) ∧
    (result.1 = false → result.2 = number)

/-- The loop of `tuya_str2num` from `i` on. -/
theorem str2numLoop_eq (str : Mem) (left i value : Nat) :
    str2numLoop str left i value =
      if ∀ c ∈ readBytes str i left, IsDigit c then
        some ((readBytes str i left).foldl (fun v c => u32 (v * 10 + (c.toNat - 0x30))) value)
      else none := by
  induction left generalizing i value with
  | zero => rfl
  | succ left ih =>
    rw [str2numLoop, readBytes_succ]
    by_cases hdigit : IsDigit (str i)
    · rw [if_pos hdigit, ih]
      simp only [List.forall_mem_cons, hdigit, true_and, List.foldl_cons]
    · rw [if_neg hdigit, if_neg]
      exact fun h => hdigit (h _ List.mem_cons_self)

theorem tuyaStr2num_eq (number : Nat) (str : Mem) (strlen : BitVec 8) :
    tuyaStr2num number str strlen =
      if ∀ c ∈ readBytes str 0 strlen.toNat, IsDigit c then
        (true, u32 (fromDigits 10
          ((readBytes str 0 strlen.toNat).map fun c => c.toNat - 0x30)))
      else (false, number) := by
  rw [tuyaStr2num, str2numLoop_eq, u32, ← foldl_mod_fromDigits, List.foldl_map]
  split
  next h =>
    split at h
    · cases h
    · rename_i hdigits
      rw [if_neg hdigits]
  next value h =>
    split at h
    · rename_i hdigits
      rw [if_pos hdigits, ← Option.some.inj h]
      rfl
    · cases h

/-- The value of a text of digits is reduced without a check. -/
theorem ParsesSoundly.value_lt {number : Nat} {str : Mem} {strlen : BitVec 8}
    (h : ParsesSoundly number str strlen)
    (hdigits : ∀ c ∈ readBytes str 0 strlen.toNat, IsDigit c) :
    1 ≤ strlen.toNat ∧
      fromDigits 10 ((readBytes str 0 strlen.toNat).map fun c => c.toNat - 0x30) < 2 ^ 32 := by
  unfold ParsesSoundly at h
  rw [tuyaStr2num_eq, if_pos hdigits] at h
  obtain ⟨-, hlen, hlt, -⟩ := h.1 rfl
  exact ⟨hlen, hlt⟩

/-- The value is reduced without a check, and an empty text counts as zero. -/
theorem parsesSoundly_iff (number : Nat) (str : Mem) (strlen : BitVec 8) :
    ParsesSoundly number str strlen ↔
      (∃ c ∈ readBytes str 0 strlen.toNat, ¬IsDigit c) ∨
        1 ≤ strlen.toNat ∧
          fromDigits 10 ((readBytes str 0 strlen.toNat).map fun c => c.toNat - 0x30) < 2 ^ 32 := by
  by_cases hdigits : ∀ c ∈ readBytes str 0 strlen.toNat, IsDigit c
  · refine ⟨fun h => Or.inr (h.value_lt hdigits), ?_⟩
    unfold ParsesSoundly
    rw [tuyaStr2num_eq, if_pos hdigits]
    rintro (⟨c, hc, hnot⟩ | ⟨hlen, hlt⟩)
    · exact absurd (hdigits c hc) hnot
    · refine ⟨fun _ => ⟨hdigits, hlen, hlt, u32_of_lt hlt⟩, ?_⟩
      intro h
      cases h
  · unfold ParsesSoundly
    rw [tuyaStr2num_eq, if_neg hdigits]
    refine ⟨fun _ => Or.inl ?_, fun _ => ⟨?_, fun _ => rfl⟩⟩
    · by_contra hall
      exact hdigits fun c hc => not_not.mp fun hnot => hall ⟨c, hc, hnot⟩
    · intro h
      cases h

/-- `4294967296` -/
def overlong : List Byte := [0x34, 0x32, 0x39, 0x34, 0x39, 0x36, 0x37, 0x32, 0x39, 0x36]

theorem not_parsesSoundly_overlong : ¬ParsesSoundly 7 (storeBytes (fun _ => 0) overlong) 10 := by
  intro h
  exact absurd (h.value_lt (by decide)) (by decide)

end TuyaSdk.TuyaTools
