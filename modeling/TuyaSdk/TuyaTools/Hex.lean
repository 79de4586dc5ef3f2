import TuyaSdk.TuyaTools.Defs

/-!
# Hexadecimal text there and back

Two characters stand for a byte. `tuya_hex2str` writes upper case and `tuya_ascs2hex` reads either
case, so that a byte comes back as it was and a text in upper case (`hex_codec`).
-/

namespace TuyaSdk.TuyaTools
open TuyaSdk.Lib

/-- `[0-9A-F]` -/
def IsUpperHex (c : Byte) : Prop := IsDigit c ∨ 0x41 ≤ c ∧ c ≤ 0x46

/-- A hexadecimal digit in either case. -/
def IsHexDigit (c : Byte) : Prop := IsUpperHex c ∨ 0x61 ≤ c ∧ c ≤ 0x66

instance (c : Byte) : Decidable (IsUpperHex c) := inferInstanceAs (Decidable (_ ∨ _))

instance (c : Byte) : Decidable (IsHexDigit c) := inferInstanceAs (Decidable (_ ∨ _))

/-- The character in upper case. -/
def upperCase (c : Byte) : Byte := if 0x61 ≤ c ∧ c ≤ 0x7A then c - 0x20 else c

/-! ## One character -/

theorem isUpperHex_hexChar {half : Nat} (h : half < 16) : IsUpperHex (hexChar half) := by
  have hall : ∀ d : Fin 16, IsUpperHex (hexChar d) := by decide
  exact hall ⟨half, h⟩

/-- The decoder takes a character of the encoder back to its half byte. -/
theorem tuyaAsc2hex_hexChar {half : Nat} (h : half < 16) :
    tuyaAsc2hex (hexChar half) = BitVec.ofNat 8 half := by
  have hall : ∀ d : Fin 16, tuyaAsc2hex (hexChar d) = BitVec.ofNat 8 d := by decide
  exact hall ⟨half, h⟩

theorem tuyaAsc2hex_lt {c : Byte} : (tuyaAsc2hex c).toNat < 16 := by
  unfold tuyaAsc2hex
  split
  · bv_omega
  · split
    · bv_omega
    · split
      · bv_omega
      · decide

/-- The encoder takes the value of a hexadecimal digit back to the digit, in upper case. -/
theorem hexChar_tuyaAsc2hex {c : Byte} (hc : IsHexDigit c) :
    hexChar (tuyaAsc2hex c).toNat = upperCase c := by
  have hall : ∀ n : Fin 256, IsHexDigit (BitVec.ofFin n) →
      hexChar (tuyaAsc2hex (BitVec.ofFin n)).toNat = upperCase (BitVec.ofFin n) := by
    decide +kernel
  exact hall c.toFin hc

/-! ## One byte -/

/-- A byte is put together from its halves. -/
theorem ofNat_halves (hi lo : Nat) :
    BitVec.ofNat 8 hi <<< 4 + BitVec.ofNat 8 lo = BitVec.ofNat 8 (16 * hi + lo) := by
  apply BitVec.eq_of_toNat_eq
  rw [BitVec.toNat_add, BitVec.toNat_shiftLeft, BitVec.toNat_ofNat, BitVec.toNat_ofNat,
    BitVec.toNat_ofNat, Nat.shiftLeft_eq]
  omega

theorem ascsByte_toNat (ascs : Mem) (k : Nat) :
    (ascsByte ascs k).toNat =
      16 * (tuyaAsc2hex (ascs (2 * k))).toNat + (tuyaAsc2hex (ascs (2 * k + 1))).toNat := by
  have hhi : (tuyaAsc2hex (ascs (2 * k))).toNat < 16 := tuyaAsc2hex_lt
  have hlo : (tuyaAsc2hex (ascs (2 * k + 1))).toNat < 16 := tuyaAsc2hex_lt
  have h := ofNat_halves (tuyaAsc2hex (ascs (2 * k))).toNat
    (tuyaAsc2hex (ascs (2 * k + 1))).toNat
  rw [BitVec.ofNat_toNat, BitVec.ofNat_toNat, BitVec.setWidth_eq, BitVec.setWidth_eq] at h
  rw [ascsByte, h, BitVec.toNat_ofNat]
  exact Nat.mod_eq_of_lt (by omega)

/-! ## The loops -/

/-- What `tuya_ascs2hex` leaves. -/
theorem tuyaAscs2hex_apply (hex ascs : Mem) (n x : Nat) :
    tuyaAscs2hex hex ascs (2 * n) x = if x < n then ascsByte ascs x else hex x := by
  have hloop : ∀ k, (List.range k).foldl (fun hex k => write8 hex k (ascsByte ascs k)) hex x =
      if x < k then ascsByte ascs x else hex x := by
    intro k
    induction k with
    | zero => rfl
    | succ k ih =>
      rw [List.range_succ, List.foldl_append]
      change write8 _ k _ x = _
      by_cases hx : x = k
      · rw [hx, write8_same, if_pos (Nat.lt_succ_self k)]
      · rw [write8_apply hx, ih]
        by_cases hlt : x < k
        · rw [if_pos hlt, if_pos (by omega)]
        · rw [if_neg hlt, if_neg (by omega)]
  have heven : 2 * n - 2 * n % 2 = 2 * n := by omega
  have hhalf : 2 * n / 2 = n := by omega
  rw [tuyaAscs2hex, heven, hhalf, ← hloop]
  split
  next hzero =>
    obtain rfl : n = 0 := by omega
    rfl
  next => rfl

/-- The character that the encoder writes at `x`. -/
def encoded (hex : Mem) (x : Nat) : Byte :=
  hexChar (if x % 2 = 0 then (hex (x / 2)).toNat / 16 else (hex (x / 2)).toNat % 16)

/-- What `tuya_hex2str` leaves. -/
theorem tuyaHex2str_apply (str hex : Mem) (n x : Nat) :
    tuyaHex2str str hex n x =
      if x < 2 * n then encoded hex x else if x = 2 * n then 0 else str x := by
  have hloop : ∀ k, (List.range k).foldl (fun str i =>
      write8 (write8 str (i * 2) (hexChar ((hex i).toNat / 16)))
        (i * 2 + 1) (hexChar ((hex i).toNat % 16))) str x =
      if x < 2 * k then encoded hex x else str x := by
    intro k
    induction k with
    | zero => rfl
    | succ k ih =>
      rw [List.range_succ, List.foldl_append]
      change write8 (write8 _ (k * 2) _) (k * 2 + 1) _ x = _
      by_cases hodd : x = k * 2 + 1
      · have hdiv : (k * 2 + 1) / 2 = k := by omega
        rw [hodd, write8_same, if_pos (by omega), encoded, if_neg (by omega), hdiv]
      · rw [write8_apply hodd]
        by_cases heven : x = k * 2
        · have hdiv : k * 2 / 2 = k := by omega
          rw [heven, write8_same, if_pos (by omega), encoded, if_pos (by omega), hdiv]
        · rw [write8_apply heven, ih]
          by_cases hlt : x < 2 * k
          · rw [if_pos hlt, if_pos (by omega)]
          · rw [if_neg hlt, if_neg (by omega)]
  change write8 _ (n * 2) 0 x = _
  by_cases hend : x = n * 2
  · rw [hend, write8_same, if_neg (by omega), if_pos (by omega)]
  · rw [write8_apply hend, hloop]
    by_cases hlt : x < 2 * n
    · rw [if_pos hlt, if_pos hlt]
    · rw [if_neg hlt, if_neg hlt, if_neg (by omega)]

/-! ## Both ways -/

theorem isUpperHex_encoded (hex : Mem) (x : Nat) : IsUpperHex (encoded hex x) := by
  apply isUpperHex_hexChar
  have := (hex (x / 2)).isLt
  split <;> omega

/-- The byte of the two characters that were written for it. -/
theorem ascsByte_of_encoded {str hex : Mem} {k : Nat} (h0 : str (2 * k) = encoded hex (2 * k))
    (h1 : str (2 * k + 1) = encoded hex (2 * k + 1)) : ascsByte str k = hex k := by
  have hlt := (hex k).isLt
  have heven : 2 * k / 2 = k := by omega
  have hodd : (2 * k + 1) / 2 = k := by omega
  rw [encoded, if_pos (by omega), heven] at h0
  rw [encoded, if_neg (by omega), hodd] at h1
  rw [ascsByte, h0, h1, tuyaAsc2hex_hexChar (by omega), tuyaAsc2hex_hexChar (by omega),
    ofNat_halves, Nat.div_add_mod, BitVec.ofNat_toNat,
    BitVec.setWidth_eq]

/-- The character that is written for the byte of two digits. -/
theorem encoded_of_ascsByte {str hex : Mem} {x : Nat} (hbyte : hex (x / 2) = ascsByte str (x / 2))
    (hx : IsHexDigit (str x)) : encoded hex x = upperCase (str x) := by
  have hhi : (tuyaAsc2hex (str (2 * (x / 2)))).toNat < 16 := tuyaAsc2hex_lt
  have hlo : (tuyaAsc2hex (str (2 * (x / 2) + 1))).toNat < 16 := tuyaAsc2hex_lt
  rw [encoded, hbyte, ascsByte_toNat, ← hexChar_tuyaAsc2hex hx]
  congr 1
  by_cases heven : x % 2 = 0
  · have h : 2 * (x / 2) = x := by omega
    rw [if_pos heven]
    rw [h] at hhi hlo ⊢
    omega
  · have h : 2 * (x / 2) + 1 = x := by omega
    rw [if_neg heven]
    rw [h] at hlo ⊢
    omega

/-- Bytes become twice as many characters in upper case and a NUL, and come back from them; a text
of hexadecimal digits becomes bytes and comes back in upper case. Nothing else is written. -/
theorem hex_codec (n : Nat) (h h' s : Mem) :
    (∀ c ∈ readBytes (tuyaHex2str s h n) 0 (2 * n), IsUpperHex c) ∧
      tuyaHex2str s h n (2 * n) = 0 ∧ (∀ x, 2 * n < x → tuyaHex2str s h n x = s x) ∧
      readBytes (tuyaAscs2hex h' (tuyaHex2str s h n) (2 * n)) 0 n = readBytes h 0 n ∧
      (∀ text, ∀ x, n ≤ x → tuyaAscs2hex h' text (2 * n) x = h' x) ∧
      ∀ text, (∀ c ∈ readBytes text 0 (2 * n), IsHexDigit c) →
        readBytes (tuyaHex2str s (tuyaAscs2hex h' text (2 * n)) n) 0 (2 * n) =
          (readBytes text 0 (2 * n)).map upperCase := by
  refine ⟨?_, ?_, ?_, ?_, ?_, ?_⟩
  · intro c hc
    obtain ⟨x, hx, rfl⟩ := List.mem_map.mp hc
    rw [Nat.zero_add, tuyaHex2str_apply, if_pos (List.mem_range.mp hx)]
    exact isUpperHex_encoded h x
  · rw [tuyaHex2str_apply, if_neg (Nat.lt_irrefl _), if_pos rfl]
  · intro x hx
    rw [tuyaHex2str_apply, if_neg (by omega), if_neg (by omega)]
  · apply List.map_congr_left
    intro k hk
    have hk := List.mem_range.mp hk
    rw [Nat.zero_add, tuyaAscs2hex_apply, if_pos hk]
    apply ascsByte_of_encoded
    · rw [tuyaHex2str_apply, if_pos (by omega)]
    · rw [tuyaHex2str_apply, if_pos (by omega)]
  · intro text x hx
    rw [tuyaAscs2hex_apply, if_neg (Nat.not_lt.mpr hx)]
  · intro text htext
    rw [readBytes, readBytes, List.map_map]
    apply List.map_congr_left
    intro x hx
    have hlt := List.mem_range.mp hx
    have hdigit : IsHexDigit (text x) := by
      have hmem := List.mem_map_of_mem (f := fun i => text (0 + i)) hx
      have h := htext _ hmem
      rw [Nat.zero_add] at h
      exact h
    change tuyaHex2str _ _ n (0 + x) = upperCase (text (0 + x))
    rw [Nat.zero_add, tuyaHex2str_apply, if_pos hlt]
    apply encoded_of_ascsByte _ hdigit
    rw [tuyaAscs2hex_apply, if_pos (by omega)]

end TuyaSdk.TuyaTools
