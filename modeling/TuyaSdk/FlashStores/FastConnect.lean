import TuyaSdk.Flash.Device

/-!
# The fast-connect store (`role_launch.c`, `soft_encrypt.c`)

What a station needs to connect again is kept, encrypted, at `BSSID_INFO_ADDR`. Reading gives what
was written last (`rlRead_write`, `rlRead_clear`).
-/

namespace TuyaSdk.FlashStores
open TuyaSdk.Lib TuyaSdk.Flash

/-! ## `soft_encrypt.c` -/

/-- `xor_key`. -/
def xorKey : List Byte := [0x55, 0xaa, 0x5a, 0x55, 0xa5, 77, 99, 127]

/-- `xor_enc`: `xor_key_id` starts at 0, and of it `XOR_KEY_COUNT - 1` is the mask. -/
def xorEnc (input : List Byte) : List Byte :=
  input.mapIdx fun i b => b ^^^ xorKey.getD (i &&& 7) 0

/-- `xor_dec`. -/
def xorDec (input : List Byte) : List Byte := xorEnc input

theorem length_xorEnc (bs : List Byte) : (xorEnc bs).length = bs.length := List.length_mapIdx

theorem xorDec_xorEnc (bs : List Byte) : xorDec (xorEnc bs) = bs := by
  apply List.ext_getElem
  · rw [xorDec, length_xorEnc, length_xorEnc]
  · intro i h₁ h₂
    simp only [xorDec, xorEnc, List.getElem_mapIdx]
    rw [BitVec.xor_assoc, BitVec.xor_self, BitVec.xor_zero]

/-! ## `RL_BSSID_INFO_T` -/

/-- The link, its key and the parameters of the station, as `rl_write_bssid_info` finds them. -/
structure LinkInfo where
  ssid : Nat → Byte
  bssid : Nat → Byte
  security : Nat
  channel : Nat
  psk : Nat → Byte
  /-- `g_sta_param_ptr->orig_key`. -/
  origKey : Option (Nat → Byte)

/-- The string in the first `n` bytes. -/
def cString (s : Nat → Byte) (n : Nat) : List Byte := (readBytes s 0 n).takeWhile (· ≠ 0)

/-- A field of `n` bytes that was zero with a string copied to it. -/
def stringField (n : Nat) (s : List Byte) : List Byte :=
  s ++ List.replicate (n - s.length) 0

/-- A digit of `%02x`. -/
def hexDigit (d : Nat) : Byte := BitVec.ofNat 8 (if d < 10 then 0x30 + d else 0x57 + d)

/-- The bytes of `psk` in `%02x`. -/
def pskDigits (psk : Nat → Byte) : List Byte :=
  (List.range 32).flatMap fun i => [hexDigit ((psk i).toNat / 16), hexDigit ((psk i).toNat % 16)]

/-- `SSID_MAX_LEN`. -/
abbrev SSID_MAX_LEN : Nat := 32

/-- `sizeof(RL_BSSID_INFO_T)`. -/
abbrev sizeofBssidInfo : Nat := 33 + 6 + 1 + 1 + 65 + 65

/-- The fields of `bssid_info` when it is complete. -/
def LinkInfo.bssidInfo (l : LinkInfo) : List Byte :=
  stringField 33 (cString l.ssid SSID_MAX_LEN) ++ readBytes l.bssid 0 6 ++
    [BitVec.ofNat 8 l.security, BitVec.ofNat 8 l.channel] ++
    stringField 65 (pskDigits l.psk) ++
    stringField 65 (match l.origKey with
      | none => []
      | some key => cString key 65)

theorem length_cString_le (s : Nat → Byte) (n : Nat) : (cString s n).length ≤ n := by
  have hle := ((readBytes s 0 n).takeWhile_sublist (· ≠ 0)).length_le
  rw [length_readBytes] at hle
  exact hle

theorem length_stringField {n : Nat} {s : List Byte} (h : s.length ≤ n) :
    (stringField n s).length = n := by
  rw [stringField, List.length_append, List.length_replicate]
  omega

theorem length_pskDigits (psk : Nat → Byte) : (pskDigits psk).length = 64 := by
  simp only [pskDigits, List.length_flatMap, List.length_cons, List.length_nil]
  rfl

theorem LinkInfo.length_bssidInfo (l : LinkInfo) : l.bssidInfo.length = sizeofBssidInfo := by
  have hmax : SSID_MAX_LEN = 32 := rfl
  have hssid := length_cString_le l.ssid SSID_MAX_LEN
  have hpsk := length_pskDigits l.psk
  have hkey : (match l.origKey with
      | none => []
      | some key => cString key 65).length ≤ 65 := by
    cases l.origKey with
    | none => exact Nat.zero_le _
    | some key => exact length_cString_le key 65
  simp only [bssidInfo, List.length_append, length_readBytes]
  rw [length_stringField (by omega), length_stringField (by omega), length_stringField hkey]
  rfl

/-! ## The store -/

/-- `BSSID_INFO_ADDR`. -/
abbrev BSSID_INFO_ADDR : Nat := 0x1D1000

/-- `rl_read_bssid_info`. -/
def rlReadBssidInfo (dev : FlashDev) : List Byte :=
  xorDec (flashRead dev sizeofBssidInfo BSSID_INFO_ADDR)

/-- `rl_write_bssid_info`: what is there already is not written again. -/
def rlWriteBssidInfo (dev : FlashDev) (l : LinkInfo) : FlashDev :=
  if rlReadBssidInfo dev = l.bssidInfo then dev
  else
    let bytes := xorEnc l.bssidInfo
    flashWrite (flashEraseSector dev BSSID_INFO_ADDR) (fun i => bytes.getD i 0) sizeofBssidInfo
      BSSID_INFO_ADDR

/-- `rl_clear_bssid_info`. -/
def rlClearBssidInfo (dev : FlashDev) : FlashDev := flashEraseSector dev BSSID_INFO_ADDR

/-- What is read of an erased sector. -/
def erasedBssidInfo : List Byte := xorDec (List.replicate sizeofBssidInfo Nor.blank)

variable {dev dev' : FlashDev}

theorem rlRead_eq (dev : FlashDev) :
    rlReadBssidInfo dev = xorDec (readBytes dev.cells BSSID_INFO_ADDR sizeofBssidInfo) := by
  rw [rlReadBssidInfo, flashRead_eq (by decide) (by decide)]

theorem rlRead_congr
    (h : ∀ x, BSSID_INFO_ADDR ≤ x → x < BSSID_INFO_ADDR + 4096 → dev'.cells x = dev.cells x) :
    rlReadBssidInfo dev' = rlReadBssidInfo dev := by
  have heq : readBytes dev'.cells BSSID_INFO_ADDR sizeofBssidInfo =
      readBytes dev.cells BSSID_INFO_ADDR sizeofBssidInfo :=
    readBytes_congr fun x ⟨hlo, hhi⟩ => h x hlo (Nat.lt_trans hhi (by decide))
  rw [rlRead_eq, rlRead_eq, heq]

theorem rlRead_erased (h : Nor.Erased dev.cells BSSID_INFO_ADDR 4096) :
    rlReadBssidInfo dev = erasedBssidInfo := by
  have heq : readBytes dev.cells BSSID_INFO_ADDR sizeofBssidInfo =
      List.replicate sizeofBssidInfo Nor.blank := by
    refine List.eq_replicate_iff.mpr ⟨length_readBytes _ _ _, fun b hb => ?_⟩
    obtain ⟨i, hi, rfl⟩ := List.mem_map.mp hb
    have hi : i < sizeofBssidInfo := List.mem_range.mp hi
    exact h _ (Nat.le_add_right _ _) (Nat.add_lt_add_left (Nat.lt_trans hi (by decide)) _)
  rw [rlRead_eq, heq, erasedBssidInfo]

theorem rlWrite_sameOutside (hdev : 0x1D2000 ≤ dev.size) (l : LinkInfo) :
    SameOutside BSSID_INFO_ADDR (BSSID_INFO_ADDR + 4096) dev (rlWriteBssidInfo dev l) := by
  rw [rlWriteBssidInfo]
  split
  · exact .refl _ _ _
  · obtain ⟨hsize, hcells, -⟩ := flashWrite_eraseSector (a := BSSID_INFO_ADDR) (n := sizeofBssidInfo)
      (by decide) hdev (by decide) (by decide) fun i => (xorEnc l.bssidInfo).getD i 0
    exact ⟨hsize, hcells⟩

theorem rlRead_write (hdev : 0x1D2000 ≤ dev.size) (l : LinkInfo) :
    rlReadBssidInfo (rlWriteBssidInfo dev l) = l.bssidInfo := by
  rw [rlWriteBssidInfo]
  split
  · assumption
  · obtain ⟨-, -, hcells⟩ := flashWrite_eraseSector (a := BSSID_INFO_ADDR) (n := sizeofBssidInfo)
      (by decide) hdev (by decide) (by decide) fun i => (xorEnc l.bssidInfo).getD i 0
    have hlen : (xorEnc l.bssidInfo).length = sizeofBssidInfo := by
      rw [length_xorEnc, l.length_bssidInfo]
    have hbytes : readBytes (flashWrite (flashEraseSector dev BSSID_INFO_ADDR)
        (fun i => (xorEnc l.bssidInfo).getD i 0) sizeofBssidInfo BSSID_INFO_ADDR).cells
        BSSID_INFO_ADDR sizeofBssidInfo = xorEnc l.bssidInfo := by
      apply List.ext_getElem
      · rw [length_readBytes, hlen]
      · intro i h₁ h₂
        rw [getElem_readBytes, hcells i (by rwa [length_readBytes] at h₁),
          List.getD_eq_getElem _ _ h₂]
    rw [rlRead_eq]
    simp only
    rw [hbytes, xorDec_xorEnc]

theorem rlClear_eq (hdev : 0x1D2000 ≤ dev.size) : rlClearBssidInfo dev =
    { dev with cells := Nor.erase dev.cells BSSID_INFO_ADDR 4096 } :=
  flashEraseSector_eq (by decide) hdev (by decide)

theorem rlClear_sameOutside (hdev : 0x1D2000 ≤ dev.size) :
    SameOutside BSSID_INFO_ADDR (BSSID_INFO_ADDR + 4096) dev (rlClearBssidInfo dev) := by
  rw [rlClear_eq hdev]
  exact ⟨rfl, fun x hx => Nor.erase_outside hx⟩

theorem rlRead_clear (hdev : 0x1D2000 ≤ dev.size) :
    rlReadBssidInfo (rlClearBssidInfo dev) = erasedBssidInfo := by
  rw [rlClear_eq hdev]
  exact rlRead_erased Nor.erased_erase

end TuyaSdk.FlashStores
