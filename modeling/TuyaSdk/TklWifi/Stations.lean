import TuyaSdk.TklWifi.Defs

/-!
# The table of stations

`tkl_wifi_get_all_sta_info` writes every station to the first entry of the array, and sets `num`
only where it has an array (`exportOk_iff`).
-/

namespace TuyaSdk.TklWifi
open TuyaSdk.Lib

/-! ## Texts -/

/-- A character of a number is a digit. -/
theorem isDigit_of_mem_decimal {n : Nat} {c : Byte} (h : c ∈ decimal n) :
    48 ≤ c.toNat ∧ c.toNat < 58 := by
  obtain ⟨d, hd, rfl⟩ := List.mem_map.mp h
  have hlt := lt_base_of_mem_toDigits (by decide) hd
  rw [BitVec.toNat_ofNat]
  omega

theorem dot_notMem_decimal {n : Nat} : (0x2E : Byte) ∉ decimal n := by
  intro h
  exact absurd (isDigit_of_mem_decimal h).1 (by decide)

theorem nul_notMem_decimal {n : Nat} : (0 : Byte) ∉ decimal n := by
  intro h
  exact absurd (isDigit_of_mem_decimal h).1 (by decide)

theorem decimal_injective {m n : Nat} (h : decimal m = decimal n) : m = n := by
  have hval : ∀ k, (decimal k).map (fun c => c.toNat - 48) = toDigits 10 k := by
    intro k
    rw [decimal, List.map_map]
    refine (List.map_congr_left (g := id) ?_).trans (List.map_id _)
    intro d hd
    have hlt := lt_base_of_mem_toDigits (by decide) hd
    change (BitVec.ofNat 8 (48 + d)).toNat - 48 = d
    rw [BitVec.toNat_ofNat]
    omega
  rw [← fromDigits_toDigits (b := 10) m, ← fromDigits_toDigits (b := 10) n, ← hval, ← hval, h]

theorem length_decimal_le {n : Nat} (hn : n < 256) : (decimal n).length ≤ 3 := by
  rw [decimal, List.length_map]
  by_cases hzero : n = 0
  · rw [hzero]
    decide
  · rw [toDigits_ne_zero hzero, List.length_reverse, Nat.digits_length_le_iff (by decide)]
    omega

/-- The text of an address fits in its field. -/
theorem length_dotted_le (addr : BitVec 32) : (dotted addr).length ≤ 15 := by
  have h0 := length_decimal_le (Nat.mod_lt addr.toNat (show 0 < 256 by decide))
  have h1 := length_decimal_le (Nat.mod_lt (addr.toNat / 2 ^ 8) (show 0 < 256 by decide))
  have h2 := length_decimal_le (Nat.mod_lt (addr.toNat / 2 ^ 16) (show 0 < 256 by decide))
  have h3 := length_decimal_le (Nat.mod_lt (addr.toNat / 2 ^ 24) (show 0 < 256 by decide))
  simp only [dotted, List.length_append, List.length_cons]
  omega

theorem nul_notMem_dotted {addr : BitVec 32} : (0 : Byte) ∉ dotted addr := by
  simp only [dotted, List.mem_append, List.mem_cons, not_or]
  exact ⟨nul_notMem_decimal, by decide, nul_notMem_decimal, by decide, nul_notMem_decimal,
    by decide, nul_notMem_decimal⟩

/-- A list is split at the first of the characters `c`. -/
theorem split_first {c : Byte} {s t x y : List Byte} (hs : c ∉ s) (ht : c ∉ t)
    (h : s ++ c :: x = t ++ c :: y) : s = t ∧ x = y := by
  induction s generalizing t with
  | nil =>
    cases t with
    | nil => exact ⟨rfl, (List.cons.inj h).2⟩
    | cons d t =>
      obtain rfl := (List.cons.inj h).1
      exact absurd List.mem_cons_self ht
  | cons d s ih =>
    cases t with
    | nil =>
      obtain rfl := (List.cons.inj h).1
      exact absurd List.mem_cons_self hs
    | cons e t =>
      obtain ⟨rfl, htail⟩ := List.cons.inj h
      obtain ⟨rfl, hxy⟩ := ih (fun hc => hs (List.mem_cons_of_mem _ hc))
        (fun hc => ht (List.mem_cons_of_mem _ hc)) htail
      exact ⟨rfl, hxy⟩

/-- An address is told by its text. -/
theorem dotted_injective {a b : BitVec 32} (h : dotted a = dotted b) : a = b := by
  obtain ⟨h0, h⟩ := split_first dot_notMem_decimal dot_notMem_decimal h
  obtain ⟨h1, h⟩ := split_first dot_notMem_decimal dot_notMem_decimal h
  obtain ⟨h2, h⟩ := split_first dot_notMem_decimal dot_notMem_decimal h
  have h0 := decimal_injective h0
  have h1 := decimal_injective h1
  have h2 := decimal_injective h2
  have h3 := decimal_injective h
  have ha := a.isLt
  have hb := b.isLt
  apply BitVec.eq_of_toNat_eq
  omega

/-- One memory holds one text. -/
theorem text_unique {m : Mem} {s t : List Byte} (hs : (0 : Byte) ∉ s) (ht : (0 : Byte) ∉ t)
    (h : BytesAt m 0 (s ++ [0])) (h' : BytesAt m 0 (t ++ [0])) : s = t := by
  wlog hle : s.length ≤ t.length generalizing s t
  · exact (this ht hs h' h (Nat.le_of_not_le hle)).symm
  obtain ⟨k, hk⟩ := Nat.exists_eq_add_of_le hle
  rw [BytesAt, List.length_append, List.length_singleton] at h h'
  rw [hk, show s.length + k + 1 = s.length + 1 + k by omega, readBytes_add, h,
    List.append_assoc, List.singleton_append] at h'
  exact (split_first hs ht h').1

theorem bytesAt_snprintf (dst : Mem) (addr : BitVec 32) :
    BytesAt (snprintf dst 16 (dotted addr)) 0 (dotted addr ++ [0]) := by
  rw [snprintf, List.take_of_length_le (length_dotted_le addr)]
  exact bytesAt_writeBytes _ _ _

/-! ## Entries -/

/-- The entry has the MAC of the station, and the texts of its addresses. -/
structure Holds (e : WfStaInfo) (s : WlanApSta) : Prop where
  ip : BytesAt e.ip 0 (dotted s.ipaddr ++ [0])
  mask : BytesAt e.mask 0 (dotted s.mask ++ [0])
  gw : BytesAt e.gw 0 (dotted s.gw ++ [0])
  mac : BytesAt e.mac 0 s.addr

theorem holds_copyStation (p : WfStaInfo) (s : WlanApSta) : Holds (copyStation p s) s where
  ip := by simp only [copyStation, bytesAt_snprintf]
  mask := by simp only [copyStation, bytesAt_snprintf]
  gw := by simp only [copyStation, bytesAt_snprintf]
  mac := by simp only [copyStation, bytesAt_writeBytes]

/-- One entry holds one station. -/
theorem Holds.unique {e : WfStaInfo} {s t : WlanApSta} (h : Holds e s) (h' : Holds e t) :
    s = t := by
  have hip := dotted_injective (text_unique nul_notMem_dotted nul_notMem_dotted h.ip h'.ip)
  have hmask := dotted_injective (text_unique nul_notMem_dotted nul_notMem_dotted h.mask h'.mask)
  have hgw := dotted_injective (text_unique nul_notMem_dotted nul_notMem_dotted h.gw h'.gw)
  have hmac : s.addr = t.addr := by
    have hs := h.mac
    have ht := h'.mac
    rw [BytesAt, s.addrLength] at hs
    rw [BytesAt, t.addrLength] at ht
    exact hs.symm.trans ht
  cases s
  cases t
  simp_all only

/-- The entry that every station is copied to holds the last one. -/
theorem holds_foldl (p : WfStaInfo) (l : List WlanApSta) (s : WlanApSta) :
    Holds ((l ++ [s]).foldl copyStation p) s := by
  rw [List.foldl_append]
  exact holds_copyStation _ s

/-! ## The call -/

/-- The array has room for as many entries as `num` says; without an array, that is none. -/
def Consistent (c : Caller) : Prop :=
  ∀ n ary, c.num = some n → c.staAry = some ary →
    n * sizeofWfStaInfo ≤ (ary.map Block.size).getD 0

/-- Entry `i` holds station `i`. -/
def Corresponds (b : Block) (sta : List WlanApSta) : Prop :=
  ∀ i s, sta[i]? = some s → Holds (b.entry i) s

/-- The table of the driver is freed, array and count fit together, and an array that comes with
success has the stations in their order. -/
def ExportOk (caller : Caller) (stas : WlanApStas) (memory : Option (Nat → WfStaInfo)) : Prop :=
  caller.staAry.isSome → caller.num.isSome →
    let r := tklWifiGetAllStaInfo caller stas memory
    r.freed = (if stas.sta.isSome then 1 else 0) ∧ Consistent r.caller ∧
      (r.ret = .ok → ∀ b, r.caller.staAry = some (some b) →
        r.caller.num = some (stas.sta.getD []).length ∧ Corresponds b (stas.sta.getD []))

/-- The stations happen to lie in the memory as they should: the last one is the first one, too,
and each one but the first was there before. -/
def Luck (entry : Nat → WfStaInfo) (sta : List WlanApSta) : Prop :=
  sta.getLast? = sta.head? ∧ ∀ i s, 1 ≤ i → sta[i]? = some s → Holds (entry i) s

/-- At most one station needs no luck. -/
theorem luck_of_length_le_one {entry : Nat → WfStaInfo} {sta : List WlanApSta}
    (h : sta.length ≤ 1) : Luck entry sta := by
  refine ⟨?_, fun i s hi hs => ?_⟩
  · cases sta with
    | nil => rfl
    | cons s rest =>
      obtain rfl : rest = [] := List.eq_nil_of_length_eq_zero (by rw [List.length_cons] at h; omega)
      rfl
  · have hlt := (List.getElem?_eq_some_iff.mp hs).1
    omega

theorem corresponds_iff {entry : Nat → WfStaInfo} {sta : List WlanApSta} {size : Nat} :
    Corresponds ⟨size, fun i => if i = 0 then sta.foldl copyStation (entry 0) else entry i⟩ sta ↔
      Luck entry sta := by
  constructor
  · intro h
    refine ⟨?_, fun i s hi hs => ?_⟩
    · rcases List.eq_nil_or_concat sta with rfl | ⟨l, s, rfl⟩
      · rfl
      · rw [List.concat_eq_append] at h ⊢
        have hlast := holds_foldl (entry 0) l s
        cases hhead : (l ++ [s]).head? with
        | none => simp at hhead
        | some first =>
          have hfirst := h 0 first (List.head?_eq_getElem?.symm.trans hhead)
          rw [List.getLast?_concat, hlast.unique hfirst]
    · have hentry := h i s hs
      rw [show (⟨size, fun i => if i = 0 then sta.foldl copyStation (entry 0) else entry i⟩ :
        Block).entry i = entry i from if_neg (by omega)] at hentry
      exact hentry
  · rintro ⟨hlast, hrest⟩ i s hs
    by_cases hi : i = 0
    · subst hi
      change Holds (sta.foldl copyStation (entry 0)) s
      rcases List.eq_nil_or_concat sta with rfl | ⟨l, s', rfl⟩
      · cases hs
      · rw [List.concat_eq_append] at hlast hs ⊢
        rw [List.getLast?_concat, List.head?_eq_getElem?, hs] at hlast
        rw [← Option.some.inj hlast]
        exact holds_foldl _ _ _
    · have hentry := hrest i s (by omega) hs
      change Holds (if i = 0 then _ else entry i) s
      rw [if_neg hi]
      exact hentry

/-- Without an array, the count has to be zero from before. -/
theorem exportOk_without_array {ary : Option Block} {n : Nat} {stas : WlanApStas}
    {memory : Option (Nat → WfStaInfo)} {ret : OperateRet}
    (hrun : tklWifiGetAllStaInfo ⟨some ary, some n⟩ stas memory =
      ⟨ret, ⟨some none, some n⟩, if stas.sta.isSome then 1 else 0⟩) :
    ExportOk ⟨some ary, some n⟩ stas memory ↔ n = 0 := by
  constructor
  · intro h
    have hcons := (h rfl rfl).2.1
    rw [hrun] at hcons
    have hle : n * 54 ≤ 0 := hcons n none rfl rfl
    omega
  · rintro rfl _ _
    rw [hrun]
    refine ⟨rfl, ?_, fun _ b hb => ?_⟩
    · intro m ary hm _
      obtain rfl := Option.some.inj hm
      rw [Nat.zero_mul]
      exact Nat.zero_le _
    · cases hb

theorem exportOk_with_array {ary : Option Block} {n : Nat} {stas : WlanApStas}
    {entry : Nat → WfStaInfo} (hret : stas.ret = 0) :
    ExportOk ⟨some ary, some n⟩ stas (some entry) ↔
      stas.num * sizeofWfStaInfo < 2 ^ 32 ∧ Luck entry (stas.sta.getD []) := by
  have hrun : tklWifiGetAllStaInfo ⟨some ary, some n⟩ stas (some entry) =
      ⟨.ok, ⟨some (some ⟨u32 (stas.num * sizeofWfStaInfo), fun i =>
        if i = 0 then (stas.sta.getD []).foldl copyStation (entry 0) else entry i⟩),
          some stas.num⟩, if stas.sta.isSome then 1 else 0⟩ := by
    rw [tklWifiGetAllStaInfo, if_neg (by simp), if_pos hret]
  constructor
  · intro h
    obtain ⟨-, hcons, hok⟩ := h rfl rfl
    rw [hrun] at hcons hok
    have hle : stas.num * sizeofWfStaInfo ≤ u32 (stas.num * sizeofWfStaInfo) :=
      hcons stas.num _ rfl rfl
    exact ⟨hle.trans_lt (u32_lt _), corresponds_iff.mp (hok rfl _ rfl).2⟩
  · rintro ⟨hlt, hluck⟩ _ _
    rw [hrun]
    refine ⟨rfl, ?_, fun _ b hb => ?_⟩
    · intro m ary hm hary
      obtain rfl := Option.some.inj hm
      obtain rfl := Option.some.inj hary
      exact (u32_of_lt hlt).ge
    · obtain rfl := Option.some.inj (Option.some.inj hb)
      exact ⟨congrArg some (stas.numStations hret), corresponds_iff.mpr hluck⟩

/-- A table of at most one station comes out as it should. -/
theorem exportOk_of_length_le_one {ary : Option Block} {n : Nat} {stas : WlanApStas}
    {entry : Nat → WfStaInfo} (hret : stas.ret = 0) (hlen : (stas.sta.getD []).length ≤ 1) :
    ExportOk ⟨some ary, some n⟩ stas (some entry) := by
  have hnum := stas.numStations hret
  have hsize : sizeofWfStaInfo = 54 := rfl
  refine (exportOk_with_array hret).mpr ⟨?_, luck_of_length_le_one hlen⟩
  rw [hsize]
  omega

/-- When the call does what it should: with a table and memory, the stations lie in it by luck and
its size does not wrap; else the count was zero before. -/
theorem exportOk_iff (caller : Caller) (stas : WlanApStas) (memory : Option (Nat → WfStaInfo)) :
    ExportOk caller stas memory ↔
      (caller.staAry = none ∨ caller.num = none ∨
        if stas.ret = 0 ∧ memory.isSome then
          stas.num * sizeofWfStaInfo < 2 ^ 32 ∧
            ∀ entry, memory = some entry → Luck entry (stas.sta.getD [])
        else caller.num = some 0) := by
  obtain ⟨staAry, num⟩ := caller
  cases staAry with
  | none =>
    refine ⟨fun _ => Or.inl rfl, fun _ h => ?_⟩
    cases h
  | some ary =>
    cases num with
    | none =>
      refine ⟨fun _ => Or.inr (Or.inl rfl), fun _ _ h => ?_⟩
      cases h
    | some n =>
      have hsome : ∀ {p : Prop}, ((some ary = none ∨ some n = none ∨ p) ↔ p) := by
        intro p
        simp
      rw [hsome]
      by_cases hret : stas.ret = 0
      · cases memory with
        | none =>
          have hrun : tklWifiGetAllStaInfo ⟨some ary, some n⟩ stas none =
              ⟨.mallocFailed, ⟨some none, some n⟩, if stas.sta.isSome then 1 else 0⟩ := by
            rw [tklWifiGetAllStaInfo, if_neg (by simp), if_pos hret]
          rw [if_neg (by simp), exportOk_without_array hrun, Option.some.injEq]
        | some entry =>
          rw [if_pos ⟨hret, rfl⟩, exportOk_with_array hret]
          refine and_congr_right fun _ => ⟨fun h entry' he => ?_, fun h => h entry rfl⟩
          rwa [← Option.some.inj he]
      · have hrun : ∃ ret, tklWifiGetAllStaInfo ⟨some ary, some n⟩ stas memory =
            ⟨ret, ⟨some none, some n⟩, if stas.sta.isSome then 1 else 0⟩ := by
          rw [tklWifiGetAllStaInfo, if_neg (by simp), if_neg hret]
          split
          next => exact ⟨_, rfl⟩
          next => exact ⟨_, rfl⟩
        obtain ⟨ret, hrun⟩ := hrun
        rw [if_neg fun h => hret h.1, exportOk_without_array hrun, Option.some.injEq]

/-- A station with the address `1.0.0.0`, and a MAC that ends with `last`. -/
def station (last : Byte) : WlanApSta := ⟨[2, 0, 0, 0, 0, last], 1, 255, 1, rfl⟩

def blankEntry : WfStaInfo := ⟨fun _ => 0, fun _ => 0, fun _ => 0, fun _ => 0⟩

/-- Two stations, in an array of zeros. -/
theorem not_exportOk_two :
    ¬ExportOk ⟨some none, some 0⟩ ⟨0, 2, some [station 1, station 2], fun _ => rfl⟩
      (some fun _ => blankEntry) := by
  rw [exportOk_with_array rfl]
  rintro ⟨-, hlast, -⟩
  exact absurd (congrArg (fun s => s.map WlanApSta.addr) hlast) (by decide)

end TuyaSdk.TklWifi
