import TuyaSdk.BleApp.Defs

/-!
# The check of advertising data

Advertising data are AD structures end to end, each a length byte and so many bytes, of which the
first is the type. `ble_app_gapm_adv_check_data_sanity` goes from length byte to length byte and
keeps the types that must be unique in a filter of bits. It is modelled here with the filter and
the bytes it reads; `BleApp.Defs` has what it returns only.

It fetches a type before it looks at the length. An empty structure takes the next length byte
for its type, and a structure that has only the last byte left is read past the end.
-/

namespace TuyaSdk.BleApp

variable {data : Buf} {n c : Nat}

/-! ## The filter -/

/-- `GAP_AD_TYPE_BITFIELD_BYTES` -/
def gapAdTypeBitfieldBytes : Nat := 32

/-- `dup_filter` -/
abbrev DupFilter := Vector (BitVec 8) gapAdTypeBitfieldBytes

theorem div_lt_bitfield (type : UInt8) : type.toNat / 8 < gapAdTypeBitfieldBytes := by
  have := type.toNat_lt
  unfold gapAdTypeBitfieldBytes
  omega

/-- `COMMON_BIT`, in a byte. -/
def commonBit (pos : Nat) : BitVec 8 := BitVec.twoPow 8 pos

/-- `GAP_AD_TYPE_SET_BIT` -/
def gapAdTypeSetBit (f : DupFilter) (type : UInt8) : DupFilter :=
  f.set (type.toNat / 8)
    (f.get ⟨type.toNat / 8, div_lt_bitfield type⟩ ||| commonBit (type.toNat % 8))
    (div_lt_bitfield type)

/-- `GAP_AD_TYPE_CHECK_BIT` -/
def gapAdTypeCheckBit (f : DupFilter) (type : UInt8) : Bool :=
  f.get ⟨type.toNat / 8, div_lt_bitfield type⟩ &&& commonBit (type.toNat % 8) != 0

/-! ## The check -/

/-- Where the loop ends, and the bytes it read. -/
structure Scan where
  cursor : Nat
  reads : List Nat
  deriving DecidableEq

/-- The loop of `ble_app_gapm_adv_check_data_sanity`. -/
def sanityLoop (length : Nat) (data : Buf) (cursor : Nat) (dupFilter : DupFilter) : Scan :=
  if cursor < length then
    let adType := data (cursor + 1)
    if bleAppGapmAdvIsAdvtypeUnique adType ∧ gapAdTypeCheckBit dupFilter adType then
      ⟨cursor, [cursor + 1]⟩
    else
      let dupFilter :=
        if bleAppGapmAdvIsAdvtypeUnique adType then gapAdTypeSetBit dupFilter adType else dupFilter
      let rest := sanityLoop length data (cursor + ((data cursor).toNat + 1)) dupFilter
      ⟨rest.cursor, (cursor + 1) :: cursor :: rest.reads⟩
  else ⟨cursor, []⟩
termination_by length - cursor

/-- `dup_filter` before the loop. -/
def dupFilterStart : DupFilter :=
  gapAdTypeSetBit (Vector.replicate gapAdTypeBitfieldBytes 0) gapAdTypeFlags

/-- The scan of `ble_app_gapm_adv_check_data_sanity`. -/
def sanityScan (length : UInt16) (data : Buf) : Scan :=
  sanityLoop length.toNat data 0 dupFilterStart

/-- What `ble_app_gapm_adv_check_data_sanity` returns. -/
def sanityStatus (length : UInt16) (data : Buf) : Int :=
  if (sanityScan length data).cursor ≠ length.toNat then 0 else 1

/-! ## AD structures -/

/-- An AD structure. -/
structure AdStructure where
  type : UInt8
  data : List UInt8
  fits : data.length < 255

/-- The length byte, the type and the data. -/
def AdStructure.bytes (a : AdStructure) : List UInt8 :=
  UInt8.ofNat (a.data.length + 1) :: a.type :: a.data

/-- None of the types is that of the flags, and none that must be unique is there twice. -/
def TypesOk (types : List UInt8) : Prop :=
  gapAdTypeFlags ∉ types ∧ (types.filter bleAppGapmAdvIsAdvtypeUnique).Nodup

/-- The bytes are AD structures end to end, and their types are fine. -/
def WellFormed (bytes : List UInt8) : Prop :=
  ∃ as : List AdStructure, bytes = as.flatMap AdStructure.bytes ∧ TypesOk (as.map (·.type))

/-- `k` bytes from `c` on. -/
def region (data : Buf) (c k : Nat) : List UInt8 := (List.range' c k).map data

/-- Where length bytes lead to from `c` on, as far as `n`. -/
def starts (data : Buf) (n c : Nat) : List Nat :=
  if c < n then c :: starts data n (c + ((data c).toNat + 1)) else []
termination_by n - c

/-- Where they lead to from `n` on. -/
def finish (data : Buf) (n c : Nat) : Nat :=
  if c < n then finish data n (c + ((data c).toNat + 1)) else c
termination_by n - c

/-- The byte behind a length byte. -/
def typeAt (data : Buf) (c : Nat) : UInt8 := data (c + 1)

/-! ## The filter holds a set of types -/

theorem checkBit_eq (f : DupFilter) (type : UInt8) : gapAdTypeCheckBit f type =
    (f.get ⟨type.toNat / 8, div_lt_bitfield type⟩).getLsbD (type.toNat % 8) := by
  unfold gapAdTypeCheckBit commonBit
  rw [BitVec.and_twoPow]
  have hlt : type.toNat % 8 < 8 := Nat.mod_lt _ (by decide)
  split_ifs with h
  · rw [h, bne_iff_ne, ne_eq]
    intro hzero
    have := congrArg (fun v => v.getLsbD (type.toNat % 8)) hzero
    simp [hlt] at this
  · rw [Bool.eq_false_of_not_eq_true h]
    rfl

theorem checkBit_setBit (f : DupFilter) (type other : UInt8) :
    gapAdTypeCheckBit (gapAdTypeSetBit f type) other =
      (decide (other = type) || gapAdTypeCheckBit f other) := by
  have hlt : type.toNat % 8 < 8 := Nat.mod_lt _ (by decide)
  rw [checkBit_eq, checkBit_eq, gapAdTypeSetBit, Vector.get_eq_getElem, Vector.get_eq_getElem,
    Vector.getElem_set]
  by_cases hbyte : type.toNat / 8 = other.toNat / 8
  · have hiff : other = type ↔ type.toNat % 8 = other.toNat % 8 := by
      rw [← UInt8.toNat_inj]
      omega
    simp only [hbyte, if_true, BitVec.getLsbD_or, commonBit, BitVec.getLsbD_twoPow, hlt,
      decide_true, Bool.true_and, Vector.get_eq_getElem, hiff]
    exact Bool.or_comm _ _
  · have hne : other ≠ type := fun heq => hbyte (by rw [heq])
    simp only [hbyte, if_false, hne, decide_false, Bool.false_or]
    rfl

theorem checkBit_start (type : UInt8) :
    gapAdTypeCheckBit dupFilterStart type = decide (type = gapAdTypeFlags) := by
  have hempty : gapAdTypeCheckBit (Vector.replicate gapAdTypeBitfieldBytes 0) type = false := by
    rw [checkBit_eq, Vector.get_eq_getElem, Vector.getElem_replicate]
    exact BitVec.getLsbD_zero
  rw [dupFilterStart, checkBit_setBit, hempty, Bool.or_false]

/-- The filter has the bits of the types in the list. -/
def Marks (f : DupFilter) (seen : List UInt8) : Prop :=
  ∀ type, gapAdTypeCheckBit f type = decide (type ∈ seen)

theorem Marks.set {f : DupFilter} {seen : List UInt8} (h : Marks f seen) (type : UInt8) :
    Marks (gapAdTypeSetBit f type) (type :: seen) := by
  intro other
  rw [checkBit_setBit, h other]
  simp only [List.mem_cons, Bool.decide_or]

theorem marks_start : Marks dupFilterStart [gapAdTypeFlags] := by
  intro type
  rw [checkBit_start]
  simp only [List.mem_singleton]

/-! ## The loop -/

/-- The loop does not stop at the types, when it has seen the others. -/
def Fresh : List UInt8 → List UInt8 → Prop
  | _, [] => True
  | seen, t :: ts => ¬(bleAppGapmAdvIsAdvtypeUnique t ∧ t ∈ seen) ∧
    Fresh (if bleAppGapmAdvIsAdvtypeUnique t then t :: seen else seen) ts

theorem fresh_iff {seen ts : List UInt8} : Fresh seen ts ↔
    (∀ t ∈ ts, bleAppGapmAdvIsAdvtypeUnique t → t ∉ seen) ∧
      (ts.filter bleAppGapmAdvIsAdvtypeUnique).Nodup := by
  induction ts generalizing seen with
  | nil => simp [Fresh]
  | cons t ts ih =>
    rw [Fresh, ih]
    by_cases hu : bleAppGapmAdvIsAdvtypeUnique t = true
    · rw [List.forall_mem_cons, List.filter_cons_of_pos hu, List.nodup_cons, List.mem_filter]
      simp only [hu, if_true, true_and, and_true, List.mem_cons, forall_const]
      constructor
      · rintro ⟨hseen, hrest, hnodup⟩
        exact ⟨⟨hseen, fun x hx hux hin => hrest x hx hux (.inr hin)⟩,
          fun hin => hrest t hin hu (.inl rfl), hnodup⟩
      · rintro ⟨⟨hseen, hrest⟩, hnot, hnodup⟩
        refine ⟨hseen, fun x hx hux hin => ?_, hnodup⟩
        rcases hin with rfl | hin
        · exact hnot hx
        · exact hrest x hx hux hin
    · simp [hu]

theorem flags_unique : bleAppGapmAdvIsAdvtypeUnique gapAdTypeFlags = true := by decide

theorem fresh_flags {ts : List UInt8} : Fresh [gapAdTypeFlags] ts ↔ TypesOk ts := by
  rw [fresh_iff, TypesOk]
  refine and_congr_left fun _ => ?_
  constructor
  · exact fun h hin => h _ hin flags_unique List.mem_cons_self
  · rintro h t ht - hflags
    exact h (List.mem_singleton.mp hflags ▸ ht)

theorem starts_of_lt (h : c < n) :
    starts data n c = c :: starts data n (c + ((data c).toNat + 1)) := by
  rw [starts, if_pos h]

theorem starts_of_le (h : n ≤ c) : starts data n c = [] := by
  rw [starts, if_neg (Nat.not_lt.mpr h)]

theorem finish_of_lt (h : c < n) :
    finish data n c = finish data n (c + ((data c).toNat + 1)) := by
  rw [finish, if_pos h]

theorem finish_of_le (h : n ≤ c) : finish data n c = c := by
  rw [finish, if_neg (Nat.not_lt.mpr h)]

variable {f : DupFilter} {seen : List UInt8}

theorem sanityLoop_of_le (h : n ≤ c) : sanityLoop n data c f = ⟨c, []⟩ := by
  rw [sanityLoop, if_neg (Nat.not_lt.mpr h)]

/-- A type that is seen again stops the loop. -/
theorem sanityLoop_of_seen (hf : Marks f seen) (h : c < n)
    (hstop : bleAppGapmAdvIsAdvtypeUnique (typeAt data c) ∧ typeAt data c ∈ seen) :
    sanityLoop n data c f = ⟨c, [c + 1]⟩ := by
  have hbit : gapAdTypeCheckBit f (data (c + 1)) = true := by
    rw [hf]
    exact decide_eq_true hstop.2
  rw [sanityLoop, if_pos h]
  exact if_pos ⟨hstop.1, hbit⟩

/-- Another one is entered in the filter. -/
theorem sanityLoop_of_new (hf : Marks f seen) (h : c < n)
    (hnew : ¬(bleAppGapmAdvIsAdvtypeUnique (typeAt data c) ∧ typeAt data c ∈ seen)) :
    ∃ f', Marks f' (if bleAppGapmAdvIsAdvtypeUnique (typeAt data c) then typeAt data c :: seen
        else seen) ∧
      sanityLoop n data c f = ⟨(sanityLoop n data (c + ((data c).toNat + 1)) f').cursor,
        (c + 1) :: c :: (sanityLoop n data (c + ((data c).toNat + 1)) f').reads⟩ := by
  have hbit : gapAdTypeCheckBit f (data (c + 1)) = decide (typeAt data c ∈ seen) := hf _
  have hgo : ¬(bleAppGapmAdvIsAdvtypeUnique (data (c + 1)) ∧ gapAdTypeCheckBit f (data (c + 1))) :=
    fun hyes => hnew ⟨hyes.1, of_decide_eq_true (hbit ▸ hyes.2)⟩
  rw [sanityLoop, if_pos h]
  dsimp only
  rw [if_neg hgo]
  refine ⟨_, ?_, rfl⟩
  by_cases hu : bleAppGapmAdvIsAdvtypeUnique (data (c + 1)) = true
  · rw [typeAt, if_pos hu, if_pos hu]
    exact hf.set _
  · rw [typeAt, if_neg hu, if_neg hu]
    exact hf

/-- The loop ends where the length bytes lead to, unless it stops at a type. -/
theorem sanityLoop_cursor (hf : Marks f seen) : (sanityLoop n data c f).cursor = n ↔
    finish data n c = n ∧ Fresh seen ((starts data n c).map (typeAt data)) := by
  induction hk : n - c using Nat.strong_induction_on generalizing c f seen with
  | _ k ih =>
    by_cases h : c < n
    · rw [finish_of_lt h, starts_of_lt h, List.map_cons, Fresh]
      by_cases hstop : bleAppGapmAdvIsAdvtypeUnique (typeAt data c) ∧ typeAt data c ∈ seen
      · rw [sanityLoop_of_seen hf h hstop]
        exact ⟨fun heq => absurd heq (Nat.ne_of_lt h), fun hyes => absurd hstop hyes.2.1⟩
      · obtain ⟨f', hf', heq⟩ := sanityLoop_of_new hf h hstop
        rw [heq, and_iff_right hstop]
        exact ih _ (by omega) hf' rfl
    · have hle := Nat.not_lt.mp h
      rw [sanityLoop_of_le hle, finish_of_le hle, starts_of_le hle]
      exact (and_iff_left trivial).symm

/-- The walk from `c` on comes to the last byte, past types at which the loop goes on. -/
def OnLast (data : Buf) (n c : Nat) (seen : List UInt8) : Prop :=
  ∃ pre, ∃ last, starts data n c = pre ++ [last] ∧ Fresh seen (pre.map (typeAt data)) ∧ last + 1 = n

theorem onLast_of_le (h : n ≤ c) : ¬OnLast data n c seen := by
  rintro ⟨pre, last, heq, -⟩
  rw [starts_of_le h] at heq
  exact absurd heq (by simp)

/-- It is there already, or it comes there later. -/
theorem onLast_of_lt (h : c < n) : OnLast data n c seen ↔ c + 1 = n ∨
    ¬(bleAppGapmAdvIsAdvtypeUnique (typeAt data c) ∧ typeAt data c ∈ seen) ∧
      OnLast data n (c + ((data c).toNat + 1))
        (if bleAppGapmAdvIsAdvtypeUnique (typeAt data c) then typeAt data c :: seen else seen) := by
  constructor
  · rintro ⟨pre, last, heq, hfresh, hlast⟩
    rw [starts_of_lt h] at heq
    cases pre with
    | nil =>
      obtain ⟨rfl, -⟩ := List.cons.inj heq
      exact .inl hlast
    | cons x pre =>
      obtain ⟨rfl, hrest⟩ := List.cons.inj heq
      exact .inr ⟨hfresh.1, pre, last, hrest, hfresh.2, hlast⟩
  · rintro (hlast | ⟨hnew, pre, last, heq, hfresh, hlast⟩)
    · refine ⟨[], c, ?_, trivial, hlast⟩
      rw [starts_of_lt h, starts_of_le (by omega)]
      rfl
    · refine ⟨c :: pre, last, ?_, ⟨hnew, hfresh⟩, hlast⟩
      rw [starts_of_lt h, heq]
      rfl

/-- The loop reads inside the data, unless it comes to the last byte. -/
theorem sanityLoop_reads (hf : Marks f seen) :
    (∀ x ∈ (sanityLoop n data c f).reads, x < n) ↔ ¬OnLast data n c seen := by
  induction hk : n - c using Nat.strong_induction_on generalizing c f seen with
  | _ k ih =>
    by_cases h : c < n
    · rw [onLast_of_lt h, not_or]
      by_cases hstop : bleAppGapmAdvIsAdvtypeUnique (typeAt data c) ∧ typeAt data c ∈ seen
      · rw [sanityLoop_of_seen hf h hstop, List.forall_mem_singleton]
        exact ⟨fun hlt => ⟨Nat.ne_of_lt hlt, fun hyes => hyes.1 hstop⟩, fun hyes => by omega⟩
      · obtain ⟨f', hf', heq⟩ := sanityLoop_of_new hf h hstop
        rw [heq, List.forall_mem_cons, List.forall_mem_cons, ih _ (by omega) hf' rfl]
        constructor
        · rintro ⟨hlt, -, hrest⟩
          exact ⟨Nat.ne_of_lt hlt, fun hyes => hrest hyes.2⟩
        · rintro ⟨hne, hrest⟩
          exact ⟨by omega, h, fun hyes => hrest ⟨hstop, hyes⟩⟩
    · have hle := Nat.not_lt.mp h
      rw [sanityLoop_of_le hle]
      exact iff_of_true (fun x hx => absurd hx List.not_mem_nil) (onLast_of_le hle)

/-! ## Structures end to end -/

theorem region_add (c j k : Nat) :
    region data c (j + k) = region data c j ++ region data (c + j) k := by
  rw [region, region, region, ← List.map_append, List.range'_append_1]

theorem region_succ (c k : Nat) : region data c (k + 1) = data c :: region data (c + 1) k := rfl

theorem length_region (c k : Nat) : (region data c k).length = k := by
  rw [region, List.length_map, List.length_range']

/-- The bytes of a structure are where its length byte is. -/
theorem region_structure {a : AdStructure} {k : Nat} {rest : List UInt8}
    (h : region data c k = a.bytes ++ rest) :
    c + ((data c).toNat + 1) ≤ c + k ∧ data c ≠ 0 ∧ typeAt data c = a.type ∧
      region data (c + ((data c).toNat + 1)) (c + k - (c + ((data c).toNat + 1))) = rest := by
  have hfits := a.fits
  have hlen := congrArg List.length h
  rw [length_region, List.length_append] at hlen
  have hbytes : a.bytes.length = a.data.length + 1 + 1 := rfl
  obtain ⟨j, rfl⟩ : ∃ j, k = a.data.length + 1 + 1 + j := ⟨rest.length, by omega⟩
  rw [region_add] at h
  obtain ⟨hhead, hrest⟩ := List.append_inj h (by rw [length_region, hbytes])
  rw [region_succ, region_succ, AdStructure.bytes] at hhead
  obtain ⟨hl, hhead⟩ := List.cons.inj hhead
  obtain ⟨ht, -⟩ := List.cons.inj hhead
  have hnat : (data c).toNat = a.data.length + 1 := by
    rw [hl]
    exact Nat.mod_eq_of_lt (by omega)
  refine ⟨by omega, fun hzero => ?_, ht, ?_⟩
  · rw [hzero] at hnat
    exact absurd hnat (by simp)
  · rw [hnat, show c + (a.data.length + 1 + 1 + j) - (c + (a.data.length + 1 + 1)) = j by omega]
    exact hrest

/-- A length byte that is not zero makes a structure of the bytes behind it. -/
theorem structure_region (h : data c ≠ 0) : ∃ a : AdStructure,
    region data c ((data c).toNat + 1) = a.bytes ∧ a.type = typeAt data c := by
  have hpos : (data c).toNat ≠ 0 := fun hz => h (UInt8.toNat_inj.mp hz)
  have hlt := (data c).toNat_lt
  obtain ⟨k, hk⟩ := Nat.exists_eq_succ_of_ne_zero hpos
  refine ⟨⟨data (c + 1), region data (c + 1 + 1) k, ?_⟩, ?_, rfl⟩
  · rw [length_region]
    omega
  · have hl : data c = UInt8.ofNat ((region data (c + 1 + 1) k).length + 1) := by
      rw [length_region, ← Nat.succ_eq_add_one, ← hk, UInt8.ofNat_toNat]
    rw [hk, region_succ, region_succ]
    exact congrArg (· :: _) hl

/-- Data are structures end to end, when the length bytes lead to their end and none is zero. -/
theorem structures_iff {ts : List UInt8} (h : c ≤ n) :
    (∃ as : List AdStructure, region data c (n - c) = as.flatMap AdStructure.bytes ∧
      as.map (·.type) = ts) ↔
    finish data n c = n ∧ (∀ x ∈ starts data n c, data x ≠ 0) ∧
      (starts data n c).map (typeAt data) = ts := by
  constructor
  · rintro ⟨as, hbytes, rfl⟩
    induction as generalizing c with
    | nil =>
      have hlen := congrArg List.length hbytes
      rw [length_region] at hlen
      have hle : n ≤ c := Nat.le_of_sub_eq_zero hlen
      rw [finish_of_le hle, starts_of_le hle]
      exact ⟨Nat.le_antisymm h hle, fun x hx => absurd hx List.not_mem_nil, rfl⟩
    | cons a as ih =>
      obtain ⟨hle, hne, ht, hrest⟩ := region_structure hbytes
      rw [Nat.add_sub_cancel' h] at hle hrest
      obtain ⟨hfin, hall, htypes⟩ := ih hle hrest
      have hlt : c < n := by omega
      rw [finish_of_lt hlt, starts_of_lt hlt, List.forall_mem_cons, List.map_cons, htypes, ht]
      exact ⟨hfin, ⟨hne, hall⟩, rfl⟩
  · rintro ⟨hfin, hall, rfl⟩
    induction hk : n - c using Nat.strong_induction_on generalizing c with
    | _ k ih =>
      by_cases hlt : c < n
      · rw [finish_of_lt hlt] at hfin
        rw [starts_of_lt hlt, List.forall_mem_cons] at hall
        rw [starts_of_lt hlt, List.map_cons]
        have hle : c + ((data c).toNat + 1) ≤ n := by
          by_contra hover
          rw [finish_of_le (Nat.le_of_not_le hover)] at hfin
          omega
        obtain ⟨as, hbytes, htypes⟩ := ih _ (by omega) hle hfin hall.2 rfl
        obtain ⟨a, ha, hat⟩ := structure_region hall.1
        refine ⟨a :: as, ?_, ?_⟩
        · rw [← hk, List.flatMap_cons, ← hbytes, ← ha, ← region_add]
          congr 1
          omega
        · rw [List.map_cons, hat, htypes]
      · have heq : c = n := Nat.le_antisymm h (Nat.not_lt.mp hlt)
        rw [starts_of_le (Nat.not_lt.mp hlt), ← hk, heq, Nat.sub_self]
        exact ⟨[], rfl, rfl⟩

/-! ## The check decides well-formedness -/

/-- The check reads inside the data and returns 1 just for well-formed data. -/
structure Decides (length : UInt16) (data : Buf) : Prop where
  inside : ∀ x ∈ (sanityScan length data).reads, x < length.toNat
  accepts : sanityStatus length data = 1 ↔ WellFormed (region data 0 length.toNat)

/-- The walk over the length bytes does not come to the last byte, unless a type before it stops
it, and where it leads to the end of the data past types that are fine, no length byte is zero. -/
structure NoneEmpty (length : UInt16) (data : Buf) : Prop where
  last : ∀ pre c, starts data length.toNat 0 = pre ++ [c] → TypesOk (pre.map (typeAt data)) →
    c + 1 ≠ length.toNat
  zero : finish data length.toNat 0 = length.toNat →
    TypesOk ((starts data length.toNat 0).map (typeAt data)) →
    ∀ c ∈ starts data length.toNat 0, data c ≠ 0

theorem sanityStatus_iff (length : UInt16) (data : Buf) : sanityStatus length data = 1 ↔
    finish data length.toNat 0 = length.toNat ∧
      TypesOk ((starts data length.toNat 0).map (typeAt data)) := by
  rw [← fresh_flags, ← sanityLoop_cursor marks_start, sanityStatus, sanityScan]
  by_cases h : (sanityLoop length.toNat data 0 dupFilterStart).cursor = length.toNat
  · simp [h]
  · simp [h]

theorem wellFormed_iff {n : Nat} : WellFormed (region data 0 n) ↔
    finish data n 0 = n ∧ (∀ x ∈ starts data n 0, data x ≠ 0) ∧
      TypesOk ((starts data n 0).map (typeAt data)) := by
  have hiff : ∀ ts, _ ↔ finish data n 0 = n ∧ (∀ x ∈ starts data n 0, data x ≠ 0) ∧
      (starts data n 0).map (typeAt data) = ts := fun ts => structures_iff (Nat.zero_le n)
  rw [Nat.sub_zero] at hiff
  constructor
  · rintro ⟨as, hbytes, hok⟩
    obtain ⟨hfin, hall, htypes⟩ := (hiff _).mp ⟨as, hbytes, rfl⟩
    exact ⟨hfin, hall, htypes ▸ hok⟩
  · rintro ⟨hfin, hall, hok⟩
    obtain ⟨as, hbytes, htypes⟩ := (hiff _).mpr ⟨hfin, hall, rfl⟩
    exact ⟨as, hbytes, htypes ▸ hok⟩

/-- The check decides well-formedness of just the data in which it meets no empty structure and
no lone last byte. -/
theorem decides_iff (length : UInt16) (data : Buf) :
    Decides length data ↔ NoneEmpty length data := by
  have hinside : (∀ x ∈ (sanityScan length data).reads, x < length.toNat) ↔
      ¬OnLast data length.toNat 0 [gapAdTypeFlags] := sanityLoop_reads marks_start
  constructor
  · rintro ⟨hin, hacc⟩
    refine ⟨fun pre c heq hok hlast => ?_, fun hfin hok => ?_⟩
    · exact hinside.mp hin ⟨pre, c, heq, fresh_flags.mpr hok, hlast⟩
    · exact (wellFormed_iff.mp (hacc.mp ((sanityStatus_iff length data).mpr ⟨hfin, hok⟩))).2.1
  · rintro ⟨hlast, hzero⟩
    refine ⟨hinside.mpr ?_, ?_⟩
    · rintro ⟨pre, c, heq, hfresh, hc⟩
      exact hlast pre c heq (fresh_flags.mp hfresh) hc
    · rw [sanityStatus_iff, wellFormed_iff]
      exact ⟨fun h => ⟨h.1, hzero h.1 h.2, h.2⟩, fun h => ⟨h.1, h.2.2⟩⟩

/-- The byte behind a lone zero is read, and the zero is accepted. -/
theorem not_forall_decides : ¬∀ length data, Decides length data := by
  intro h
  have hinside := (h 1 fun _ => 0).inside
  have hreads : (sanityScan 1 fun _ => 0).reads = [1, 0] := by
    simp [sanityScan, sanityLoop, bleAppGapmAdvIsAdvtypeUnique, gapAdTypeFlags]
  rw [hreads] at hinside
  exact absurd (hinside 1 List.mem_cons_self) (by decide)

/-! ## The application -/

/-- The scan ends where the check of `BleApp.Defs` does. -/
theorem sanityLoop_eq (hf : Marks f seen) :
    (sanityLoop n data c f).cursor = checkDataSanityLoop n data c seen := by
  induction hk : n - c using Nat.strong_induction_on generalizing c f seen with
  | _ k ih =>
    rw [checkDataSanityLoop]
    by_cases h : c < n
    · rw [if_pos h]
      by_cases hstop : bleAppGapmAdvIsAdvtypeUnique (typeAt data c) ∧ typeAt data c ∈ seen
      · rw [sanityLoop_of_seen hf h hstop]
        exact ((if_pos hstop.1).trans (if_pos hstop.2)).symm
      · obtain ⟨f', hf', heq⟩ := sanityLoop_of_new hf h hstop
        rw [heq]
        dsimp only
        rw [ih _ (by omega) hf' rfl]
        by_cases hu : bleAppGapmAdvIsAdvtypeUnique (typeAt data c) = true
        · have hnew : typeAt data c ∉ seen := fun hin => hstop ⟨hu, hin⟩
          rw [if_pos hu]
          exact ((if_pos hu).trans (if_neg hnew)).symm
        · rw [if_neg hu]
          exact (if_neg hu).symm
    · rw [if_neg h, sanityLoop_of_le (Nat.not_lt.mp h)]

theorem sanityStatus_eq (length : UInt16) (data : Buf) :
    sanityStatus length data = 1 ↔ bleAppGapmAdvCheckDataSanity length data = true := by
  rw [sanityStatus, sanityScan, bleAppGapmAdvCheckDataSanity, sanityLoop_eq marks_start,
    decide_eq_true_iff]
  split_ifs with h
  · exact iff_of_false (by decide) h
  · exact iff_of_true rfl (not_not.mp h)

/-- `appm_updata_adv_data` refuses what is not well formed. -/
theorem appmUpdataAdvData_refuses {length : UInt16} (h : NoneEmpty length data) (s : State) :
    (appmUpdataAdvData s length data).2 = gapErrAdvDataInvalid ↔
      ¬WellFormed (region data 0 length.toNat) := by
  rw [← ((decides_iff length data).mpr h).accepts, sanityStatus_eq, appmUpdataAdvData]
  by_cases hsane : bleAppGapmAdvCheckDataSanity length data = true
  · rw [if_neg (not_not.mpr hsane)]
    refine iff_of_false ?_ (not_not.mpr hsane)
    split_ifs
    · exact (by decide : gapErrNoError ≠ gapErrAdvDataInvalid)
    · exact (by decide : gapErrCommandDisallowed ≠ gapErrAdvDataInvalid)
  · rw [if_pos hsane]
    exact iff_of_true rfl hsane

end TuyaSdk.BleApp
