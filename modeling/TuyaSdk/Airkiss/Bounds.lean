import TuyaSdk.Airkiss.Window

/-!
# When the decoder stays inside its arrays

`RecvWithin` is the exact condition under which one `airkiss_recv` makes no illegal access: a
frame that is looked at has a source address, the source table has not been filled past its
end, the announced lengths fit, and no group has an index past the width of the map. Every
sequence of calls is legal from start to end exactly when each call meets it (`run_isSome_iff`).
-/

namespace TuyaSdk.Airkiss

open TuyaSdk.Lib TuyaSdk.Lib.Checked

/-! ## The condition -/

/-- The table has an entry for the source. -/
def Knows (srcInfo : Vector SrcInfo maxSrcNum) (macCrc : UInt8) (apSta : Nat) : Prop :=
  ∃ j : Fin maxSrcNum, srcInfo[j].crc = macCrc ∧ srcInfo[j].apSta = apSta

instance (srcInfo : Vector SrcInfo maxSrcNum) (macCrc : UInt8) (apSta : Nat) :
    Decidable (Knows srcInfo macCrc apSta) :=
  inferInstanceAs (Decidable (∃ _ : Fin maxSrcNum, _))

/-- A frame that passes the discovery filter comes from a source whose address is in the frame,
and the table was not filled past its end unless it knows the source. -/
def DiscoverWithin (ak : LocalContext) (frame : Frame) : Prop :=
  airkissDiscoverFilter frame = true →
    ∃ macPtr, (sourceOf frame.hdr).1 = some macPtr ∧
      (ak.srcNum ≤ maxSrcNum ∨
        Knows ak.srcInfo (calcrcBytes macPtr.toList) (sourceOf frame.hdr).2)

/-- A data frame of an admissible length has a source address. -/
def FilterWithin (ak : LocalContext) (frame : Frame) : Prop :=
  macFctrlDataT = frame.hdr.fctl &&& macFctrlTypeMask → ak.baseLen ≤ frame.length.toNat →
    frame.length.toNat ≤ ak.baseLen + 512 → (sourceOf frame.hdr).1.isSome

/-- A prefix code is accepted only for an announced length of at most 124. -/
def PrefixWithin (ak : LocalContext) (length : Nat) : Prop :=
  codeHeaders (prefixWindow ak length) 0x0040 → prefixCrcOk (prefixWindow ak length) →
    ak.totalLen ≤ 124

/-- The group that the window holds is the last one missing. -/
def FillsMap (ak : LocalContext) (record : Vector Nat 7) : Prop :=
  (acceptedGroup ak record).isSome ∧
    ak.seqSuccessMapCmp = mapAfter ak (seqIndex record)

/-- A group's index is inside the width of the map's shift, and the last group is accepted only
where the announced length leaves room for the final NUL and covers the password. -/
def SequenceWithin (ak : LocalContext) (length : Nat) : Prop :=
  seqHeader (seqWindow ak length) →
    seqIndex (seqWindow ak length) < 32 ∧
      (FillsMap ak (seqWindow ak length) → ak.totalLen ≤ 63 ∧ ak.pswdLen ≤ ak.totalLen)

/-- The condition of the state the decoder is in. -/
def DispatchWithin (ak : LocalContext) (frame : Frame) : Prop :=
  match ak.airkissState with
  | .idle => DiscoverWithin ak frame
  | .magicCodeComplete => PrefixWithin ak frame.length.toNat
  | .prefixCodeComplete => SequenceWithin ak frame.length.toNat
  | .stoped | .srcLocked | .complete => True

def RecvWithin (ak : LocalContext) (frame : Frame) : Prop :=
  (ak.airkissState ≠ .idle → FilterWithin ak frame) ∧
    (ak.airkissState = .idle ∨ airkissFilter ak frame = some true → DispatchWithin ak frame)

/-- The condition on a call: the decoder was initialised and a received frame is within. -/
def CallWithin : Option LocalContext → Call → Prop
  | _, .init _ _ => True
  | none, _ => False
  | some _, .changeChannel => True
  | some ak, .recv frame => RecvWithin ak frame

/-! ## The invariant -/

/-- What every state of a run satisfies: the bounds on the counters that the indices are
computed from. -/
structure Inv (ak : LocalContext) : Prop where
  srcNum_le : ak.srcNum ≤ maxSrcNum + 1
  totalLen_le : ak.totalLen ≤ 127
  pswdLen_le : ak.pswdLen ≤ passwordMaxLen

theorem Inv.idle : Inv { LocalContext.zero with airkissState := .idle } :=
  ⟨Nat.zero_le _, Nat.zero_le _, Nat.zero_le _⟩

/-! ## Discovery -/

theorem findSrc_isSome {srcInfo : Vector SrcInfo maxSrcNum} {macCrc : UInt8} {apSta i rest : Nat}
    (hi : i ≤ maxSrcNum) :
    (findSrc srcInfo macCrc apSta i rest).isSome ↔
      i + rest ≤ maxSrcNum ∨
        ∃ j : Fin maxSrcNum, i ≤ j ∧ srcInfo[j].crc = macCrc ∧ srcInfo[j].apSta = apSta := by
  induction rest generalizing i with
  | zero => simp [findSrc, hi]
  | succ rest ih =>
    rw [findSrc, isSome_bind]
    by_cases hlt : i < maxSrcNum
    · have hread : read srcInfo i = some srcInfo[i] := read_eq hlt
      by_cases hm : srcInfo[i].crc = macCrc ∧ srcInfo[i].apSta = apSta
      · exact iff_of_true ⟨_, hread, by rw [if_pos hm]; rfl⟩ (Or.inr ⟨⟨i, hlt⟩, le_rfl, hm⟩)
      · constructor
        · rintro ⟨info, hinfo, h⟩
          cases hread.symm.trans hinfo
          rw [if_neg hm] at h
          rcases (ih hlt).mp h with hle | ⟨j, hj, hjm⟩
          · exact Or.inl (by omega)
          · exact Or.inr ⟨j, by omega, hjm⟩
        · intro h
          refine ⟨_, hread, ?_⟩
          rw [if_neg hm]
          refine (ih hlt).mpr ?_
          rcases h with hle | ⟨j, hj, hjm⟩
          · exact Or.inl (by omega)
          · rcases Nat.lt_or_ge i j with hij | hij
            · exact Or.inr ⟨j, hij, hjm⟩
            · have hji : i = j.1 := by omega
              subst hji
              exact absurd hjm hm
    · constructor
      · rintro ⟨info, hinfo, -⟩
        exact absurd (read_isSome.mp (by rw [hinfo]; rfl)) hlt
      · rintro (hle | ⟨j, hj, -⟩)
        · omega
        · have := j.2
          omega

theorem findSrc_lt {srcInfo : Vector SrcInfo maxSrcNum} {macCrc : UInt8} {apSta i rest j : Nat}
    (h : findSrc srcInfo macCrc apSta i rest = some (some j)) :
    j < maxSrcNum ∧ i ≤ j ∧ j < i + rest := by
  induction rest generalizing i with
  | zero => cases h
  | succ rest ih =>
    rw [findSrc] at h
    obtain ⟨info, hread, h⟩ := Option.bind_eq_some_iff.mp h
    split at h
    · cases h
      exact ⟨read_isSome.mp (by rw [hread]; rfl), le_rfl, by omega⟩
    · obtain ⟨h₁, h₂, h₃⟩ := ih h
      exact ⟨h₁, by omega, by omega⟩

theorem findSrc_none {srcInfo : Vector SrcInfo maxSrcNum} {macCrc : UInt8} {apSta i rest : Nat}
    (hi : i ≤ maxSrcNum) (h : findSrc srcInfo macCrc apSta i rest = some none) :
    i + rest ≤ maxSrcNum := by
  induction rest generalizing i with
  | zero => exact hi
  | succ rest ih =>
    rw [findSrc] at h
    obtain ⟨info, hread, h⟩ := Option.bind_eq_some_iff.mp h
    have hlt : i < maxSrcNum := read_isSome.mp (by rw [hread]; rfl)
    split at h
    · cases h
    · have := ih hlt h
      omega

theorem leastReceived_eq {srcInfo : Vector SrcInfo maxSrcNum} {i rest minRevCnt minIdx : Nat}
    (hrest : i + rest ≤ maxSrcNum) (hmin : minIdx < maxSrcNum) :
    ∃ j, leastReceived srcInfo i rest minRevCnt minIdx = some j ∧ j < maxSrcNum := by
  induction rest generalizing i minRevCnt minIdx with
  | zero => exact ⟨minIdx, rfl, hmin⟩
  | succ rest ih =>
    rw [leastReceived, read_eq (by omega)]
    simp only [Option.bind_eq_bind, Option.bind_some]
    split
    · exact ih (by omega) (by omega)
    · exact ih (by omega) hmin

theorem knownSrc_isSome {ak : LocalContext} {i fLen fSeq : Nat} (hi : i < maxSrcNum) :
    (knownSrc ak i fLen fSeq).isSome := by
  rw [knownSrc]
  refine isSome_bind.mpr ⟨_, read_eq hi, ?_⟩
  split
  · rfl
  · refine isSome_bind.mpr ⟨_, write_eq hi, ?_⟩
    split <;> rfl

theorem newSrc_isSome {ak : LocalContext} {macCrc : UInt8} {apSta fLen fSeq : Nat}
    (hle : ak.srcNum ≤ maxSrcNum) : (newSrc ak macCrc apSta fLen fSeq).isSome := by
  have hidx : ∃ i, newSrcIdx ak = some i ∧ i < maxSrcNum := by
    rw [newSrcIdx]
    split
    · exact leastReceived_eq (Nat.le_of_eq (Nat.zero_add _)) (Nat.succ_pos 9)
    · exact ⟨ak.srcNum, rfl, by omega⟩
  obtain ⟨i, hi, hlt⟩ := hidx
  exact isSome_bind.mpr ⟨i, hi, isSome_bind.mpr ⟨_, write_eq hlt, rfl⟩⟩

/-- The table is updated or extended unless the search runs off its end. -/
theorem airkissAddSrcMacinfo_isSome {ak : LocalContext} {macCrc : UInt8}
    {apSta fLen fSeq : Nat} :
    (airkissAddSrcMacinfo ak macCrc apSta fLen fSeq).isSome ↔
      ak.srcNum ≤ maxSrcNum ∨ Knows ak.srcInfo macCrc apSta := by
  have hfind : (findSrc ak.srcInfo macCrc apSta 0 ak.srcNum).isSome ↔
      ak.srcNum ≤ maxSrcNum ∨ Knows ak.srcInfo macCrc apSta := by
    rw [findSrc_isSome (Nat.zero_le _), Nat.zero_add]
    simp [Knows]
  rw [← hfind, airkissAddSrcMacinfo, isSome_bind]
  constructor
  · rintro ⟨r, hr, -⟩
    rw [hr]
    rfl
  · intro h
    obtain ⟨r, hr⟩ := Option.isSome_iff_exists.mp h
    refine ⟨r, hr, ?_⟩
    cases r with
    | some j => exact knownSrc_isSome (findSrc_lt hr).1
    | none =>
      have hle := findSrc_none (Nat.zero_le _) hr
      rw [Nat.zero_add] at hle
      obtain ⟨ak', hak⟩ := Option.isSome_iff_exists.mp (newSrc_isSome hle)
      exact isSome_bind.mpr ⟨ak', hak, rfl⟩

theorem Inv.knownSrc {ak ak' : LocalContext} {i fLen fSeq : Nat} {locked : Bool} (hI : Inv ak)
    (h : knownSrc ak i fLen fSeq = some (ak', locked)) : Inv ak' := by
  obtain ⟨info, -, h⟩ := Option.bind_eq_some_iff.mp h
  split at h
  · cases h
    exact hI
  · obtain ⟨srcInfo, -, h⟩ := Option.bind_eq_some_iff.mp h
    split at h <;> cases h <;> exact ⟨hI.srcNum_le, hI.totalLen_le, hI.pswdLen_le⟩

theorem Inv.newSrc {ak ak' : LocalContext} {macCrc : UInt8} {apSta fLen fSeq : Nat} (hI : Inv ak)
    (hle : ak.srcNum ≤ maxSrcNum) (h : newSrc ak macCrc apSta fLen fSeq = some ak') :
    Inv ak' := by
  obtain ⟨i, -, h⟩ := Option.bind_eq_some_iff.mp h
  obtain ⟨srcInfo, -, h⟩ := Option.bind_eq_some_iff.mp h
  cases h
  refine ⟨?_, hI.totalLen_le, hI.pswdLen_le⟩
  exact le_trans (Nat.mod_le _ _) (by omega)

/-- The number of entries passes the maximum by at most one. -/
theorem Inv.airkissAddSrcMacinfo {ak ak' : LocalContext} {macCrc : UInt8}
    {apSta fLen fSeq : Nat} {locked : Bool} (hI : Inv ak)
    (h : airkissAddSrcMacinfo ak macCrc apSta fLen fSeq = some (ak', locked)) : Inv ak' := by
  obtain ⟨r, hr, h⟩ := Option.bind_eq_some_iff.mp h
  cases r with
  | some j => exact hI.knownSrc h
  | none =>
    have hle := findSrc_none (Nat.zero_le _) hr
    rw [Nat.zero_add] at hle
    obtain ⟨ak₁, hnew, h⟩ := Option.bind_eq_some_iff.mp h
    cases h
    exact hI.newSrc hle hnew

theorem airkissRecvDiscover_isSome {ak : LocalContext} {frame : Frame} :
    (airkissRecvDiscover ak frame).isSome ↔
      ∃ macPtr, (sourceOf frame.hdr).1 = some macPtr ∧
        (ak.srcNum ≤ maxSrcNum ∨
          Knows ak.srcInfo (calcrcBytes macPtr.toList) (sourceOf frame.hdr).2) := by
  rw [airkissRecvDiscover]
  cases hsrc : (sourceOf frame.hdr).1 with
  | none => simp [hsrc, calcrcMac]
  | some macPtr =>
    have hcrc : calcrcMac (sourceOf frame.hdr).1 = some (calcrcBytes macPtr.toList) := by
      rw [hsrc]
      rfl
    simp only [Option.some.injEq, exists_eq_left']
    rw [isSome_bind, ← airkissAddSrcMacinfo_isSome]
    constructor
    · rintro ⟨crc, hc, h⟩
      cases hcrc.symm.trans hc
      obtain ⟨r, hr, -⟩ := isSome_bind.mp h
      rw [hr]
      rfl
    · intro h
      obtain ⟨r, hr⟩ := Option.isSome_iff_exists.mp h
      refine ⟨_, hcrc, isSome_bind.mpr ⟨r, hr, ?_⟩⟩
      split <;> rfl

theorem Inv.airkissRecvDiscover {ak ak' : LocalContext} {frame : Frame} {locked : Bool}
    (hI : Inv ak) (h : airkissRecvDiscover ak frame = some (ak', locked)) : Inv ak' := by
  obtain ⟨macCrc, -, h⟩ := Option.bind_eq_some_iff.mp h
  obtain ⟨⟨ak₁, success⟩, hadd, h⟩ := Option.bind_eq_some_iff.mp h
  have hI₁ := hI.airkissAddSrcMacinfo hadd
  cases success with
  | true =>
    cases h
    exact ⟨Nat.zero_le _, hI₁.totalLen_le, hI₁.pswdLen_le⟩
  | false =>
    cases h
    exact hI₁

/-! ## The filter after discovery -/

theorem airkissFilter_isSome {ak : LocalContext} {frame : Frame} :
    (airkissFilter ak frame).isSome ↔ FilterWithin ak frame := by
  rw [airkissFilter]
  by_cases hdata : macFctrlDataT ≠ frame.hdr.fctl &&& macFctrlTypeMask
  · simp only [if_pos hdata]
    exact iff_of_true rfl fun h => absurd h hdata
  by_cases hsize : frame.length.toNat < ak.baseLen ∨ ak.baseLen + 512 < frame.length.toNat
  · simp only [if_neg hdata, if_pos hsize]
    exact iff_of_true rfl fun _ _ _ => by omega
  simp only [if_neg hdata, if_neg hsize]
  by_cases hfrom : frame.hdr.fctl &&& macFctrlTodsFromds = macFctrlFromds
  · have hsrc : (sourceOf frame.hdr).1 = some frame.hdr.addr3 := by rw [sourceOf, if_pos hfrom]
    simp only [if_pos hfrom]
    refine iff_of_true ?_ fun _ _ _ => by rw [hsrc]; rfl
    split <;> rfl
  by_cases hto : frame.hdr.fctl &&& macFctrlTodsFromds = macFctrlTods
  · have hsrc : (sourceOf frame.hdr).1 = some frame.hdr.addr2 := by
      rw [sourceOf, if_neg hfrom, if_pos hto]
    simp only [if_neg hfrom, if_pos hto]
    refine iff_of_true ?_ fun _ _ _ => by rw [hsrc]; rfl
    split <;> rfl
  · have hsrc : (sourceOf frame.hdr).1 = none := by rw [sourceOf, if_neg hfrom, if_neg hto]
    simp only [if_neg hfrom, if_neg hto]
    refine iff_of_false (by simp [calcrcMac]) fun h => ?_
    have := h (not_not.mp hdata) (by omega) (by omega)
    rw [hsrc] at this
    cases this

/-! ## The phases -/

theorem Inv.magicFound {ak : LocalContext} (hI : Inv ak) (record : Vector Nat 5) :
    Inv (magicFound ak record) := by
  have htotal : ((record[0] &&& 0x0007) <<< 4) + (record[1] &&& 0x000F) ≤ 127 := by
    have h₀ : record[0] &&& 0x0007 ≤ 7 := Nat.and_le_right
    have h₁ : record[1] &&& 0x000F ≤ 15 := Nat.and_le_right
    rw [Nat.shiftLeft_eq]
    omega
  exact ⟨Nat.zero_le _, htotal, hI.pswdLen_le⟩

theorem airkissProcessMagicCode_inv {ak ak' : LocalContext} {length : Nat} (hI : Inv ak)
    (h : airkissProcessMagicCode ak length = some ak') : Inv ak' := by
  rw [airkissProcessMagicCode_eq] at h
  cases h
  split
  · exact hI.magicFound _
  · exact ⟨hI.srcNum_le, hI.totalLen_le, hI.pswdLen_le⟩

theorem prefixPswdLen_le (record : Vector Nat 5) : prefixPswdLen record ≤ passwordMaxLen := by
  unfold prefixPswdLen
  simp only
  split <;> omega

theorem airkissProcessPrefixCode_isSome {ak : LocalContext} {length : Nat} :
    (airkissProcessPrefixCode ak length).isSome ↔ PrefixWithin ak length := by
  rw [airkissProcessPrefixCode_eq, PrefixWithin]
  by_cases hh : codeHeaders (prefixWindow ak length) 0x0040
  · by_cases hc : prefixCrcOk (prefixWindow ak length)
    · rw [if_pos hh, if_pos hc, Option.isSome_map, shl_isSome]
      constructor
      · intro h _ _
        omega
      · intro h
        have := h hh hc
        omega
    · rw [if_pos hh, if_neg hc]
      exact iff_of_true rfl fun _ h => absurd h hc
  · rw [if_neg hh]
    exact iff_of_true rfl fun h => absurd h hh

theorem airkissProcessPrefixCode_inv {ak ak' : LocalContext} {length : Nat} (hI : Inv ak)
    (h : airkissProcessPrefixCode ak length = some ak') : Inv ak' := by
  rw [airkissProcessPrefixCode_eq] at h
  split at h
  · split at h
    · obtain ⟨bit, -, rfl⟩ := Option.map_eq_some_iff.mp h
      exact ⟨Nat.zero_le _, hI.totalLen_le, prefixPswdLen_le _⟩
    · cases h
      exact ⟨Nat.zero_le _, hI.totalLen_le, prefixPswdLen_le _⟩
  · cases h
    exact ⟨hI.srcNum_le, hI.totalLen_le, hI.pswdLen_le⟩

/-- The last step reads the announced bytes and writes a NUL one place behind them. -/
theorem airkissSplit_isSome {ak : LocalContext} (hI : Inv ak) :
    (airkissSplit ak).isSome ↔ ak.totalLen ≤ 63 ∧ ak.pswdLen ≤ ak.totalLen := by
  have htotal := hI.totalLen_le
  have hpswd : ak.pswdLen ≤ 32 := hI.pswdLen_le
  have h65 : usrDataBuffMaxSize = 65 := rfl
  rw [airkissSplit]
  constructor
  · intro h
    obtain ⟨_, -, h⟩ := isSome_bind.mp h
    obtain ⟨_, -, h⟩ := isSome_bind.mp h
    obtain ⟨usrData, -, h⟩ := isSome_bind.mp h
    obtain ⟨_, hw, -⟩ := isSome_bind.mp h
    have hlt : ak.pswdLen + 1 + (ak.totalLen + 256 - ak.pswdLen) % 256 < usrDataBuffMaxSize :=
      write_isSome.mp (by rw [hw]; rfl)
    omega
  · rintro ⟨h₁, h₂⟩
    refine isSome_bind.mpr ⟨_, readAll_eq (by omega), ?_⟩
    refine isSome_bind.mpr ⟨_, read_eq (by omega), ?_⟩
    refine isSome_bind.mpr ⟨_, write_eq (by omega), ?_⟩
    exact isSome_bind.mpr ⟨_, write_eq (by omega), rfl⟩

/-- What the last step leaves alone, and the length of the SSID it computes. -/
theorem airkissSplit_fields {ak ak' : LocalContext} (h : airkissSplit ak = some ak') :
    ak'.srcNum = ak.srcNum ∧ ak'.totalLen = ak.totalLen ∧ ak'.pswdLen = ak.pswdLen ∧
      ak'.airkissState = .complete ∧
      ak'.ssidLen = (ak.totalLen + 256 - ak.pswdLen) % 256 := by
  obtain ⟨_, -, h⟩ := Option.bind_eq_some_iff.mp h
  obtain ⟨_, -, h⟩ := Option.bind_eq_some_iff.mp h
  obtain ⟨_, -, h⟩ := Option.bind_eq_some_iff.mp h
  obtain ⟨_, -, h⟩ := Option.bind_eq_some_iff.mp h
  cases h
  exact ⟨rfl, rfl, rfl, rfl, rfl⟩

theorem airkissProcessSequence_isSome {ak : LocalContext} {length : Nat} (hI : Inv ak) :
    (airkissProcessSequence ak length).isSome ↔ SequenceWithin ak length := by
  rw [SequenceWithin]
  by_cases hh : seqHeader (seqWindow ak length)
  · by_cases hidx : seqIndex (seqWindow ak length) < 32
    · rcases airkissProcessSequence_eq hh hidx with ⟨hnone, heq⟩ | ⟨hsome, usrData, heq⟩
      · refine iff_of_true (by rw [heq]; rfl) fun _ => ⟨hidx, fun hf => ?_⟩
        have hgroup := hf.1
        rw [hnone] at hgroup
        cases hgroup
      · rw [heq]
        by_cases hfull : ak.seqSuccessMapCmp = mapAfter ak (seqIndex (seqWindow ak length))
        · have hI' : Inv (airkissResestData { ak with
              usrData := usrData
              seqSuccessMap := mapAfter ak (seqIndex (seqWindow ak length)) }) :=
            ⟨Nat.zero_le _, hI.totalLen_le, hI.pswdLen_le⟩
          rw [if_pos hfull, airkissSplit_isSome hI']
          exact ⟨fun h _ => ⟨hidx, fun _ => h⟩, fun h => (h hh).2 ⟨hsome, hfull⟩⟩
        · rw [if_neg hfull]
          exact iff_of_true rfl fun _ => ⟨hidx, fun hf => absurd hf.2 hfull⟩
    · rw [airkissProcessSequence_width hh hidx]
      exact iff_of_false (by simp) fun h => hidx (h hh).1
  · rw [airkissProcessSequence_idle (by simpa using hh)]
    exact iff_of_true rfl fun h => absurd h hh

/-- What a sequence frame leaves alone, and the length of the SSID if it was the last. -/
theorem airkissProcessSequence_fields {ak ak' : LocalContext} {length : Nat}
    (h : airkissProcessSequence ak length = some ak') :
    (ak'.srcNum = ak.srcNum ∨ ak'.srcNum = 0) ∧ ak'.totalLen = ak.totalLen ∧
      ak'.pswdLen = ak.pswdLen ∧
      (ak'.airkissState = ak.airkissState ∨ ak'.airkissState = .complete ∧
        ak'.ssidLen = (ak.totalLen + 256 - ak.pswdLen) % 256) := by
  by_cases hh : seqHeader (seqWindow ak length)
  · by_cases hidx : seqIndex (seqWindow ak length) < 32
    · rcases airkissProcessSequence_eq hh hidx with ⟨-, heq⟩ | ⟨-, usrData, heq⟩
      · cases heq.symm.trans h
        exact ⟨Or.inl rfl, rfl, rfl, Or.inl rfl⟩
      · rw [heq] at h
        split at h
        · obtain ⟨hnum, htotal, hpswd, hssid⟩ := airkissSplit_fields h
          exact ⟨Or.inr hnum, htotal, hpswd, Or.inr hssid⟩
        · cases h
          exact ⟨Or.inr rfl, rfl, rfl, Or.inl rfl⟩
    · rw [airkissProcessSequence_width hh hidx] at h
      cases h
  · rw [airkissProcessSequence_idle (by simpa using hh)] at h
    cases h
    exact ⟨Or.inl rfl, rfl, rfl, Or.inl rfl⟩

theorem airkissProcessSequence_inv {ak ak' : LocalContext} {length : Nat} (hI : Inv ak)
    (h : airkissProcessSequence ak length = some ak') : Inv ak' := by
  obtain ⟨hnum, htotal, hpswd, -⟩ := airkissProcessSequence_fields h
  refine ⟨?_, htotal ▸ hI.totalLen_le, hpswd ▸ hI.pswdLen_le⟩
  rcases hnum with hnum | hnum
  · exact hnum ▸ hI.srcNum_le
  · exact hnum ▸ Nat.zero_le _

/-! ## One call and every run -/

theorem airkissDispatch_isSome {ak : LocalContext} {frame : Frame} (hI : Inv ak) :
    (airkissDispatch ak frame).isSome ↔ DispatchWithin ak frame := by
  rw [airkissDispatch, DispatchWithin]
  cases ak.airkissState with
  | idle =>
    simp only [DiscoverWithin]
    split
    · next hpass =>
      rw [isSome_bind, ← airkissRecvDiscover_isSome]
      simp only [hpass, true_implies]
      constructor
      · rintro ⟨r, hr, -⟩
        rw [hr]
        rfl
      · intro h
        obtain ⟨r, hr⟩ := Option.isSome_iff_exists.mp h
        exact ⟨r, hr, rfl⟩
    · next hpass => exact iff_of_true rfl fun h => absurd h hpass
  | srcLocked =>
    rw [airkissProcessMagicCode_eq]
    exact iff_of_true rfl trivial
  | magicCodeComplete =>
    rw [← airkissProcessPrefixCode_isSome, isSome_bind]
    exact ⟨fun ⟨a, ha, _⟩ => by rw [ha]; rfl,
      fun h => (Option.isSome_iff_exists.mp h).imp fun a ha => ⟨ha, rfl⟩⟩
  | prefixCodeComplete =>
    rw [← airkissProcessSequence_isSome hI, isSome_bind]
    exact ⟨fun ⟨a, ha, _⟩ => by rw [ha]; rfl,
      fun h => (Option.isSome_iff_exists.mp h).imp fun a ha => ⟨ha, rfl⟩⟩
  | stoped => exact iff_of_true rfl trivial
  | complete => exact iff_of_true rfl trivial

theorem airkissDispatch_inv {ak ak' : LocalContext} {frame : Frame} {status : AirkissStatus}
    (hI : Inv ak) (h : airkissDispatch ak frame = some (ak', status)) : Inv ak' := by
  rw [airkissDispatch] at h
  split at h
  · split at h
    · obtain ⟨⟨ak₁, locked⟩, hd, h⟩ := Option.bind_eq_some_iff.mp h
      cases h
      exact hI.airkissRecvDiscover hd
    · cases h
      exact hI
  · obtain ⟨ak₁, hm, h⟩ := Option.bind_eq_some_iff.mp h
    cases h
    exact airkissProcessMagicCode_inv hI hm
  · obtain ⟨ak₁, hp, h⟩ := Option.bind_eq_some_iff.mp h
    cases h
    exact airkissProcessPrefixCode_inv hI hp
  · obtain ⟨ak₁, hq, h⟩ := Option.bind_eq_some_iff.mp h
    cases h
    exact airkissProcessSequence_inv hI hq
  · cases h
    exact ⟨hI.srcNum_le, hI.totalLen_le, hI.pswdLen_le⟩
  · cases h
    exact ⟨hI.srcNum_le, hI.totalLen_le, hI.pswdLen_le⟩

theorem airkissRecv_isSome {ak : LocalContext} {frame : Frame} (hI : Inv ak) :
    (airkissRecv ak frame).isSome ↔ RecvWithin ak frame := by
  rw [airkissRecv, RecvWithin]
  by_cases hidle : ak.airkissState = .idle
  · simp only [hidle, ne_eq, not_true_eq_false, if_false, true_or, true_implies, false_implies,
      true_and]
    exact airkissDispatch_isSome hI
  · simp only [hidle, ne_eq, not_false_eq_true, if_true, false_or, true_implies]
    rw [isSome_bind, ← airkissFilter_isSome]
    constructor
    · rintro ⟨pass, hpass, h⟩
      refine ⟨by rw [hpass]; rfl, fun ht => ?_⟩
      cases ht.symm.trans hpass
      exact (airkissDispatch_isSome hI).mp h
    · rintro ⟨hf, hd⟩
      obtain ⟨pass, hpass⟩ := Option.isSome_iff_exists.mp hf
      refine ⟨pass, hpass, ?_⟩
      cases pass with
      | false => rfl
      | true => exact (airkissDispatch_isSome hI).mpr (hd hpass)

theorem airkissRecv_inv {ak ak' : LocalContext} {frame : Frame} {status : AirkissStatus}
    (hI : Inv ak) (h : airkissRecv ak frame = some (ak', status)) : Inv ak' := by
  rw [airkissRecv] at h
  split at h
  · obtain ⟨pass, -, h⟩ := Option.bind_eq_some_iff.mp h
    split at h
    · exact airkissDispatch_inv hI h
    · cases h
      exact hI
  · exact airkissDispatch_inv hI h

/-- The invariant of a context that was set. -/
def SetInv (akcontext : Option LocalContext) : Prop := ∀ ak, akcontext = some ak → Inv ak

theorem step_isSome {akcontext : Option LocalContext} {call : Call} (hI : SetInv akcontext) :
    (step akcontext call).isSome ↔ CallWithin akcontext call := by
  cases call with
  | init context config => exact iff_of_true rfl trivial
  | changeChannel =>
    cases akcontext with
    | none => exact iff_of_false (by simp [step]) id
    | some ak => exact iff_of_true rfl trivial
  | recv frame =>
    cases akcontext with
    | none => exact iff_of_false (by simp [step]) id
    | some ak =>
      rw [CallWithin, ← airkissRecv_isSome (hI ak rfl), step, Option.isSome_map]

theorem step_inv {akcontext akcontext' : Option LocalContext} {call : Call} {r : Int}
    (hI : SetInv akcontext) (h : step akcontext call = some (akcontext', r)) :
    SetInv akcontext' := by
  intro ak' hak'
  subst hak'
  cases call with
  | init context config =>
    rw [step, airkissInit] at h
    split at h <;> cases h
    · exact Inv.idle
    · exact hI ak' rfl
  | changeChannel =>
    cases akcontext with
    | none => cases h
    | some ak =>
      cases h
      exact Inv.idle
  | recv frame =>
    cases akcontext with
    | none => cases h
    | some ak =>
      obtain ⟨⟨ak₁, status⟩, hr, h⟩ := Option.map_eq_some_iff.mp h
      cases h
      exact airkissRecv_inv (hI ak rfl) hr

/-- Every sequence of calls makes only legal accesses if and only if each of its calls meets
the condition on it in the state it is made in. -/
theorem run_isSome_iff_callWithin (calls : List Call) :
    (Machine.run step none calls).isSome ↔ Machine.Legal step CallWithin none calls := by
  have hnone : SetInv none := fun _ h => by cases h
  exact Machine.run_isSome_iff (I := SetInv) (fun _ _ hI => step_isSome hI)
    (fun _ _ _ _ hI h => step_inv hI h) hnone

/-- A data frame between two stations of an ad hoc network has neither direction bit: right
after `airkiss_init` its source address is read through a pointer that was not set. -/
def adHocFrame : Frame where
  hdr :=
    { fctl := 0x0008
      addr2 := #v[0x00, 0x11, 0x22, 0x33, 0x44, 0x55]
      addr3 := #v[0x02, 0x00, 0x00, 0x00, 0x00, 0x01]
      seq := 0x0010 }
  length := 100

theorem not_forall_run_isSome :
    ¬∀ frames : List Frame, (∀ frame ∈ frames, 24 ≤ frame.length.toNat) →
      (Machine.run step none (.init true true :: frames.map .recv)).isSome := by
  intro h
  have := h [adHocFrame] (by decide)
  exact absurd this (by decide +kernel)

end TuyaSdk.Airkiss
