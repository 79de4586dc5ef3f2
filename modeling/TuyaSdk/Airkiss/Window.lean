import TuyaSdk.Airkiss.Defs

/-!
# The record window

`airkiss_record_move_ones` after the last record was written: the records move down by one and
the new one comes in behind them, so that the first `n` records are the last `n` lengths.
-/

namespace TuyaSdk.Airkiss

open TuyaSdk.Lib.Checked

/-- The records after one more length, the last of them twice. -/
def nextWindow {n : Nat} (record : Vector Nat (n + 1)) (value : Nat) : Vector Nat (n + 1) :=
  Vector.ofFn fun i => if h : i.1 + 1 < n then record[i.1 + 1] else value

theorem airkissRecordMoveOnes_eq {n : Nat} (record : Vector Nat (n + 1)) {k : Nat} (hk : k ≤ n) :
    airkissRecordMoveOnes record k =
      some (Vector.ofFn fun i => if h : i.1 < k then record[i.1 + 1] else record[i.1]) := by
  induction k with
  | zero =>
    rw [airkissRecordMoveOnes]
    congr 1
    ext i hi
    simp
  | succ k ih =>
    rw [airkissRecordMoveOnes, ih (by omega)]
    simp only [Option.bind_eq_bind, Option.bind_some]
    rw [read_eq (by omega), Option.bind_some, write_eq (by omega)]
    congr 1
    ext i hi
    rw [Vector.getElem_set, Vector.getElem_ofFn, Vector.getElem_ofFn]
    by_cases hik : k = i
    · subst hik
      have : ¬k + 1 < k := by omega
      simp [this]
    · by_cases hlt : i < k
      · have hlt' : i < k + 1 := by omega
        rw [if_neg hik, dif_pos hlt, Vector.getElem_ofFn, dif_pos hlt']
      · have hlt' : ¬i < k + 1 := by omega
        rw [if_neg hik, dif_neg hlt, Vector.getElem_ofFn, dif_neg hlt']

theorem airkissRecordMoveOnes_set {n : Nat} (record : Vector Nat (n + 1)) (value : Nat) :
    airkissRecordMoveOnes (record.set n value) n = some (nextWindow record value) := by
  rw [airkissRecordMoveOnes_eq _ le_rfl]
  congr 1
  ext i hi
  rw [nextWindow, Vector.getElem_ofFn, Vector.getElem_ofFn]
  by_cases hlt : i + 1 < n
  · simp [hlt, show i < n by omega, show ¬n = i + 1 by omega]
  · by_cases hin : i < n
    · have : n = i + 1 := by omega
      subst this
      simp
    · have hi : n = i := by omega
      subst hi
      have : ¬n + 1 < n := by omega
      simp [this]

/-- A code's headers stand on the window that the frame of the length completes. -/
def magicWindow (ak : LocalContext) (length : Nat) : Vector Nat 5 :=
  nextWindow ak.magicCode (recordOf length ak.baseLen)

def prefixWindow (ak : LocalContext) (length : Nat) : Vector Nat 5 :=
  nextWindow ak.prefixCode (recordOf length ak.baseLen)

def seqWindow (ak : LocalContext) (length : Nat) : Vector Nat 7 :=
  nextWindow ak.seqCode (recordOf length ak.baseLen)

theorem airkissProcessMagicCode_eq (ak : LocalContext) (length : Nat) :
    airkissProcessMagicCode ak length =
      some (if codeHeaders (magicWindow ak length) 0x0000 then
        magicFound ak (magicWindow ak length)
      else { ak with magicCode := magicWindow ak length }) := by
  have hw : airkissRecordMoveOnes
      (ak.magicCode.set maxMagicCodeRecord (recordOf length ak.baseLen)) maxMagicCodeRecord =
        some (magicWindow ak length) := airkissRecordMoveOnes_set _ _
  rw [airkissProcessMagicCode, hw]
  simp only [Option.bind_eq_bind, Option.bind_some]
  split <;> rfl

/-- What `airkiss_process_prefix_code` leaves when the headers match and the checksum is
right, for the shifted bit of the last group. -/
def prefixFound (ak : LocalContext) (record : Vector Nat 5) (bit : Nat) : LocalContext :=
  airkissResestData { ak with
    pswdLen := prefixPswdLen record
    pswdLencrc := prefixPswdLencrc record
    airkissState := .prefixCodeComplete
    needSeq := (ak.totalLen + 3) / 4
    seqSuccessMapCmp := (bit - 1) % 0x10000 }

/-- What it leaves when only the headers match. -/
def prefixRejected (ak : LocalContext) (record : Vector Nat 5) : LocalContext :=
  airkissResestData { ak with
    pswdLen := prefixPswdLen record
    pswdLencrc := prefixPswdLencrc record }

theorem airkissProcessPrefixCode_eq (ak : LocalContext) (length : Nat) :
    airkissProcessPrefixCode ak length =
      if codeHeaders (prefixWindow ak length) 0x0040 then
        if prefixCrcOk (prefixWindow ak length) then
          (shl 32 1 ((ak.totalLen + 3) / 4)).map (prefixFound ak (prefixWindow ak length))
        else some (prefixRejected ak (prefixWindow ak length))
      else some { ak with prefixCode := prefixWindow ak length } := by
  have hw : airkissRecordMoveOnes
      (ak.prefixCode.set maxPrefixCodeRecord (recordOf length ak.baseLen)) maxPrefixCodeRecord =
        some (prefixWindow ak length) := airkissRecordMoveOnes_set _ _
  rw [airkissProcessPrefixCode, hw]
  simp only [Option.bind_eq_bind, Option.bind_some]
  split
  · split
    · cases shl 32 1 ((ak.totalLen + 3) / 4) <;> rfl
    · rfl
  · rfl

/-! ## Sequence groups -/

/-- The map of the received groups after one more. -/
def mapAfter (ak : LocalContext) (seq : Nat) : Nat :=
  if seq < ak.needSeq ∧ seq * 4 + 4 ≤ usrDataBuffMaxSize then ak.seqSuccessMap ||| (1 <<< seq)
  else ak.seqSuccessMap

theorem seqByteOf_le (totalLen curSeq : Nat) : seqByteOf totalLen curSeq ≤ 4 := by
  rw [seqByteOf]
  split <;> omega

theorem groupData_isSome {record : Vector Nat 7} {i rest : Nat} {data : Vector UInt8 5}
    (h : i + rest ≤ 4) : (groupData record i rest data).isSome := by
  induction rest generalizing i data with
  | zero => rfl
  | succ rest ih =>
    rw [groupData]
    refine isSome_bind.mpr ⟨_, read_eq (by omega), ?_⟩
    split
    · rfl
    · exact isSome_bind.mpr ⟨_, write_eq (by omega), ih (by omega)⟩

theorem airkissAddSeqData_eq {ak : LocalContext} {data : Vector UInt8 5} {seq : Nat}
    (hnew : ak.seqSuccessMap &&& (1 <<< seq) = 0) :
    ∃ usrData, airkissAddSeqData ak data seq =
      some { ak with usrData := usrData, seqSuccessMap := mapAfter ak seq } := by
  rw [airkissAddSeqData, mapAfter]
  by_cases h : seq < ak.needSeq ∧ seq * 4 + 4 ≤ usrDataBuffMaxSize
  · have hcopy : (copy ak.usrData (seq * 4) data 1 4).isSome := copy_isSome h.2 (by omega)
    obtain ⟨usrData, hu⟩ := Option.isSome_iff_exists.mp hcopy
    have hshl : shl 32 1 seq = some (1 <<< seq) := by
      have h65 : seq * 4 + 4 ≤ 65 := h.2
      exact shl_eq (by omega)
    refine ⟨usrData, ?_⟩
    simp only [if_pos h, hshl, hu, Option.bind_eq_bind, Option.bind_some, if_pos hnew]
    rfl
  · exact ⟨ak.usrData, by rw [if_neg h, if_neg h]⟩

/-- A group with an index inside the shift's width is dropped or stored, and nothing but the
last step can go wrong with it. -/
theorem airkissProcessSequence_eq {ak : LocalContext} {length : Nat}
    (hh : seqHeader (seqWindow ak length)) (hidx : seqIndex (seqWindow ak length) < 32) :
    (acceptedGroup ak (seqWindow ak length) = none ∧
      airkissProcessSequence ak length = some { ak with seqCode := seqWindow ak length }) ∨
    ((acceptedGroup ak (seqWindow ak length)).isSome ∧ ∃ usrData,
      let seq := seqIndex (seqWindow ak length)
      let ak' := airkissResestData { ak with
        usrData := usrData
        seqSuccessMap := mapAfter ak seq }
      airkissProcessSequence ak length =
        if ak.seqSuccessMapCmp = mapAfter ak seq then airkissSplit ak' else some ak') := by
  have hw : airkissRecordMoveOnes
      (ak.seqCode.set maxSeqCodeRecord (recordOf length ak.baseLen)) maxSeqCodeRecord =
        some (seqWindow ak length) := airkissRecordMoveOnes_set _ _
  generalize hrec : seqWindow ak length = record at *
  simp only [seqIndex] at hidx ⊢
  have hle := seqByteOf_le ak.totalLen (record[1] &&& 0x7F)
  have hsome : (groupData record 0 (seqByteOf ak.totalLen (record[1] &&& 0x7F))
      #v[UInt8.ofNat (record[1] &&& 0x7F), 0, 0, 0, 0]).isSome := groupData_isSome (by omega)
  obtain ⟨group, hg⟩ := Option.isSome_iff_exists.mp hsome
  rw [airkissProcessSequence, hw, acceptedGroup]
  simp only [Option.bind_eq_bind, Option.bind_some, if_pos hh, shl_eq hidx]
  by_cases hnew : ak.seqSuccessMap &&& (1 <<< (record[1] &&& 0x7F)) = 0
  · have hclear : ¬ak.seqSuccessMap &&& (1 <<< (record[1] &&& 0x7F)) ≠ 0 := not_not.mpr hnew
    by_cases hin : record[1] &&& 0x7F ≤ (ak.totalLen >>> 2) + 1
    · simp only [if_neg hclear, if_pos hin, if_pos (And.intro hnew hin), hg]
      cases group with
      | none => exact Or.inl ⟨rfl, rfl⟩
      | some data =>
        simp only [Option.bind_some, Option.join_some, airkissGroup]
        rw [readAll_eq (by omega)]
        simp only [Option.bind_eq_bind, Option.bind_some, List.drop_zero]
        by_cases hcrc : record[0] &&& 0x7F = (calcrcBytes (data.toList.take
            (seqByteOf ak.totalLen (record[1] &&& 0x7F) + 1))).toNat &&& 0x7F
        · have hadd : ∃ usrData, airkissAddSeqData { ak with seqCode := record } data _ = some _ :=
            airkissAddSeqData_eq hnew
          obtain ⟨usrData, hu⟩ := hadd
          refine Or.inr ⟨by simp [Option.filter, hcrc], usrData, ?_⟩
          rw [if_pos hcrc, hu]
          rfl
        · refine Or.inl ⟨by simp [Option.filter, hcrc], ?_⟩
          rw [if_neg hcrc]
          rfl
    · refine Or.inl ⟨if_neg fun h => hin h.2, ?_⟩
      simp only [if_neg hclear, if_neg hin]
      rfl
  · refine Or.inl ⟨if_neg fun h => hnew h.1, ?_⟩
    have hset : ak.seqSuccessMap &&& (1 <<< (record[1] &&& 0x7F)) ≠ 0 := hnew
    simp only [if_pos hset]
    rfl

theorem airkissProcessSequence_idle {ak : LocalContext} {length : Nat}
    (hh : seqHeader (seqWindow ak length) = false) :
    airkissProcessSequence ak length = some { ak with seqCode := seqWindow ak length } := by
  have hw : airkissRecordMoveOnes
      (ak.seqCode.set maxSeqCodeRecord (recordOf length ak.baseLen)) maxSeqCodeRecord =
        some (seqWindow ak length) := airkissRecordMoveOnes_set _ _
  rw [airkissProcessSequence, hw]
  simp only [Option.bind_eq_bind, Option.bind_some, hh]
  rfl

theorem airkissProcessSequence_width {ak : LocalContext} {length : Nat}
    (hh : seqHeader (seqWindow ak length)) (hidx : ¬seqIndex (seqWindow ak length) < 32) :
    airkissProcessSequence ak length = none := by
  have hw : airkissRecordMoveOnes
      (ak.seqCode.set maxSeqCodeRecord (recordOf length ak.baseLen)) maxSeqCodeRecord =
        some (seqWindow ak length) := airkissRecordMoveOnes_set _ _
  rw [airkissProcessSequence, hw]
  simp only [Option.bind_eq_bind, Option.bind_some, if_pos hh, shl, if_neg hidx, Option.bind_none]

end TuyaSdk.Airkiss
