import TuyaSdk.TklWifi.Defs

/-!
# The mean signal strength

Each successful pass compares the minimum with the entry of the caller's buffer that has the number
of the pass, where there is only one byte. A call that sets the result has at least two more
successful passes, so that only a call that reports an error keeps to that byte (`rssiOk_iff`).
-/

namespace TuyaSdk.TklWifi
open TuyaSdk.Lib

variable {rssi : Mem} {samples : Nat → LinkStatus}

/-- The strengths of the successful ones among the five samples. -/
def successes (samples : Nat → LinkStatus) : List Int :=
  (List.range 5).filterMap fun i => (samples i).toOption.map BitVec.toInt

/-- `mean` is the mean of `l` without one smallest and one largest element, and between them. -/
def IsTrimmedMean (l : List Int) (mean : Int) : Prop :=
  ∃ lo hi rest, l.Perm (lo :: hi :: rest) ∧ (∀ x ∈ l, lo ≤ x ∧ x ≤ hi) ∧ rest ≠ [] ∧
    mean = rest.sum.tdiv rest.length ∧ lo ≤ mean ∧ mean ≤ hi

/-- The call ends, reads only the byte behind its argument, and either reports an error and leaves
it or sets it to the trimmed mean. -/
def RssiOk (rssi : Mem) (samples : Nat → LinkStatus) : Prop :=
  ∃ ret rssi' reads, tklWifiStationGetConnApRssi rssi samples = some (ret, rssi', reads) ∧
    (∀ k ∈ reads, k = 0) ∧
    ((ret ≠ .ok ∧ rssi' = rssi) ∨
      (ret = .ok ∧ IsTrimmedMean (successes samples) (rssi' 0).toInt ∧
        ∀ x, x ≠ 0 → rssi' x = rssi x))

/-! ## The loop -/

theorem rssiLoop_succ (k : Nat) :
    rssiLoop rssi samples (k + 1) =
      rssiPass rssi k (samples k) (rssiLoop rssi samples k) := by
  rw [rssiLoop, List.range_succ, List.foldl_append]
  rfl

/-- An entry is read in each successful pass. -/
theorem mem_reads_rssiLoop {k i : Nat} :
    i ∈ (rssiLoop rssi samples k).reads ↔ i < k ∧ ∃ strength, samples i = .ok strength := by
  induction k with
  | zero =>
    constructor
    · intro h
      cases h
    · rintro ⟨h, -⟩
      exact absurd h (Nat.not_lt_zero i)
  | succ k ih =>
    rw [rssiLoop_succ]
    cases hk : samples k with
    | error code =>
      change i ∈ (rssiLoop rssi samples k).reads ↔ _
      rw [ih]
      constructor
      · rintro ⟨hi, h⟩
        exact ⟨by omega, h⟩
      · rintro ⟨hi, strength, h⟩
        have hne : i ≠ k := by
          rintro rfl
          rw [hk] at h
          cases h
        exact ⟨by omega, strength, h⟩
    | ok strength =>
      change i ∈ (rssiLoop rssi samples k).reads ++ [k] ↔ _
      rw [List.mem_append, ih, List.mem_singleton]
      constructor
      · rintro (⟨hi, h⟩ | rfl)
        · exact ⟨by omega, h⟩
        · exact ⟨Nat.lt_succ_self i, strength, hk⟩
      · rintro ⟨hi, h⟩
        rcases Nat.lt_succ_iff_lt_or_eq.mp hi with hlt | rfl
        · exact Or.inl ⟨hlt, h⟩
        · exact Or.inr rfl

/-- The failed passes are counted. -/
theorem errorCnt_rssiLoop {k : Nat} (h : ∀ i < k, 1 ≤ i → ∃ code, samples i = .error code) :
    k - 1 ≤ (rssiLoop rssi samples k).errorCnt := by
  induction k with
  | zero => exact Nat.zero_le _
  | succ k ih =>
    have hprev := ih fun i hi hpos => h i (by omega) hpos
    rw [rssiLoop_succ]
    by_cases hk : 1 ≤ k
    · obtain ⟨code, hcode⟩ := h k (Nat.lt_succ_self k) hk
      rw [hcode]
      change k + 1 - 1 ≤ (rssiLoop rssi samples k).errorCnt + 1
      omega
    · omega

/-! ## The result -/

/-- What is read does not depend on the result. -/
theorem reads_tklWifiStationGetConnApRssi {ret : OperateRet} {rssi' : Mem} {reads : List Nat}
    (h : tklWifiStationGetConnApRssi rssi samples = some (ret, rssi', reads)) :
    reads = (rssiLoop rssi samples 5).reads := by
  simp only [tklWifiStationGetConnApRssi] at h
  split at h
  · obtain ⟨-, h⟩ := Prod.mk.inj (Option.some.inj h)
    exact (Prod.mk.inj h).2.symm
  · split at h
    · cases h
    · obtain ⟨-, h⟩ := Prod.mk.inj (Option.some.inj h)
      exact (Prod.mk.inj h).2.symm

/-- A successful sample but the first reads behind the byte of the caller. -/
theorem RssiOk.error (h : RssiOk rssi samples) {i : Nat} (hpos : 1 ≤ i) (hi : i < 5) :
    ∃ code, samples i = .error code := by
  obtain ⟨ret, rssi', reads, hrun, hreads, -⟩ := h
  have heq := reads_tklWifiStationGetConnApRssi hrun
  cases hsample : samples i with
  | error code => exact ⟨code, rfl⟩
  | ok strength =>
    have hmem : i ∈ reads := by
      rw [heq, mem_reads_rssiLoop]
      exact ⟨hi, strength, hsample⟩
    have hzero := hreads i hmem
    omega

/-- It is well just when it fails: all samples but the first are errors. -/
theorem rssiOk_iff (rssi : Mem) (samples : Nat → LinkStatus) :
    RssiOk rssi samples ↔ ∀ i, 1 ≤ i → i < 5 → ∃ code, samples i = .error code := by
  constructor
  · exact fun h i hpos hi => h.error hpos hi
  · intro h
    have hcnt : 4 ≤ (rssiLoop rssi samples 5).errorCnt :=
      errorCnt_rssiLoop fun i hi hpos => h i hpos hi
    have hrun : tklWifiStationGetConnApRssi rssi samples =
        some (.comError, rssi, (rssiLoop rssi samples 5).reads) := if_pos (by omega)
    refine ⟨_, _, _, hrun, fun k hk => ?_, Or.inl ⟨fun h => ?_, rfl⟩⟩
    · obtain ⟨hlt, strength, hok⟩ := mem_reads_rssiLoop.mp hk
      by_contra hne
      obtain ⟨code, hcode⟩ := h k (by omega) hlt
      rw [hok] at hcode
      cases hcode
    · cases h

/-- Five samples of the same strength. -/
theorem not_rssiOk_steady : ¬RssiOk (fun _ => 0) fun _ => .ok (-50) := by
  intro h
  obtain ⟨code, hcode⟩ := h.error (i := 1) (by decide) (by decide)
  cases hcode

end TuyaSdk.TklWifi
