import TuyaSdk.TklAdc.Median

/-!
# What the reads touch

A read of a channel that is set up either fails at the driver or copies `data_buff_size`
results, and its loop ends when that many fit a `signed char` (`copyResults_small`,
`copyResults_large`). `tkl_adc_read_data` goes on after its check of the length, and reads the
channels of the mask, however many they are. Both keep to their arrays and return just when the
configuration fits the call (`read_safe_iff`).
-/

namespace TuyaSdk.TklAdc
open TuyaSdk.Lib TuyaSdk.Lib.MinHeap

variable {env : Env} {s : Adc} {ch : BitVec 8} {pData : Nat → Nat} {size : BitVec 8}

/-! ## The copy loop -/

theorem toInt_ofNat_small {k : Nat} (hk : k ≤ 127) : (BitVec.ofNat 8 k).toInt = k := by
  have hnat : (BitVec.ofNat 8 k).toNat = k := by
    rw [BitVec.toNat_ofNat]
    exact Nat.mod_eq_of_lt (by omega)
  rw [BitVec.toInt_eq_toNat_of_lt (by omega), hnat]

/-- The writes of the copy loop. -/
def copies (env : Env) (pData : Nat → Nat) (k n : Nat) : List Access :=
  (List.range' k n).map fun (i : Nat) => .write i (toRegister env (pData i))

theorem copyPass_of_lt {k : Nat} (hk : k ≤ 127) (hlt : k < size.toNat) (acc : List Access) :
    copyPass env pData size (BitVec.ofNat 8 k, acc) =
      .again (BitVec.ofNat 8 (k + 1), acc ++ [.write k (toRegister env (pData k))]) := by
  have hnext : BitVec.ofNat 8 k + 1 = BitVec.ofNat 8 (k + 1) := by
    rw [BitVec.ofNat_add]
    rfl
  rw [copyPass, toInt_ofNat_small hk, if_pos (Int.ofNat_lt.mpr hlt), hnext, Int.toNat_natCast]

theorem copyPass_at_end (env : Env) (pData : Nat → Nat) (hsize : size.toNat ≤ 127)
    (acc : List Access) :
    copyPass env pData size (BitVec.ofNat 8 size.toNat, acc) = .exit acc := by
  rw [copyPass, toInt_ofNat_small hsize]
  exact if_neg (Int.lt_irrefl _)

theorem copyLoop (env : Env) (pData : Nat → Nat) (hsize : size.toNat ≤ 127) {k m n : Nat}
    (hk : k + m = size.toNat) (acc : List Access) (hn : m < n) :
    Loop.run (copyPass env pData size) n (BitVec.ofNat 8 k, acc) =
      some (acc ++ copies env pData k m) := by
  induction m generalizing k acc n with
  | zero =>
    obtain ⟨n, rfl⟩ : ∃ n', n = n' + 1 := ⟨n - 1, by omega⟩
    rw [← hk, Nat.add_zero] at hsize
    have hend := copyPass_at_end env pData (show size.toNat ≤ 127 by omega) acc
    rw [← hk, Nat.add_zero] at hend
    rw [Loop.run_exit hend, copies, List.range'_zero, List.map_nil, List.append_nil]
  | succ m ih =>
    obtain ⟨n, rfl⟩ : ∃ n', n = n' + 1 := ⟨n - 1, by omega⟩
    rw [Loop.run_again (copyPass_of_lt (by omega) (by omega) acc), ih (by omega) _ (by omega),
      copies, copies, List.range'_succ, List.map_cons, List.append_assoc]
    rfl

/-- Up to 127 results are copied. -/
theorem copyResults_small (hsize : size.toNat ≤ 127) :
    copyResults env pData size = some (copies env pData 0 size.toNat) := by
  have hrun := copyLoop env pData hsize (Nat.zero_add size.toNat) []
    (by omega : size.toNat < 257)
  rw [List.nil_append] at hrun
  exact hrun

/-- With more the loop never ends: its counter is always below their number. -/
theorem copyResults_large (hsize : 128 ≤ size.toNat) : copyResults env pData size = none := by
  cases h : copyResults env pData size with
  | none => rfl
  | some acc =>
    refine (Loop.run_post (I := fun _ => True) (Q := fun _ => False) ?_ (fun _ _ _ _ => trivial)
      trivial h).elim
    intro v r _ hb
    have hlt : v.1.toInt < size.toNat := by
      have hmax := BitVec.toInt_lt (x := v.1)
      omega
    rw [copyPass, if_pos hlt] at hb
    cases hb

/-! ## One channel -/

/-- A read of channel `ch` that returns: the statics are as they were but for the results, and
the accesses keep to the arrays and to `data_buff_size` results. -/
structure ChannelRead (s : Adc) (ch : Nat) (o : Outcome) : Prop where
  inits : o.adc.gAdcInit = s.gAdcInit
  size : o.adc.dataBuffSize = s.dataBuffSize
  accesses : ∀ a ∈ o.accesses, a = .init ch ∨ (∃ i < adcBufSizeMax, a = .store i) ∨
    ∃ i < s.dataBuffSize.toNat, ∃ value, a = .write (i : Nat) value

/-- The number of samples that the driver is asked for. -/
def samplesAsked (dataBuffSize : BitVec 8) : BitVec 8 :=
  if dataBuffSize = 1 then adcBufMedianSize else dataBuffSize

/-- A read of a channel that is set up, by what the driver comes to. -/
theorem readSingle_eq (env : Env) (hch : ch.toNat < adcDevChannelSum)
    (hinit : s.gAdcInit ch.toNat = true) :
    (saradcOpen env (ch + 1) (samplesAsked s.dataBuffSize) = none →
      ∃ o, tklAdcReadSingleChannel env s 0 ch = some o ∧ ChannelRead s ch.toNat o) ∧
    (∀ samples, saradcOpen env (ch + 1) (samplesAsked s.dataBuffSize) = some samples →
      ∃ pData adc, tklAdcReadSingleChannel env s 0 ch =
          (copyResults env pData s.dataBuffSize).map (fun writes =>
            ⟨.ok, adc, .init ch.toNat ::
              ((List.range (samplesAsked s.dataBuffSize).toNat).map Access.store ++ writes)⟩) ∧
        adc.gAdcInit = s.gAdcInit ∧ adc.dataBuffSize = s.dataBuffSize) := by
  have hbounds : ¬ (0 > adcDevNum - 1 ∨ ch.toNat > adcDevChannelSum) := by
    rintro (h | h)
    · exact absurd h (by decide)
    · omega
  have hset : ¬ s.gAdcInit ch.toNat = false := by
    rw [hinit]
    exact Bool.noConfusion
  rw [tklAdcReadSingleChannel, if_neg hbounds, if_neg hset]
  constructor
  · intro hopen
    simp only [samplesAsked] at hopen
    simp only [hopen]
    refine ⟨_, rfl, rfl, rfl, ?_⟩
    intro a ha
    exact .inl (List.mem_singleton.mp ha)
  · intro samples hopen
    simp only [samplesAsked] at hopen ⊢
    simp only [hopen]
    by_cases hone : s.dataBuffSize = 1
    · obtain ⟨average, haverage⟩ := medianFilter_isSome
        (sampled (clearAdcBuf s.readAdcBuf) samples adcBufMedianSize.toNat)
        (by decide : 0 < adcBufMedianSize.toNat) env.stack
      simp only [if_pos hone, haverage, Option.map_some]
      exact ⟨_, _, rfl, rfl, rfl⟩
    · simp only [if_neg hone]
      exact ⟨_, _, rfl, rfl, rfl⟩

theorem samplesAsked_eq_zero : samplesAsked size = 0 ↔ size = 0 := by
  rw [samplesAsked]
  split
  next hone =>
    rw [hone]
    decide
  next => rfl

/-- A read of up to 127 results returns. -/
theorem readSingle_small (env : Env) (hch : ch.toNat < adcDevChannelSum)
    (hinit : s.gAdcInit ch.toNat = true) (hsize : s.dataBuffSize.toNat ≤ 127) :
    ∃ o, tklAdcReadSingleChannel env s 0 ch = some o ∧ ChannelRead s ch.toNat o := by
  obtain ⟨hfail, hopen⟩ := readSingle_eq env hch hinit
  cases hs : saradcOpen env (ch + 1) (samplesAsked s.dataBuffSize) with
  | none => exact hfail hs
  | some samples =>
    obtain ⟨pData, adc, heq, hinits, hkeep⟩ := hopen samples hs
    rw [copyResults_small hsize] at heq
    refine ⟨_, heq, hinits, hkeep, ?_⟩
    intro a ha
    rcases List.mem_cons.mp ha with rfl | ha
    · exact .inl rfl
    rcases List.mem_append.mp ha with ha | ha
    · obtain ⟨i, hi, rfl⟩ := List.mem_map.mp ha
      refine .inr (.inl ⟨i, ?_, rfl⟩)
      have hmax := (samplesAsked s.dataBuffSize).isLt
      have hlt := List.mem_range.mp hi
      have h255 : adcBufSizeMax = 255 := rfl
      omega
    · obtain ⟨i, hi, rfl⟩ := List.mem_map.mp ha
      have hlt := (List.mem_range'_1.mp hi).2
      exact .inr (.inr ⟨i, by omega, _, rfl⟩)

/-- A driver that gives every sample. -/
def fullEnv : Env := ⟨fun _ => some fun _ => 0, fun v => v, fun _ => 0⟩

theorem fullEnv_open (hch : ch.toNat < adcDevChannelSum) (hsize : size ≠ 0) :
    saradcOpen fullEnv (ch + 1) (samplesAsked size) = some fun _ => 0 := by
  rw [saradcOpen, if_neg]
  · rfl
  · rintro (hmax | hzero)
    · have hsucc : (ch + 1).toNat = ch.toNat + 1 := by
        rw [BitVec.toNat_add]
        have h1 : (1 : BitVec 8).toNat = 1 := rfl
        have h6 : adcDevChannelSum = 6 := rfl
        exact Nat.mod_eq_of_lt (by omega)
      have hgt : saradcAdcChnlMax.toNat < (ch + 1).toNat := hmax
      have h12 : saradcAdcChnlMax.toNat = 12 := rfl
      have h6 : adcDevChannelSum = 6 := rfl
      omega
    · exact hsize (samplesAsked_eq_zero.mp hzero)

theorem readSingle_full (hch : ch.toNat < adcDevChannelSum)
    (hinit : s.gAdcInit ch.toNat = true) (hzero : s.dataBuffSize ≠ 0)
    (hsize : s.dataBuffSize.toNat ≤ 127) :
    ∃ o, tklAdcReadSingleChannel fullEnv s 0 ch = some o ∧ o.ret = .ok ∧
      ∀ i < s.dataBuffSize.toNat, ∃ value, Access.write (i : Nat) value ∈ o.accesses := by
  obtain ⟨_, hopen⟩ := readSingle_eq fullEnv hch hinit
  obtain ⟨pData, adc, heq, _⟩ := hopen _ (fullEnv_open hch hzero)
  rw [copyResults_small hsize] at heq
  refine ⟨_, heq, rfl, fun i hi => ⟨toRegister fullEnv (pData i), ?_⟩⟩
  refine List.mem_cons_of_mem _ (List.mem_append_right _ (List.mem_map.mpr ⟨i, ?_, rfl⟩))
  exact List.mem_range'_1.mpr ⟨Nat.zero_le i, by omega⟩

theorem readSingle_large (hch : ch.toNat < adcDevChannelSum)
    (hinit : s.gAdcInit ch.toNat = true) (hsize : 128 ≤ s.dataBuffSize.toNat) :
    tklAdcReadSingleChannel fullEnv s 0 ch = none := by
  obtain ⟨_, hopen⟩ := readSingle_eq fullEnv hch hinit
  have hzero : s.dataBuffSize ≠ 0 := by
    rintro h0
    rw [h0] at hsize
    exact absurd hsize (by decide)
  obtain ⟨pData, adc, heq, _⟩ := hopen _ (fullEnv_open hch hzero)
  rw [heq, copyResults_large hsize, Option.map_none]

/-! ## All channels -/

/-- The number of channels that are set up among the `n` from `i` on. -/
def channelsFrom (s : Adc) (i n : Nat) : Nat := ((List.range' i n).filter s.gAdcInit).length

theorem channelsFrom_succ_true {i n : Nat} (h : s.gAdcInit i = true) :
    channelsFrom s i (n + 1) = channelsFrom s (i + 1) n + 1 := by
  rw [channelsFrom, List.range'_succ, List.filter_cons_of_pos h, List.length_cons, channelsFrom]

theorem channelsFrom_succ_false {i n : Nat} (h : ¬ s.gAdcInit i = true) :
    channelsFrom s i (n + 1) = channelsFrom s (i + 1) n := by
  rw [channelsFrom, List.range'_succ, List.filter_cons_of_neg h, channelsFrom]

/-- What has been done of a read of all channels: the accesses keep to the arrays and to the
first `room` entries of the caller. -/
structure Reads (s : Adc) (room : Nat) (o : Outcome) : Prop where
  inits : o.adc.gAdcInit = s.gAdcInit
  size : o.adc.dataBuffSize = s.dataBuffSize
  accesses : ∀ a ∈ o.accesses, (∃ i < adcDevChannelSum, a = .init i) ∨
    (∃ i < adcBufSizeMax, a = .store i) ∨ ∃ i < room, ∃ value, a = .write (i : Nat) value

theorem toNat_channel {i : Nat} (hi : i < adcDevChannelSum) : (BitVec.ofNat 8 i).toNat = i := by
  rw [BitVec.toNat_ofNat]
  have h6 : adcDevChannelSum = 6 := rfl
  exact Nat.mod_eq_of_lt (by omega)

/-- One channel more that is not set up. -/
theorem Reads.skip {room i : Nat} {o : Outcome} (h : Reads s room o)
    (hi : i < adcDevChannelSum) : Reads s room { o with accesses := o.accesses ++ [.init i] } := by
  refine ⟨h.inits, h.size, fun a ha => ?_⟩
  rcases List.mem_append.mp ha with ha | ha
  · exact h.accesses a ha
  · exact .inl ⟨i, hi, List.mem_singleton.mp ha⟩

/-- One channel more that was read. -/
theorem Reads.read {j i : Nat} {o r : Outcome} (h : Reads s (j * s.dataBuffSize.toNat) o)
    (hi : i < adcDevChannelSum) (hr : ChannelRead o.adc i r) :
    Reads s ((j + 1) * s.dataBuffSize.toNat) ⟨r.ret, r.adc, o.accesses ++ [.init i] ++
      r.accesses.map (Access.shift (j * o.adc.dataBuffSize.toNat))⟩ := by
  rw [Nat.add_mul, Nat.one_mul]
  refine ⟨hr.inits.trans h.inits, hr.size.trans h.size, fun a ha => ?_⟩
  rcases List.mem_append.mp ha with ha | ha
  · rcases (h.skip hi).accesses a ha with hinit | hstore | ⟨w, hw, value, rfl⟩
    · exact .inl hinit
    · exact .inr (.inl hstore)
    · exact .inr (.inr ⟨w, by omega, value, rfl⟩)
  · obtain ⟨a', ha', rfl⟩ := List.mem_map.mp ha
    rcases hr.accesses a' ha' with rfl | ⟨w, hw, rfl⟩ | ⟨w, hw, value, rfl⟩
    · exact .inl ⟨i, hi, rfl⟩
    · exact .inr (.inl ⟨w, hw, rfl⟩)
    · rw [h.size] at hw ⊢
      exact .inr (.inr ⟨w + j * s.dataBuffSize.toNat, by omega, value, rfl⟩)

/-- The loop over the channels returns when each read does. -/
theorem readChannels_small (env : Env) {n i j : Nat} {o : Outcome}
    (hn : i + n = adcDevChannelSum) (h : Reads s (j * s.dataBuffSize.toNat) o)
    (hsize : s.dataBuffSize.toNat ≤ 127 ∨ channelsFrom s i n = 0) :
    ∃ o', readChannels env 0 n i j o = some o' ∧
      Reads s ((j + channelsFrom s i n) * s.dataBuffSize.toNat) o' ∧
      (channelsFrom s i n = 0 → o'.ret = o.ret) := by
  induction n generalizing i j o with
  | zero => exact ⟨o, rfl, h, fun _ => rfl⟩
  | succ n ih =>
    have hi : i < adcDevChannelSum := by omega
    have hnat := toNat_channel hi
    rw [readChannels]
    by_cases hinit : s.gAdcInit i = true
    · rw [channelsFrom_succ_true hinit] at hsize ⊢
      have hsmall : s.dataBuffSize.toNat ≤ 127 := hsize.resolve_right (Nat.succ_ne_zero _)
      have hset : o.adc.gAdcInit i = true := by rw [h.inits, hinit]
      have hlt : (BitVec.ofNat 8 i).toNat < adcDevChannelSum := by rw [hnat]; exact hi
      have hon : o.adc.gAdcInit (BitVec.ofNat 8 i).toNat = true := by rw [hnat]; exact hset
      have hkeep : o.adc.dataBuffSize.toNat ≤ 127 := by rw [h.size]; exact hsmall
      obtain ⟨r, hr, hread⟩ := readSingle_small env hlt hon hkeep
      rw [hnat] at hread
      obtain ⟨o', ho', hreads, _⟩ := ih (i := i + 1) (by omega) (h.read hi hread) (.inl hsmall)
      refine ⟨o', ?_, ?_, fun h0 => absurd h0 (Nat.succ_ne_zero _)⟩
      · simp only [if_pos hset, hr]
        exact ho'
      · rwa [show j + (channelsFrom s (i + 1) n + 1) = j + 1 + channelsFrom s (i + 1) n by omega]
    · rw [channelsFrom_succ_false hinit] at hsize ⊢
      have hset : ¬ o.adc.gAdcInit i = true := by rwa [h.inits]
      obtain ⟨o', ho', hreads, hret⟩ := ih (i := i + 1) (by omega) (h.skip hi) hsize
      refine ⟨o', ?_, hreads, hret⟩
      simp only [if_neg hset]
      exact ho'

/-- With a driver that gives every sample, all places of all channels are written. -/
theorem readChannels_full (hzero : s.dataBuffSize ≠ 0) (hsize : s.dataBuffSize.toNat ≤ 127)
    {n i j : Nat} {o o' : Outcome} (hn : i + n = adcDevChannelSum)
    (h : Reads s (j * s.dataBuffSize.toNat) o) (ho : readChannels fullEnv 0 n i j o = some o') :
    (∀ a ∈ o.accesses, a ∈ o'.accesses) ∧ ∀ w, j * s.dataBuffSize.toNat ≤ w →
      w < (j + channelsFrom s i n) * s.dataBuffSize.toNat →
      ∃ value, Access.write (w : Nat) value ∈ o'.accesses := by
  induction n generalizing i j o with
  | zero =>
    cases ho
    refine ⟨fun a ha => ha, fun w hlo hhi => ?_⟩
    rw [show j + channelsFrom s i 0 = j from rfl] at hhi
    omega
  | succ n ih =>
    have hi : i < adcDevChannelSum := by omega
    have hnat := toNat_channel hi
    rw [readChannels] at ho
    by_cases hinit : s.gAdcInit i = true
    · have hset : o.adc.gAdcInit i = true := by rw [h.inits, hinit]
      have hlt : (BitVec.ofNat 8 i).toNat < adcDevChannelSum := by rw [hnat]; exact hi
      have hon : o.adc.gAdcInit (BitVec.ofNat 8 i).toNat = true := by rw [hnat]; exact hset
      have hsmall : o.adc.dataBuffSize.toNat ≤ 127 := by rw [h.size]; exact hsize
      have hne : o.adc.dataBuffSize ≠ 0 := by rw [h.size]; exact hzero
      obtain ⟨r, hr, hread⟩ := readSingle_small fullEnv hlt hon hsmall
      obtain ⟨r', hr', _, hwrites⟩ := readSingle_full hlt hon hne hsmall
      rw [hr] at hr'
      cases hr'
      rw [hnat] at hread
      simp only [if_pos hset, hr] at ho
      obtain ⟨hkeep, hrest⟩ := ih (i := i + 1) (by omega) (h.read hi hread) ho
      refine ⟨fun a ha => hkeep a ?_, fun w hlo hhi => ?_⟩
      · exact List.mem_append_left _ (List.mem_append_left _ ha)
      rw [channelsFrom_succ_true hinit,
        show j + (channelsFrom s (i + 1) n + 1) = j + 1 + channelsFrom s (i + 1) n by omega] at hhi
      rcases Nat.lt_or_ge w ((j + 1) * s.dataBuffSize.toNat) with hlt | hge
      · rw [Nat.add_mul, Nat.one_mul] at hlt
        obtain ⟨k, rfl⟩ := Nat.exists_eq_add_of_le hlo
        rw [h.size] at hwrites
        obtain ⟨value, hmem⟩ := hwrites k (by omega)
        refine ⟨value, hkeep _ (List.mem_append_right _ (List.mem_map.mpr ⟨_, hmem, ?_⟩))⟩
        rw [Access.shift, h.size, Nat.add_comm]
        rfl
      · exact hrest w hge hhi
    · have hset : ¬ o.adc.gAdcInit i = true := by rwa [h.inits]
      simp only [if_neg hset] at ho
      obtain ⟨hkeep, hrest⟩ := ih (i := i + 1) (by omega) (h.skip hi) ho
      rw [channelsFrom_succ_false hinit]
      exact ⟨fun a ha => hkeep a (List.mem_append_left _ ha), hrest⟩

/-- With more than 127 samples the first channel is read forever. -/
theorem readChannels_large (hsize : 128 ≤ s.dataBuffSize.toNat) {n i j : Nat} {o : Outcome}
    (hn : i + n = adcDevChannelSum) (hinits : o.adc.gAdcInit = s.gAdcInit)
    (hkeep : o.adc.dataBuffSize = s.dataBuffSize) (hset : channelsFrom s i n ≠ 0) :
    readChannels fullEnv 0 n i j o = none := by
  induction n generalizing i j o with
  | zero => exact absurd rfl hset
  | succ n ih =>
    have hi : i < adcDevChannelSum := by omega
    have hnat := toNat_channel hi
    rw [readChannels]
    by_cases hinit : s.gAdcInit i = true
    · have hon : o.adc.gAdcInit i = true := by rw [hinits, hinit]
      have hlt : (BitVec.ofNat 8 i).toNat < adcDevChannelSum := by rw [hnat]; exact hi
      have hon' : o.adc.gAdcInit (BitVec.ofNat 8 i).toNat = true := by rw [hnat]; exact hon
      have hlarge : 128 ≤ o.adc.dataBuffSize.toNat := by rw [hkeep]; exact hsize
      simp only [if_pos hon, readSingle_large hlt hon' hlarge]
    · have hoff : ¬ o.adc.gAdcInit i = true := by rwa [hinits]
      rw [channelsFrom_succ_false hinit] at hset
      simp only [if_neg hoff]
      exact ih (i := i + 1) (by omega) hinits hkeep hset

/-! ## What stays from read to read -/

/-- The statics that `tkl_adc_init` decides. -/
structure SameSetUp (s s' : Adc) : Prop where
  inits : s'.gAdcInit = s.gAdcInit
  chNums : s'.adcChNums = s.adcChNums
  size : s'.dataBuffSize = s.dataBuffSize

theorem SameSetUp.refl (s : Adc) : SameSetUp s s := ⟨rfl, rfl, rfl⟩

theorem SameSetUp.trans {s s' s'' : Adc} (h : SameSetUp s s') (h' : SameSetUp s' s'') :
    SameSetUp s s'' :=
  ⟨h'.inits.trans h.inits, h'.chNums.trans h.chNums, h'.size.trans h.size⟩

theorem readSingle_sameSetUp {portNum : Nat} {o : Outcome}
    (h : tklAdcReadSingleChannel env s portNum ch = some o) : SameSetUp s o.adc := by
  rw [tklAdcReadSingleChannel] at h
  split at h
  next =>
    cases h
    exact .refl s
  split at h
  next =>
    cases h
    exact .refl s
  simp only at h
  split at h
  next =>
    cases h
    exact ⟨rfl, rfl, rfl⟩
  next samples hopen =>
    by_cases hone : s.dataBuffSize = 1
    · simp only [if_pos hone] at h
      split at h
      next => cases h
      next s' hs' =>
        obtain ⟨average, -, rfl⟩ := Option.map_eq_some_iff.mp hs'
        obtain ⟨writes, -, rfl⟩ := Option.map_eq_some_iff.mp h
        exact ⟨rfl, rfl, rfl⟩
    · simp only [if_neg hone] at h
      obtain ⟨writes, -, rfl⟩ := Option.map_eq_some_iff.mp h
      exact ⟨rfl, rfl, rfl⟩

theorem readChannels_sameSetUp {portNum n i j : Nat} {o o' : Outcome}
    (h : readChannels env portNum n i j o = some o') : SameSetUp o.adc o'.adc := by
  induction n generalizing i j o with
  | zero =>
    cases h
    exact .refl _
  | succ n ih =>
    rw [readChannels] at h
    split at h
    next =>
      split at h
      next => cases h
      next r hr =>
        have hrest := ih h
        exact (readSingle_sameSetUp hr).trans hrest
    next =>
      have hrest := ih h
      exact hrest

theorem readData_sameSetUp {portNum len : Nat} {o : Outcome}
    (h : tklAdcReadData env s portNum len = some o) : SameSetUp s o.adc := by
  rw [tklAdcReadData] at h
  split at h
  next =>
    cases h
    exact .refl s
  next => exact readChannels_sameSetUp h

/-- The states behind a `tkl_adc_init` that accepts `cfg`, with any reads since. -/
inductive Reached (cfg : AdcBaseCfg) : Adc → Prop
  | init {s₀ s : Adc} {portNum : Nat} (h : tklAdcInit s₀ portNum cfg = (.ok, s)) : Reached cfg s
  | readSingle {env : Env} {s : Adc} {portNum : Nat} {ch : BitVec 8} {o : Outcome}
      (hs : Reached cfg s) (h : tklAdcReadSingleChannel env s portNum ch = some o) :
      Reached cfg o.adc
  | readData {env : Env} {s : Adc} {portNum len : Nat} {o : Outcome}
      (hs : Reached cfg s) (h : tklAdcReadData env s portNum len = some o) : Reached cfg o.adc

/-- The statics are those of `cfg`. -/
structure SetUp (cfg : AdcBaseCfg) (s : Adc) : Prop where
  inits : ∀ i < adcDevChannelSum, s.gAdcInit i = cfg.chList.getLsbD i
  chNums : s.adcChNums = cfg.chNums
  size : s.dataBuffSize = cfg.convCnt.setWidth 8

variable {cfg : AdcBaseCfg}

theorem SetUp.init {s₀ : Adc} {portNum : Nat} (h : tklAdcInit s₀ portNum cfg = (.ok, s)) :
    SetUp cfg s := by
  rw [tklAdcInit] at h
  split at h
  next => cases h
  simp only at h
  split at h
  next => cases h
  cases h
  refine ⟨fun i hi => ?_, rfl, rfl⟩
  cases hbit : cfg.chList.getLsbD i with
  | true => exact if_pos ⟨hi, hbit⟩
  | false =>
    have hclear : ¬ (i < adcDevChannelSum ∧ cfg.chList.getLsbD i) := by
      rw [hbit]
      exact fun h => Bool.noConfusion h.2
    simp only [if_neg hclear, if_pos hi]

theorem SetUp.step {s' : Adc} (h : SetUp cfg s) (hs : SameSetUp s s') : SetUp cfg s' :=
  ⟨fun i hi => by rw [hs.inits, h.inits i hi], hs.chNums.trans h.chNums, hs.size.trans h.size⟩

theorem Reached.setUp (h : Reached cfg s) : SetUp cfg s := by
  induction h with
  | init h => exact .init h
  | readSingle _ h ih => exact ih.step (readSingle_sameSetUp h)
  | readData _ h ih => exact ih.step (readData_sameSetUp h)

/-- `conv_cnt` as it is kept, in eight bits. -/
def AdcBaseCfg.keptCnt (cfg : AdcBaseCfg) : Nat := cfg.convCnt.toNat % 2 ^ 8

/-- The channels of the mask that there are. -/
def AdcBaseCfg.channels (cfg : AdcBaseCfg) : Nat :=
  ((List.range adcDevChannelSum).filter fun i => cfg.chList.getLsbD i).length

theorem SetUp.toNat_size (h : SetUp cfg s) : s.dataBuffSize.toNat = cfg.keptCnt := by
  rw [h.size, BitVec.toNat_setWidth]
  rfl

theorem SetUp.channelsFrom (h : SetUp cfg s) :
    channelsFrom s 0 adcDevChannelSum = cfg.channels := by
  rw [TklAdc.channelsFrom, AdcBaseCfg.channels, List.range_eq_range']
  refine congrArg List.length (List.filter_congr fun i hi => ?_)
  have hlt := (List.mem_range'_1.mp hi).2
  exact h.inits i (by omega)

/-! ## Reads that are safe -/

/-- The access is inside its array, the caller's of `room` entries. -/
def Access.Inside (room : Nat) : Access → Prop
  | .init i => i < adcDevChannelSum
  | .store i => i < adcBufSizeMax
  | .write i _ => 0 ≤ i ∧ i < room

/-- Whatever the driver does: `tkl_adc_read_data` returns, keeps to the arrays and leaves
`data_buff_size`, and it fails without a write when the buffer is too small. -/
def DataSafe (s : Adc) (portNum len : Nat) : Prop :=
  ∀ env, ∃ o, tklAdcReadData env s portNum len = some o ∧
    (∀ a ∈ o.accesses, a.Inside len) ∧ o.adc.dataBuffSize = s.dataBuffSize ∧
    (len < s.adcChNums.toNat * s.dataBuffSize.toNat →
      o.ret ≠ .ok ∧ ∀ i value, .write i value ∉ o.accesses)

/-- The same of `tkl_adc_read_single_channel`, which has no `len`: the caller has room for
`data_buff_size` results. -/
def ChannelSafe (s : Adc) (portNum : Nat) (ch : BitVec 8) : Prop :=
  ∀ env, ∃ o, tklAdcReadSingleChannel env s portNum ch = some o ∧
    (∀ a ∈ o.accesses, a.Inside s.dataBuffSize.toNat) ∧ o.adc.dataBuffSize = s.dataBuffSize

/-- The results of the channels of the mask fit the buffer, and those of a channel the counter
of the copy loop. -/
def DataFits (cfg : AdcBaseCfg) (portNum len : Nat) : Prop :=
  portNum > adcDevNum - 1 ∨ cfg.channels = 0 ∨
    (cfg.keptCnt ≤ 127 ∧ cfg.channels * cfg.keptCnt ≤ len ∧ cfg.chNums.toNat * cfg.keptCnt ≤ len)

/-- The channel is not the one behind the array, and the results fit the counter. -/
def ChannelFits (cfg : AdcBaseCfg) (portNum : Nat) (ch : BitVec 8) : Prop :=
  portNum > adcDevNum - 1 ∨ ch.toNat > adcDevChannelSum ∨
    (ch.toNat < adcDevChannelSum ∧ (cfg.chList.getLsbD ch.toNat = false ∨ cfg.keptCnt ≤ 127))

theorem Reads.inside {room len : Nat} {o : Outcome} (h : Reads s room o) (hroom : room ≤ len) :
    ∀ a ∈ o.accesses, a.Inside len := by
  intro a ha
  rcases h.accesses a ha with ⟨i, hi, rfl⟩ | ⟨i, hi, rfl⟩ | ⟨i, hi, value, rfl⟩
  · exact hi
  · exact hi
  · exact ⟨Int.natCast_nonneg i, Int.ofNat_lt.mpr (by omega)⟩

theorem Reads.no_write {o : Outcome} (h : Reads s 0 o) (i : Int) (value : Nat) :
    .write i value ∉ o.accesses := by
  intro hw
  rcases h.accesses _ hw with ⟨_, _, h'⟩ | ⟨_, _, h'⟩ | ⟨w, hlt, _⟩
  · cases h'
  · cases h'
  · exact Nat.not_lt_zero w hlt

/-- What `tkl_adc_read_data` has in `ret` before the channels. -/
def lenRet (s : Adc) (len : Nat) : OperateRet :=
  if s.adcChNums.toNat * s.dataBuffSize.toNat > len then .comError else .ok

theorem readData_zero (env : Env) (s : Adc) (len : Nat) :
    tklAdcReadData env s 0 len =
      readChannels env 0 adcDevChannelSum 0 0 ⟨lenRet s len, s, []⟩ := by
  rw [tklAdcReadData, if_neg (by decide)]
  rfl

theorem reads_start (s : Adc) (ret : OperateRet) :
    Reads s (0 * s.dataBuffSize.toNat) ⟨ret, s, []⟩ :=
  ⟨rfl, rfl, fun _ ha => absurd ha List.not_mem_nil⟩

theorem dataSafe_of_fits (h : SetUp cfg s) {portNum len : Nat} (hfits : DataFits cfg portNum len) :
    DataSafe s portNum len := by
  intro env
  rcases Nat.eq_zero_or_pos portNum with rfl | hport
  · have hfits := hfits.resolve_left (by decide)
    have hloop : s.dataBuffSize.toNat ≤ 127 ∨ channelsFrom s 0 adcDevChannelSum = 0 := by
      rw [h.channelsFrom, h.toNat_size]
      exact hfits.symm.imp_left And.left
    obtain ⟨o, ho, hreads, hret⟩ := readChannels_small env (Nat.zero_add adcDevChannelSum)
      (reads_start s (lenRet s len)) hloop
    rw [h.channelsFrom, Nat.zero_add] at hreads
    rw [h.channelsFrom] at hret
    refine ⟨o, (readData_zero env s len).trans ho, ?_, hreads.size, fun hlen => ?_⟩
    · refine hreads.inside ?_
      rw [h.toNat_size]
      rcases hfits with hnone | ⟨-, hroom, -⟩
      · rw [hnone, Nat.zero_mul]
        exact Nat.zero_le len
      · exact hroom
    · have hnone : cfg.channels = 0 := by
        refine hfits.resolve_right fun hfits => ?_
        rw [h.chNums, h.toNat_size] at hlen
        exact Nat.not_lt.mpr hfits.2.2 hlen
      rw [hnone, Nat.zero_mul] at hreads
      refine ⟨?_, hreads.no_write⟩
      rw [hret hnone, lenRet, if_pos hlen]
      exact OperateRet.noConfusion
  · refine ⟨⟨.invalidParm, s, []⟩, if_pos hport, ?_, rfl, fun _ => ⟨?_, ?_⟩⟩
    · exact fun a ha => absurd ha List.not_mem_nil
    · exact OperateRet.noConfusion
    · exact fun i value => List.not_mem_nil

theorem fits_of_dataSafe (h : SetUp cfg s) {portNum len : Nat} (hsafe : DataSafe s portNum len) :
    DataFits cfg portNum len := by
  rcases Nat.eq_zero_or_pos portNum with rfl | hport
  swap
  · exact .inl hport
  by_cases hnone : cfg.channels = 0
  · exact .inr (.inl hnone)
  have hchannels := h.channelsFrom
  obtain ⟨o, ho, hinside, -, herr⟩ := hsafe fullEnv
  rw [readData_zero] at ho
  have hsize : cfg.keptCnt ≤ 127 := by
    by_contra hlarge
    have hforever := readChannels_large (o := ⟨lenRet s len, s, []⟩) (j := 0)
      (by rw [h.toNat_size]; omega) (Nat.zero_add adcDevChannelSum) rfl rfl
      (by rw [hchannels]; exact hnone)
    rw [hforever] at ho
    cases ho
  refine .inr (.inr ⟨hsize, ?_⟩)
  rcases Nat.eq_zero_or_pos cfg.keptCnt with hzero | hpos
  · rw [hzero]
    exact ⟨Nat.zero_le len, Nat.zero_le len⟩
  have hne : s.dataBuffSize ≠ 0 := by
    intro h0
    have hnat := h.toNat_size
    rw [h0] at hnat
    have h00 : (0 : BitVec 8).toNat = 0 := rfl
    omega
  obtain ⟨-, hall⟩ := readChannels_full hne (by rw [h.toNat_size]; exact hsize)
    (Nat.zero_add adcDevChannelSum) (reads_start s (lenRet s len)) ho
  rw [hchannels, h.toNat_size, Nat.zero_add, Nat.zero_mul] at hall
  have hsome : 0 < cfg.channels * cfg.keptCnt := Nat.mul_pos (Nat.pos_of_ne_zero hnone) hpos
  constructor
  · by_contra hlen
    obtain ⟨value, hw⟩ := hall (cfg.channels * cfg.keptCnt - 1) (Nat.zero_le _) (by omega)
    have hlt := Int.ofNat_lt.mp (hinside _ hw).2
    omega
  · by_contra hlen
    obtain ⟨value, hw⟩ := hall 0 (Nat.le_refl 0) hsome
    refine (herr ?_).2 _ value hw
    rw [h.chNums, h.toNat_size]
    exact Nat.lt_of_not_le hlen

theorem ChannelRead.inside {o : Outcome} (h : ChannelRead s ch.toNat o)
    (hch : ch.toNat < adcDevChannelSum) : ∀ a ∈ o.accesses, a.Inside s.dataBuffSize.toNat := by
  intro a ha
  rcases h.accesses a ha with rfl | ⟨i, hi, rfl⟩ | ⟨i, hi, value, rfl⟩
  · exact hch
  · exact hi
  · exact ⟨Int.natCast_nonneg i, Int.ofNat_lt.mpr hi⟩

/-- The look at `g_adc_init` is the first access. -/
theorem readSingle_looks {o : Outcome} (hch : ch.toNat ≤ adcDevChannelSum)
    (h : tklAdcReadSingleChannel env s 0 ch = some o) : .init ch.toNat ∈ o.accesses := by
  have hbounds : ¬ (0 > adcDevNum - 1 ∨ ch.toNat > adcDevChannelSum) := by
    rintro (h | h)
    · exact absurd h (by decide)
    · omega
  rw [tklAdcReadSingleChannel, if_neg hbounds] at h
  split at h
  next =>
    cases h
    exact List.mem_cons_self
  simp only at h
  split at h
  next =>
    cases h
    exact List.mem_cons_self
  next =>
    split at h
    next => cases h
    next =>
      obtain ⟨writes, -, rfl⟩ := Option.map_eq_some_iff.mp h
      exact List.mem_cons_self

theorem channelSafe_of_fits (h : SetUp cfg s) {portNum : Nat}
    (hfits : ChannelFits cfg portNum ch) : ChannelSafe s portNum ch := by
  intro env
  by_cases hrefused : portNum > adcDevNum - 1 ∨ ch.toNat > adcDevChannelSum
  · exact ⟨⟨.invalidParm, s, []⟩, if_pos hrefused, fun a ha => absurd ha List.not_mem_nil, rfl⟩
  obtain ⟨hport, hmax⟩ := not_or.mp hrefused
  obtain rfl : portNum = 0 := Nat.eq_zero_of_not_pos hport
  obtain ⟨hch, hfits⟩ := (hfits.resolve_left hport).resolve_left hmax
  cases hbit : cfg.chList.getLsbD ch.toNat with
  | false =>
    have hoff : s.gAdcInit ch.toNat = false := (h.inits _ hch).trans hbit
    refine ⟨⟨.osAdapterComError, s, [.init ch.toNat]⟩, ?_, fun a ha => ?_, rfl⟩
    · rw [tklAdcReadSingleChannel, if_neg hrefused, if_pos hoff]
    · rw [List.mem_singleton.mp ha]
      exact hch
  | true =>
    have hon : s.gAdcInit ch.toNat = true := (h.inits _ hch).trans hbit
    have hsmall : s.dataBuffSize.toNat ≤ 127 := by
      rw [h.toNat_size]
      refine hfits.resolve_left fun hoff => ?_
      rw [hoff] at hbit
      cases hbit
    obtain ⟨o, ho, hread⟩ := readSingle_small env hch hon hsmall
    exact ⟨o, ho, hread.inside hch, hread.size⟩

theorem fits_of_channelSafe (h : SetUp cfg s) {portNum : Nat} (hsafe : ChannelSafe s portNum ch) :
    ChannelFits cfg portNum ch := by
  rcases Nat.eq_zero_or_pos portNum with rfl | hport
  swap
  · exact .inl hport
  refine .inr ?_
  rcases Nat.lt_or_ge adcDevChannelSum ch.toNat with hmax | hmax
  · exact .inl hmax
  obtain ⟨o, ho, hinside, -⟩ := hsafe fullEnv
  have hch : ch.toNat < adcDevChannelSum := hinside _ (readSingle_looks hmax ho)
  refine .inr ⟨hch, ?_⟩
  cases hbit : cfg.chList.getLsbD ch.toNat with
  | false => exact .inl rfl
  | true =>
    refine .inr ?_
    by_contra hlarge
    have hon : s.gAdcInit ch.toNat = true := (h.inits _ hch).trans hbit
    rw [readSingle_large hch hon (by rw [h.toNat_size]; omega)] at ho
    cases ho

/-- Behind a configuration that was accepted, both reads are safe just when it fits them. -/
theorem read_safe_iff (h : Reached cfg s) (portNum len : Nat) (ch : BitVec 8) :
    (DataSafe s portNum len ↔ DataFits cfg portNum len) ∧
      (ChannelSafe s portNum ch ↔ ChannelFits cfg portNum ch) :=
  ⟨⟨fits_of_dataSafe h.setUp, dataSafe_of_fits h.setUp⟩,
    ⟨fits_of_channelSafe h.setUp, channelSafe_of_fits h.setUp⟩⟩

/-- The statics before the first configuration. -/
def adcAtStart : Adc := ⟨fun _ => false, 0, 0, 0, fun _ => 0⟩

/-- The statics behind the configuration of the channels of `chList`. -/
def configured (chList : BitVec 32) (chNums : BitVec 8) (convCnt : BitVec 16) : Adc :=
  (tklAdcInit adcAtStart 0 ⟨chList, chNums, .single, convCnt⟩).2

theorem configured_reached {chList : BitVec 32} {chNums : BitVec 8} {convCnt : BitVec 16}
    (h : (tklAdcInit adcAtStart 0 ⟨chList, chNums, .single, convCnt⟩).1 = .ok) :
    Reached ⟨chList, chNums, .single, convCnt⟩ (configured chList chNums convCnt) :=
  .init (Prod.ext h rfl)

theorem read_safe_two :
    DataSafe (configured 3 2 4) 0 8 ∧ ChannelSafe (configured 3 2 4) 0 1 := by
  have hreached : Reached ⟨3, 2, .single, 4⟩ (configured 3 2 4) := configured_reached rfl
  have h := read_safe_iff hreached 0 8 1
  refine ⟨h.1.2 ?_, h.2.2 ?_⟩
  · unfold DataFits
    decide
  · unfold ChannelFits
    decide

/-- One channel announced and two in the mask: four results too many. The channel behind the
last is looked up. With 200 results to copy a read does not return. -/
theorem not_read_safe :
    (¬ DataSafe (configured 3 1 4) 0 4 ∧ ¬ ChannelSafe (configured 3 1 4) 0 6) ∧
      tklAdcReadSingleChannel fullEnv (configured 1 1 200) 0 0 = none := by
  have hsetUp : SetUp ⟨3, 1, .single, 4⟩ (configured 3 1 4) := (configured_reached rfl).setUp
  refine ⟨⟨fun h => ?_, fun h => ?_⟩, ?_⟩
  · have hfits := fits_of_dataSafe hsetUp h
    unfold DataFits at hfits
    revert hfits
    decide
  · have hfits := fits_of_channelSafe hsetUp h
    unfold ChannelFits at hfits
    revert hfits
    decide
  · exact readSingle_large (by decide) (by decide) (by decide)

end TuyaSdk.TklAdc
