import TuyaSdk.TuyaTools.Defs

/-!
# Comparison without regard to case

`tuya_strncasecmp` compares one character before it looks at `n`, and takes the end of two equal
texts for a difference unless it is the last character compared (`compareOk_iff`).
-/

namespace TuyaSdk.TuyaTools
open TuyaSdk.Lib

variable {mem : Mem} {s1 s2 n : Nat}

/-- The characters at `i` are the same in lower case. -/
def SameAt (mem : Mem) (s1 s2 i : Nat) : Prop :=
  toLower (mem (s1 + i)) = toLower (mem (s2 + i))

/-- The first `i` characters have no NUL among them. -/
def Running (mem : Mem) (s1 s2 i : Nat) : Prop :=
  ∀ j < i, mem (s1 + j) ≠ 0 ∧ mem (s2 + j) ≠ 0

/-- They are the same, too. -/
def Common (mem : Mem) (s1 s2 i : Nat) : Prop :=
  Running mem s1 s2 i ∧ ∀ j < i, SameAt mem s1 s2 j

/-- The first `n` characters, up to the first NUL, agree. -/
def Agree (mem : Mem) (s1 s2 n : Nat) : Prop :=
  ∀ i < n, Running mem s1 s2 i → SameAt mem s1 s2 i

/-- They agree, and end with character `i`. -/
def EndsEqual (mem : Mem) (s1 s2 i : Nat) : Prop :=
  Common mem s1 s2 i ∧ mem (s1 + i) = 0 ∧ mem (s2 + i) = 0

/-- The result is zero just when the texts agree, has the sign of the first difference, and changes
it with the arguments; no character behind a NUL or behind the first `n` is read. -/
def CompareOk (mem : Mem) (s1 s2 n : Nat) : Prop :=
  ∃ r reads, tuyaStrncasecmp mem s1 s2 n = some (r, reads) ∧
    (r = 0 ↔ Agree mem s1 s2 n) ∧
    (∀ i < n, Common mem s1 s2 i → ¬SameAt mem s1 s2 i →
      r.sign = (toLower (mem (s1 + i)) - toLower (mem (s2 + i))).sign) ∧
    (∃ r' reads', tuyaStrncasecmp mem s2 s1 n = some (r', reads') ∧ r'.sign = -r.sign) ∧
    ∀ p ∈ reads, ∃ i < n, p = (s1 + i, s2 + i) ∧ Running mem s1 s2 i

/-! ## Characters -/

theorem toLower_eq_zero {c : Byte} : toLower c = 0 ↔ c = 0 := by
  unfold toLower
  constructor
  · intro h
    split at h <;> bv_omega
  · rintro rfl
    rfl

theorem SameAt.symm {i : Nat} (h : SameAt mem s1 s2 i) : SameAt mem s2 s1 i := Eq.symm h

theorem SameAt.eq_zero {i : Nat} (h : SameAt mem s1 s2 i) (hz : mem (s1 + i) = 0) :
    mem (s2 + i) = 0 := by
  rw [SameAt, toLower_eq_zero.mpr hz] at h
  exact toLower_eq_zero.mp h.symm

theorem EndsEqual.sameAt {i : Nat} (h : EndsEqual mem s1 s2 i) : SameAt mem s1 s2 i := by
  rw [SameAt, h.2.1, h.2.2]

theorem Common.symm {i : Nat} (h : Common mem s1 s2 i) : Common mem s2 s1 i :=
  ⟨fun j hj => (h.1 j hj).symm, fun j hj => (h.2 j hj).symm⟩

theorem Common.mono {i k : Nat} (h : Common mem s1 s2 i) (hk : k ≤ i) : Common mem s1 s2 k :=
  ⟨fun j hj => h.1 j (by omega), fun j hj => h.2 j (by omega)⟩

theorem Common.succ {i : Nat} (h : Common mem s1 s2 i) (hsame : SameAt mem s1 s2 i)
    (hne : mem (s1 + i) ≠ 0) : Common mem s1 s2 (i + 1) := by
  refine ⟨fun j hj => ?_, fun j hj => ?_⟩
  · rcases Nat.lt_succ_iff_lt_or_eq.mp hj with hj | rfl
    · exact h.1 j hj
    · exact ⟨hne, fun hz => hne (hsame.symm.eq_zero hz)⟩
  · rcases Nat.lt_succ_iff_lt_or_eq.mp hj with hj | rfl
    · exact h.2 j hj
    · exact hsame

/-! ## The loop -/

/-- The pairs of addresses that the first `k` passes read. -/
def readsTo (s1 s2 k : Nat) : List (Nat × Nat) := (List.range k).map fun i => (s1 + i, s2 + i)

theorem readsTo_succ (s1 s2 k : Nat) :
    readsTo s1 s2 (k + 1) = readsTo s1 s2 k ++ [(s1 + k, s2 + k)] := by
  rw [readsTo, List.range_succ, List.map_append]
  rfl

/-- The ways in which the loop comes to an end. -/
inductive Outcome (mem : Mem) (s1 s2 n : Nat) : Int → List (Nat × Nat) → Prop
  /-- at a difference -/
  | differs {i : Nat} (hi : i < n) (hc : Common mem s1 s2 i) (hd : ¬SameAt mem s1 s2 i) :
      Outcome mem s1 s2 n (toLower (mem (s1 + i)) - toLower (mem (s2 + i))) (readsTo s1 s2 (i + 1))
  /-- with character `n` -/
  | reached {i : Nat} (hi : i + 1 = n) (hc : Common mem s1 s2 i) (hs : SameAt mem s1 s2 i) :
      Outcome mem s1 s2 n 0 (readsTo s1 s2 (i + 1))
  /-- at a NUL before it -/
  | ended {i : Nat} (hi : i + 1 < n) (he : EndsEqual mem s1 s2 i) :
      Outcome mem s1 s2 n (-1) (readsTo s1 s2 (i + 1))

/-- As long as the characters are the same, the loop goes on. -/
theorem compare_reach {i : Nat} (hc : Common mem s1 s2 i) (hi : i < n) :
    Loop.run (comparePass mem n) (n + 1) ⟨s1, s2, 0, []⟩ =
      Loop.run (comparePass mem n) (n - i + 1) ⟨s1 + i, s2 + i, i, readsTo s1 s2 i⟩ := by
  induction i with
  | zero => rfl
  | succ i ih =>
    obtain ⟨hne1, hne2⟩ := hc.1 i (Nat.lt_succ_self i)
    have hsame : toLower (mem (s1 + i)) - toLower (mem (s2 + i)) = 0 :=
      Int.sub_eq_zero.mpr (hc.2 i (Nat.lt_succ_self i))
    have hpass : comparePass mem n ⟨s1 + i, s2 + i, i, readsTo s1 s2 i⟩ =
        .again ⟨s1 + (i + 1), s2 + (i + 1), i + 1, readsTo s1 s2 (i + 1)⟩ := by
      rw [comparePass]
      simp only [hsame, ne_eq, not_true_eq_false, if_false, hne1, hne2]
      rw [if_neg (by omega), readsTo_succ]
      rfl
    have hfuel : n - i + 1 = n - (i + 1) + 1 + 1 := by omega
    rw [ih (hc.mono (Nat.le_succ i)) (by omega), hfuel, Loop.run_again hpass]

theorem tuyaStrncasecmp_of_outcome (hne : s1 ≠ s2) {r : Int} {reads : List (Nat × Nat)}
    (h : Outcome mem s1 s2 n r reads) : tuyaStrncasecmp mem s1 s2 n = some (r, reads) := by
  rw [tuyaStrncasecmp, if_neg hne]
  cases h with
  | @differs i hi hc hd =>
    have hdiff : toLower (mem (s1 + i)) - toLower (mem (s2 + i)) ≠ 0 :=
      fun h => hd (Int.sub_eq_zero.mp h)
    rw [compare_reach hc hi]
    apply Loop.run_exit
    rw [comparePass]
    simp only [if_pos hdiff, readsTo_succ]
  | @reached i hi hc hs =>
    have hdiff : toLower (mem (s1 + i)) - toLower (mem (s2 + i)) = 0 := Int.sub_eq_zero.mpr hs
    rw [compare_reach hc (by omega)]
    apply Loop.run_exit
    rw [comparePass]
    simp only [hdiff, ne_eq, not_true_eq_false, if_false]
    rw [if_pos (by omega), readsTo_succ]
  | @ended i hi he =>
    have hdiff : toLower (mem (s1 + i)) - toLower (mem (s2 + i)) = 0 :=
      Int.sub_eq_zero.mpr he.sameAt
    rw [compare_reach he.1 (by omega)]
    apply Loop.run_exit
    rw [comparePass]
    simp only [hdiff, ne_eq, not_true_eq_false, if_false]
    rw [if_neg (by omega), if_pos he.2.1, readsTo_succ]

theorem exists_outcome (hn : 1 ≤ n) : ∃ r reads, Outcome mem s1 s2 n r reads := by
  have hreach : ∀ k < n, Common mem s1 s2 k ∨ ∃ r reads, Outcome mem s1 s2 n r reads := by
    intro k
    induction k with
    | zero =>
      intro _
      exact Or.inl ⟨fun j hj => absurd hj (Nat.not_lt_zero j),
        fun j hj => absurd hj (Nat.not_lt_zero j)⟩
    | succ k ih =>
      intro hk
      rcases ih (by omega) with hc | h
      · by_cases hsame : SameAt mem s1 s2 k
        · by_cases hz : mem (s1 + k) = 0
          · exact Or.inr ⟨_, _, .ended hk ⟨hc, hz, hsame.eq_zero hz⟩⟩
          · exact Or.inl (hc.succ hsame hz)
        · exact Or.inr ⟨_, _, .differs (by omega) hc hsame⟩
      · exact Or.inr h
  rcases hreach (n - 1) (by omega) with hc | h
  · by_cases hsame : SameAt mem s1 s2 (n - 1)
    · exact ⟨_, _, .reached (by omega) hc hsame⟩
    · exact ⟨_, _, .differs (by omega) hc hsame⟩
  · exact h

/-! ## The result -/

/-- A difference comes before any end. -/
theorem EndsEqual.lt_of_differs {i k : Nat} (he : EndsEqual mem s1 s2 i)
    (hd : ¬SameAt mem s1 s2 k) (hr : Running mem s1 s2 k) : False := by
  rcases Nat.lt_trichotomy i k with hlt | rfl | hlt
  · exact (hr i hlt).1 he.2.1
  · exact hd he.sameAt
  · exact hd (he.1.2 k hlt)

theorem EndsEqual.agree {i : Nat} (he : EndsEqual mem s1 s2 i) : Agree mem s1 s2 n := by
  intro k hk hr
  by_contra hd
  exact he.lt_of_differs hd hr

theorem Common.agree {i : Nat} (hc : Common mem s1 s2 i) (hs : SameAt mem s1 s2 i)
    (hi : i + 1 = n) : Agree mem s1 s2 n := by
  intro k hk _
  rcases Nat.lt_or_eq_of_le (show k ≤ i by omega) with hlt | rfl
  · exact hc.2 k hlt
  · exact hs

theorem Outcome.swap {r : Int} {reads : List (Nat × Nat)} (h : Outcome mem s1 s2 n r reads)
    (hend : ¬∃ i, i + 1 < n ∧ EndsEqual mem s1 s2 i) :
    ∃ reads', Outcome mem s2 s1 n (-r) reads' := by
  cases h with
  | differs hi hc hd =>
    rw [Int.neg_sub]
    exact ⟨_, .differs hi hc.symm fun h => hd h.symm⟩
  | reached hi hc hs => exact ⟨_, .reached hi hc.symm hs.symm⟩
  | ended hi he => exact absurd ⟨_, hi, he⟩ hend

theorem Outcome.reads_within {r : Int} {reads : List (Nat × Nat)}
    (h : Outcome mem s1 s2 n r reads) :
    ∀ p ∈ reads, ∃ i < n, p = (s1 + i, s2 + i) ∧ Running mem s1 s2 i := by
  have hprefix : ∀ {k}, k < n → Common mem s1 s2 k →
      ∀ p ∈ readsTo s1 s2 (k + 1), ∃ i < n, p = (s1 + i, s2 + i) ∧ Running mem s1 s2 i := by
    intro k hk hc p hp
    obtain ⟨i, hi, rfl⟩ := List.mem_map.mp hp
    have hi := List.mem_range.mp hi
    exact ⟨i, by omega, rfl, (hc.mono (show i ≤ k by omega)).1⟩
  cases h with
  | differs hi hc hd => exact hprefix hi hc
  | reached hi hc hs => exact hprefix (by omega) hc
  | ended hi he => exact hprefix (by omega) he.1

theorem compareOk_of_eq : CompareOk mem s1 s1 n := by
  have hrun : tuyaStrncasecmp mem s1 s1 n = some (0, []) := if_pos rfl
  refine ⟨0, [], hrun, ⟨fun _ i _ _ => rfl, fun _ => rfl⟩, fun i _ _ hd => absurd rfl hd,
    ⟨0, [], hrun, rfl⟩, ?_⟩
  intro p hp
  cases hp

theorem compareOk_of_running (hn : 1 ≤ n) (hne : s1 ≠ s2)
    (hend : ¬∃ i, i + 1 < n ∧ EndsEqual mem s1 s2 i) : CompareOk mem s1 s2 n := by
  obtain ⟨r, reads, h⟩ : ∃ r reads, Outcome mem s1 s2 n r reads := exists_outcome hn
  obtain ⟨reads', hswap⟩ := h.swap hend
  refine ⟨r, reads, tuyaStrncasecmp_of_outcome hne h, ?_, ?_,
    ⟨-r, reads', tuyaStrncasecmp_of_outcome hne.symm hswap, Int.sign_neg r⟩, h.reads_within⟩
  · cases h with
    | differs hi hc hd =>
      refine ⟨fun h => absurd (Int.sub_eq_zero.mp h) hd, fun h => absurd (h _ hi hc.1) hd⟩
    | reached hi hc hs => exact ⟨fun _ => hc.agree hs hi, fun _ => rfl⟩
    | ended hi he => exact absurd ⟨_, hi, he⟩ hend
  · intro k hk hck hdk
    cases h with
    | @differs i hi hc hd =>
      rcases Nat.lt_trichotomy i k with hlt | rfl | hlt
      · exact absurd (hck.2 i hlt) hd
      · rfl
      · exact absurd (hc.2 k hlt) hdk
    | reached hi hc hs => exact absurd (hc.agree hs hi k hk hck.1) hdk
    | ended hi he => exact absurd ⟨_, hi, he⟩ hend

/-- Equal texts that end before the last character compared are told apart. -/
theorem not_compareOk_of_ended (hne : s1 ≠ s2) {i : Nat} (hi : i + 1 < n)
    (he : EndsEqual mem s1 s2 i) : ¬CompareOk mem s1 s2 n := by
  rintro ⟨r, reads, hrun, hzero, -⟩
  rw [tuyaStrncasecmp_of_outcome hne (.ended hi he)] at hrun
  have hr := (Prod.mk.inj (Option.some.inj hrun)).1
  exact absurd (hr.trans (hzero.mpr he.agree)) (by decide)

/-- Without a character to compare, the first is compared all the same. -/
theorem tuyaStrncasecmp_zero (hne : s1 ≠ s2) :
    tuyaStrncasecmp mem s1 s2 0 =
      some (toLower (mem s1) - toLower (mem s2), [(s1, s2)]) := by
  have hpass : comparePass mem 0 ⟨s1, s2, 0, []⟩ =
      .exit (toLower (mem s1) - toLower (mem s2), [(s1, s2)]) := by
    rw [comparePass]
    by_cases hd : toLower (mem s1) - toLower (mem s2) = 0
    · simp only [hd, ne_eq, not_true_eq_false, if_false]
      rw [if_pos (Nat.zero_le _)]
      rfl
    · exact if_pos hd
  rw [tuyaStrncasecmp, if_neg hne]
  exact Loop.run_exit hpass

/-- The texts are one and the same, or there is a character to compare and they do not end, as
equal texts, before the last one. -/
theorem compareOk_iff (mem : Mem) (s1 s2 n : Nat) :
    CompareOk mem s1 s2 n ↔
      s1 = s2 ∨ 1 ≤ n ∧ ¬∃ i, i + 1 < n ∧ EndsEqual mem s1 s2 i := by
  constructor
  · intro hok
    by_cases heq : s1 = s2
    · exact Or.inl heq
    refine Or.inr ⟨?_, fun hend => ?_⟩
    · obtain ⟨r, reads, hrun, -, -, -, hreads⟩ := hok
      by_contra hn
      obtain rfl : n = 0 := by omega
      rw [tuyaStrncasecmp_zero heq] at hrun
      have hread : (s1, s2) ∈ reads := by
        rw [← (Prod.mk.inj (Option.some.inj hrun)).2]
        exact List.mem_singleton_self _
      obtain ⟨i, hi, -⟩ := hreads _ hread
      exact Nat.not_lt_zero i hi
    · obtain ⟨i, hi, he⟩ := hend
      exact not_compareOk_of_ended heq hi he hok
  · rintro (rfl | ⟨hn, hend⟩)
    · exact compareOk_of_eq
    · by_cases heq : s1 = s2
      · rw [heq]
        exact compareOk_of_eq
      · exact compareOk_of_running hn heq hend

/-- `a` and `A`, each with its NUL. -/
def twoTexts : Mem := storeBytes (fun _ => 0) [0x61, 0, 0x41, 0]

/-- Two texts that are equal, and shorter than the count. -/
theorem not_compareOk_short : ¬CompareOk twoTexts 0 2 3 := by
  refine not_compareOk_of_ended (i := 1) (by decide) (by decide)
    ⟨⟨fun j hj => ?_, fun j hj => ?_⟩, rfl, rfl⟩
  · obtain rfl : j = 0 := by omega
    decide
  · obtain rfl : j = 0 := by omega
    rfl

end TuyaSdk.TuyaTools
