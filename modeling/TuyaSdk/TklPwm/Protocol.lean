import TuyaSdk.TklPwm.Calls

/-!
# What the driver has been told of a channel

A channel is off, on its own or half of a pair, by the last call that set it up or stopped it. The
adapter has one flag for all of that, and of a pair it looks at the first channel only. So an
update reaches the driver for a channel that it has in another way, unless the caller keeps to
what it has started (`calls_obey_iff`).
-/

namespace TuyaSdk.TklPwm

variable {drv : Driver} {s : Statics} {chId ch0 ch1 num : Nat}

/-! ## Situations -/

/-- How the driver has a channel. -/
inductive Situation where
  | off
  | single
  | half (pwm1 pwm2 : Nat)
  deriving DecidableEq, Repr

/-- `f` with the value `x` at both channels. -/
def setPair {α : Type} (f : Nat → α) (ch0 ch1 : Nat) (x : α) : Nat → α :=
  Function.update (Function.update f ch0 x) ch1 x

theorem setPair_apply {α : Type} (f : Nat → α) (x : α) (i : Nat) :
    setPair f ch0 ch1 x i = if i = ch0 ∨ i = ch1 then x else f i := by
  by_cases h1 : i = ch1
  · rw [setPair, h1, Function.update_self, if_pos (.inr rfl)]
  · rw [setPair, Function.update_of_ne h1]
    by_cases h0 : i = ch0
    · rw [h0, Function.update_self, if_pos (.inl rfl)]
    · rw [Function.update_of_ne h0, if_neg (not_or.mpr ⟨h0, h1⟩)]

/-- The situations behind a call on the driver, which answers `noErr`. A channel that was set up
without success is off. -/
def DrvCall.apply (noErr : Bool) (hw : Nat → Situation) : DrvCall → Nat → Situation
  | .bkInitialize pwm _ _ => Function.update hw pwm (if noErr then .single else .off)
  | .stop pwm => Function.update hw pwm .off
  | .cwInitialize pwm1 pwm2 _ _ _ _ =>
    setPair hw pwm1 pwm2 (if noErr then .half pwm1 pwm2 else .off)
  | .cwStop pwm1 pwm2 => setPair hw pwm1 pwm2 .off
  | _ => hw

/-- An update finds its channels set up for it, and not stopped since. -/
def DrvCall.Proper (hw : Nat → Situation) : DrvCall → Prop
  | .updateParam pwm _ _ => hw pwm = .single
  | .cwUpdateParam pwm1 pwm2 _ _ _ _ => hw pwm1 = .half pwm1 pwm2 ∧ hw pwm2 = .half pwm1 pwm2
  | _ => True

/-- The channels that the call sets up. -/
def DrvCall.SetsUp (ch : Nat) : DrvCall → Prop
  | .bkInitialize pwm _ _ => ch = pwm
  | .cwInitialize pwm1 pwm2 _ _ _ _ => ch = pwm1 ∨ ch = pwm2
  | _ => False

/-- The calls on the driver are proper, each behind those before it. -/
def ProperCalls (drv : Driver) : (Nat → Situation) → List DrvCall → Prop
  | _, [] => True
  | hw, c :: cs => c.Proper hw ∧ ProperCalls drv (c.apply (drv c) hw) cs

/-- The situations behind the calls on the driver. -/
def told (drv : Driver) (hw : Nat → Situation) (cs : List DrvCall) : Nat → Situation :=
  cs.foldl (fun hw c => c.apply (drv c) hw) hw

def Event.drvCall? : Event → Option DrvCall
  | .drv c => some c
  | _ => none

/-- What a call on the adapter asks of the driver. -/
def Outcome.drvCalls (o : Outcome) : List DrvCall := o.events.filterMap Event.drvCall?

/-- A call asks only for updates that are proper, and a channel that it could not set up is marked
as not started. -/
structure Obeyed (drv : Driver) (hw : Nat → Situation) (o : Outcome) : Prop where
  proper : ProperCalls drv hw o.drvCalls
  failed : ∀ c ∈ o.drvCalls, drv c = false → ∀ ch, c.SetsUp ch → o.statics.pwmStartFlag ch = false

/-- All calls of the sequence obey. One that divides by zero is the last. -/
def Obeys : Statics → (Nat → Situation) → List (Driver × Call) → Prop
  | _, _, [] => True
  | s, hw, (drv, c) :: rest => ∀ o, call drv s c = some o →
    Obeyed drv hw o ∧ Obeys o.statics (told drv hw o.drvCalls) rest

/-! ## What a caller can know -/

/-- The channels that are started, and how, by the calls and what they returned. -/
abbrev Book := Nat → Option Situation

/-- The pair is not refused for its frequencies or its duties. -/
def PairFits (s : Statics) (ch0 ch1 : Nat) : Prop :=
  (s.pwmCfg ch0).frequency = (s.pwmCfg ch1).frequency ∧
    (pwmCount (s.pwmCfg ch0).frequency).any (fun count =>
      count ≥ pwmDuty (s.pwmCfg ch0).duty count + pwmDuty (s.pwmCfg ch1).duty count) = true

instance : Decidable (PairFits s ch0 ch1) := inferInstanceAs (Decidable (_ ∧ _))

/-- The pair is brought up by `tkl_pwm_multichannel_start`. -/
def BringsUp (s : Statics) (book : Book) (ch0 ch1 num : Nat) : Prop :=
  num = 2 ∧ ¬ (ch0 > pwmDevNum ∨ ch1 > pwmDevNum) ∧ PairFits s ch0 ch1 ∧ book ch0 = none

instance {book : Book} : Decidable (BringsUp s book ch0 ch1 num) :=
  inferInstanceAs (Decidable (_ ∧ _ ∧ _ ∧ _))

/-- The book behind a call that returned `ret`. -/
def bookAfter (s : Statics) (book : Book) (ret : OperateRet) : Call → Book
  | .start chId =>
    if ret = .ok ∧ book chId = none then Function.update book chId (some .single) else book
  | .stop chId => if ret = .ok then Function.update book chId none else book
  | .multichannelStart ch0 ch1 num =>
    if BringsUp s book ch0 ch1 num then
      setPair book ch0 ch1 (if ret = .ok then some (.half ch0 ch1) else none)
    else book
  | .multichannelStop ch0 ch1 _ => if ret = .ok then setPair book ch0 ch1 none else book
  | _ => book

/-- A start finds the channel not started or started on its own, and a start of a pair finds its
first channel not started or both started as that pair. -/
def Allowed (s : Statics) (book : Book) : Call → Prop
  | .start chId => chId > pwmDevNum ∨ (s.pwmCfg chId).frequency = 0 ∨
    book chId = none ∨ book chId = some .single
  | .multichannelStart ch0 ch1 num => num ≠ 2 ∨ (ch0 > pwmDevNum ∨ ch1 > pwmDevNum) ∨
    ¬ PairFits s ch0 ch1 ∨ book ch0 = none ∨
    (book ch0 = some (.half ch0 ch1) ∧ book ch1 = some (.half ch0 ch1))
  | _ => True

/-- Every call of the sequence is allowed by the book that it finds. -/
def Disciplined : Statics → Book → List (Driver × Call) → Prop
  | _, _, [] => True
  | s, book, (drv, c) :: rest => Allowed s book c ∧
    ∀ o, call drv s c = some o → Disciplined o.statics (bookAfter s book o.ret c) rest

/-! ## The book and the driver agree -/

/-- The flags mark the channels of the book, and the driver has them as the book says. The second
half of a pair leaves the book together with the first or when it is set up anew. -/
structure Agrees (s : Statics) (hw : Nat → Situation) (book : Book) : Prop where
  marked : ∀ ch, s.pwmStartFlag ch = (book ch).isSome
  told : ∀ ch r, book ch = some r → hw ch = r
  halves : ∀ a b, book a = some (.half a b) → hw b = .half a b → book b = some (.half a b)

variable {hw : Nat → Situation} {book : Book}

theorem Agrees.congr {s' : Statics} (h : Agrees s hw book)
    (hflag : s'.pwmStartFlag = s.pwmStartFlag) : Agrees s' hw book :=
  ⟨by rw [hflag]; exact h.marked, h.told, h.halves⟩

/-- One channel is set up on its own, or stopped. -/
theorem Agrees.setOne {s' : Statics} {r : Situation} {m : Bool} (h : Agrees s hw book)
    (hr : ∀ a b, r ≠ .half a b) (hflag : s'.pwmStartFlag = Function.update s.pwmStartFlag chId m) :
    Agrees s' (Function.update hw chId r)
      (Function.update book chId (if m then some r else none)) := by
  have hbook : ∀ {q : Situation}, (if m then some r else none) = some q → r = q := by
    intro q hq
    split at hq
    · exact Option.some.inj hq
    · cases hq
  refine ⟨fun ch => ?_, fun ch q hq => ?_, fun a b ha hb => ?_⟩
  · rw [hflag]
    by_cases hch : ch = chId
    · rw [hch, Function.update_self, Function.update_self]
      cases m <;> rfl
    · rw [Function.update_of_ne hch, Function.update_of_ne hch]
      exact h.marked ch
  · by_cases hch : ch = chId
    · rw [hch, Function.update_self] at hq ⊢
      exact hbook hq
    · rw [Function.update_of_ne hch] at hq ⊢
      exact h.told ch q hq
  · have hane : a ≠ chId := by
      intro heq
      rw [heq, Function.update_self] at ha
      exact hr _ _ (hbook ha)
    have hbne : b ≠ chId := by
      intro heq
      rw [heq, Function.update_self] at hb
      exact hr _ _ hb
    rw [Function.update_of_ne hane] at ha
    rw [Function.update_of_ne hbne] at hb ⊢
    exact h.halves a b ha hb

/-- Two channels are set up as a pair, or stopped. -/
theorem Agrees.setTwo {s' : Statics} {r : Situation} {m : Bool} (h : Agrees s hw book)
    (hr : ∀ a b, r = .half a b → a = ch0 ∧ b = ch1)
    (hflag : s'.pwmStartFlag = setBoth s.pwmStartFlag ch0 ch1 m) :
    Agrees s' (setPair hw ch0 ch1 r) (setPair book ch0 ch1 (if m then some r else none)) := by
  have hpair : setBoth s.pwmStartFlag ch0 ch1 m = setPair s.pwmStartFlag ch0 ch1 m := rfl
  have hbook : ∀ {q : Situation}, (if m then some r else none) = some q → m = true ∧ r = q := by
    intro q hq
    split at hq
    next hm => exact ⟨hm, Option.some.inj hq⟩
    next => cases hq
  refine ⟨fun ch => ?_, fun ch q hq => ?_, fun a b ha hb => ?_⟩
  · rw [hflag, hpair, setPair_apply, setPair_apply]
    split
    · cases m <;> rfl
    · exact h.marked ch
  · rw [setPair_apply] at hq ⊢
    split at hq
    next hch =>
      rw [if_pos hch]
      exact (hbook hq).2
    next hch =>
      rw [if_neg hch]
      exact h.told ch q hq
  · rw [setPair_apply] at ha hb ⊢
    by_cases hin : a = ch0 ∨ a = ch1
    · rw [if_pos hin] at ha
      obtain ⟨hm, hhalf⟩ := hbook ha
      rw [if_pos (.inr (hr a b hhalf).2), hhalf, if_pos hm]
    · rw [if_neg hin] at ha
      by_cases hbin : b = ch0 ∨ b = ch1
      · rw [if_pos hbin] at hb
        exact absurd (.inl (hr a b hb).1) hin
      · rw [if_neg hbin] at hb ⊢
        exact h.halves a b ha hb

/-! ## One call -/

/-- What is shown of a call that returns: it obeys just when it is allowed, and then the book and
the driver agree behind it. -/
structure Keeps (drv : Driver) (s : Statics) (hw : Nat → Situation) (book : Book) (c : Call)
    (o : Outcome) : Prop where
  obeyed_iff : Obeyed drv hw o ↔ Allowed s book c
  agrees : Allowed s book c →
    Agrees o.statics (told drv hw o.drvCalls) (bookAfter s book o.ret c)

/-- A call that asks nothing of the driver. -/
theorem Keeps.silent {c : Call} {o : Outcome} (h : Agrees s hw book) (hcalls : o.drvCalls = [])
    (hflag : o.statics.pwmStartFlag = s.pwmStartFlag) (hbook : bookAfter s book o.ret c = book)
    (hallowed : Allowed s book c) : Keeps drv s hw book c o := by
  refine ⟨iff_of_true ⟨?_, ?_⟩ hallowed, fun _ => ?_⟩
  · rw [hcalls]
    trivial
  · rw [hcalls]
    exact fun _ hc => absurd hc List.not_mem_nil
  · rw [hcalls, hbook]
    exact h.congr hflag

theorem updateCfg_silent {f : PwmBaseCfg → PwmBaseCfg} :
    (updateCfg s chId f).drvCalls = [] ∧
      (updateCfg s chId f).statics.pwmStartFlag = s.pwmStartFlag := by
  rw [updateCfg]
  split
  next => exact ⟨rfl, rfl⟩
  next => exact ⟨rfl, rfl⟩

/-- The calls on the driver when a channel or a pair is brought up. -/
theorem bringUp_drvCalls (setUp start : DrvCall) :
    (bringUp drv setUp start).1.filterMap Event.drvCall? =
      if drv setUp then [setUp, start] else [setUp] := by
  rw [bringUp]
  split <;> rfl

theorem bringUp_snd (setUp start : DrvCall) :
    (bringUp drv setUp start).2 = (drv setUp && drv start) := by
  rw [bringUp]
  cases hsetUp : drv setUp <;> rfl

/-- A single call that sets nothing up obeys when it is proper. -/
theorem Obeyed.single {o : Outcome} {c : DrvCall} (hcalls : o.drvCalls = [c])
    (hnone : ∀ ch, ¬ c.SetsUp ch) (hproper : c.Proper hw) : Obeyed drv hw o := by
  constructor
  · rw [hcalls]
    exact ⟨hproper, trivial⟩
  · intro c' hc _ ch hsets
    rw [hcalls, List.mem_singleton] at hc
    rw [hc] at hsets
    exact absurd hsets (hnone ch)

/-- Bringing up asks for no update, and the start changes no situation. -/
theorem Obeyed.bringUp {o : Outcome} {setUp start : DrvCall}
    (hcalls : o.drvCalls = if drv setUp then [setUp, start] else [setUp])
    (hsetUp : ∀ hw, setUp.Proper hw) (hstart : ∀ hw, start.Proper hw)
    (hnone : ∀ ch, ¬ start.SetsUp ch)
    (hfailed : drv setUp = false → ∀ ch, setUp.SetsUp ch → o.statics.pwmStartFlag ch = false) :
    Obeyed drv hw o := by
  constructor
  · rw [hcalls]
    split
    · exact ⟨hsetUp _, hstart _, trivial⟩
    · exact ⟨hsetUp _, trivial⟩
  · intro c hc hno ch hsets
    rw [hcalls] at hc
    split at hc
    next hyes =>
      rcases List.mem_pair.mp hc with rfl | rfl
      · rw [hyes] at hno
        cases hno
      · exact absurd hsets (hnone ch)
    next =>
      rw [List.mem_singleton.mp hc] at hno hsets
      exact hfailed hno ch hsets

theorem told_bringUp {setUp start : DrvCall} (hstart : ∀ b hw, start.apply b hw = hw) :
    told drv hw (if drv setUp then [setUp, start] else [setUp]) = setUp.apply (drv setUp) hw := by
  split
  · exact hstart _ _
  · rfl

/-- What `tkl_pwm_start` does when it returns. -/
theorem start_cases {o : Outcome} (h : tklPwmStart drv s chId = some o) :
    (chId > pwmDevNum ∧ o = ⟨.invalidParm, s, []⟩) ∨
    (¬ chId > pwmDevNum ∧ (s.pwmCfg chId).frequency ≠ 0 ∧ ∃ count duty,
      (s.pwmStartFlag chId = false ∧
        o.ret = toRet (bringUp drv (.bkInitialize chId count duty) (.start chId)).2 ∧
        o.statics.pwmStartFlag = Function.update s.pwmStartFlag chId
          (bringUp drv (.bkInitialize chId count duty) (.start chId)).2 ∧
        o.drvCalls = (bringUp drv (.bkInitialize chId count duty) (.start chId)).1.filterMap
          Event.drvCall?) ∨
      (s.pwmStartFlag chId = true ∧ o.ret = .ok ∧ o.statics = s ∧
        o.drvCalls = [.updateParam chId count duty])) := by
  rw [tklPwmStart] at h
  by_cases hmax : chId > pwmDevNum
  · rw [if_pos hmax] at h
    exact .inl ⟨hmax, (Option.some.inj h).symm⟩
  rw [if_neg hmax] at h
  by_cases hzero : (s.pwmCfg chId).frequency = 0
  · rw [hzero, pwmCount_zero] at h
    cases h
  obtain ⟨count, hsome, -⟩ := pwmCount_of_ne hzero
  simp only [hsome] at h
  refine .inr ⟨hmax, hzero, count, pwmDuty (s.pwmCfg chId).duty count, ?_⟩
  split at h
  next hflag =>
    cases h
    refine .inl ⟨hflag, rfl, rfl, ?_⟩
    simp only [Outcome.drvCalls, List.filterMap_append, List.filterMap_cons, List.filterMap_nil,
      Event.drvCall?, List.nil_append, List.append_nil]
  next hflag =>
    cases h
    exact .inr ⟨Bool.eq_true_of_not_eq_false hflag, rfl, rfl, rfl⟩

theorem start_keeps {o : Outcome} (ha : Agrees s hw book) (h : tklPwmStart drv s chId = some o) :
    Keeps drv s hw book (.start chId) o := by
  rcases start_cases h with ⟨hmax, rfl⟩ | ⟨hmax, hzero, count, duty, hcase⟩
  · exact .silent ha rfl rfl rfl (.inl hmax)
  rcases hcase with ⟨hflag, hret, hmark, hcalls⟩ | ⟨hflag, hret, hsame, hcalls⟩
  · have hnone : book chId = none := by
      rw [← Option.isSome_eq_false_iff.trans Option.isNone_iff_eq_none, ← ha.marked chId]
      exact hflag
    rw [bringUp_drvCalls] at hcalls
    rw [bringUp_snd] at hret hmark
    refine ⟨iff_of_true (.bringUp hcalls (fun _ => trivial) (fun _ => trivial)
      (fun _ h => h) fun hno ch hch => ?_) (.inr (.inr (.inl hnone))), fun _ => ?_⟩
    · rw [hmark, hno, show ch = chId from hch, Function.update_self]
      rfl
    · rw [hcalls, told_bringUp (fun _ _ => rfl), hret]
      have hset := ha.setOne (r := if drv (.bkInitialize chId count duty) then .single else .off)
        (by intro a b; split <;> exact Situation.noConfusion) hmark
      have hbook : bookAfter s book (toRet (drv (.bkInitialize chId count duty) &&
          drv (.start chId))) (.start chId) = Function.update book chId
            (if drv (.bkInitialize chId count duty) && drv (.start chId) then
              some (if drv (.bkInitialize chId count duty) then .single else .off) else none) := by
        rw [bookAfter]
        cases hup : drv (.bkInitialize chId count duty) && drv (.start chId) with
        | true =>
          obtain ⟨hinit, -⟩ := Bool.and_eq_true_iff.mp hup
          rw [if_pos ⟨rfl, hnone⟩, if_pos rfl, if_pos hinit]
        | false =>
          have hret : ¬ toRet false = .ok := OperateRet.noConfusion
          rw [if_neg (fun h => hret h.1), if_neg Bool.noConfusion, ← hnone,
            Function.update_eq_self]
      rw [hbook]
      exact hset
  · obtain ⟨r, hr⟩ : ∃ r, book chId = some r := by
      rw [← Option.isSome_iff_exists, ← ha.marked chId]
      exact hflag
    have hiff : Allowed s book (.start chId) ↔ r = .single := by
      have hne : book chId ≠ none := by
        rw [hr]
        exact Option.some_ne_none r
      rw [Allowed, or_iff_right hmax, or_iff_right hzero, or_iff_right hne, hr, Option.some.injEq]
    refine ⟨?_, fun hallowed => ?_⟩
    · rw [hiff]
      constructor
      · rintro ⟨hproper, -⟩
        rw [hcalls] at hproper
        exact (ha.told chId r hr).symm.trans hproper.1
      · rintro rfl
        exact .single hcalls (fun _ h => h) (ha.told chId _ hr)
    · have hbook : bookAfter s book o.ret (.start chId) = book := by
        refine if_neg fun h => ?_
        rw [hr] at h
        cases h.2
      rw [hcalls, hbook]
      exact ha.congr (by rw [hsame])

theorem stop_keeps (ha : Agrees s hw book) :
    Keeps drv s hw book (.stop chId) (tklPwmStop s chId) := by
  by_cases hmax : chId > pwmDevNum
  · have hstop : tklPwmStop s chId = ⟨.invalidParm, s, []⟩ := if_pos hmax
    rw [hstop]
    exact .silent ha rfl rfl rfl trivial
  · have hstop : tklPwmStop s chId = ⟨.ok,
        { s with pwmStartFlag := Function.update s.pwmStartFlag chId false },
        [.drv (.stop chId), .flag chId]⟩ := if_neg hmax
    rw [hstop]
    refine ⟨iff_of_true (.single rfl (fun _ h => h) trivial) trivial, fun _ => ?_⟩
    exact ha.setOne (r := .off) (m := false) (fun _ _ => Situation.noConfusion) rfl

theorem multichannelStop_keeps (ha : Agrees s hw book) :
    Keeps drv s hw book (.multichannelStop ch0 ch1 num) (tklPwmMultichannelStop s ch0 ch1 num) := by
  by_cases hnum : num = 2
  swap
  · have hstop : tklPwmMultichannelStop s ch0 ch1 num = ⟨.notSupported, s, []⟩ := if_neg hnum
    rw [hstop]
    exact .silent ha rfl rfl rfl trivial
  by_cases hmax : ch0 > pwmDevNum ∨ ch1 > pwmDevNum
  · have hstop : tklPwmMultichannelStop s ch0 ch1 num = ⟨.invalidParm, s, []⟩ := by
      rw [tklPwmMultichannelStop, if_pos hnum, if_pos hmax]
    rw [hstop]
    exact .silent ha rfl rfl rfl trivial
  · have hstop : tklPwmMultichannelStop s ch0 ch1 num = ⟨.ok,
        { s with pwmStartFlag := setBoth s.pwmStartFlag ch0 ch1 false },
        [.drv (.cwStop ch0 ch1), .flag ch0, .flag ch1]⟩ := by
      rw [tklPwmMultichannelStop, if_pos hnum, if_neg hmax]
    rw [hstop]
    refine ⟨iff_of_true (.single rfl (fun _ h => h) trivial) trivial, fun _ => ?_⟩
    exact ha.setTwo (r := .off) (m := false) (fun _ _ h => Situation.noConfusion h) rfl

/-- What `tkl_pwm_multichannel_start` does when it returns. -/
theorem multichannelStart_cases {o : Outcome}
    (h : tklPwmMultichannelStart drv s ch0 ch1 num = some o) :
    ((num ≠ 2 ∨ (ch0 > pwmDevNum ∨ ch1 > pwmDevNum) ∨ ¬ PairFits s ch0 ch1) ∧
      o.drvCalls = [] ∧ o.statics = s) ∨
    (num = 2 ∧ ¬ (ch0 > pwmDevNum ∨ ch1 > pwmDevNum) ∧ PairFits s ch0 ch1 ∧
      ∃ count duty0 duty1 dead,
      (s.pwmStartFlag ch0 = false ∧
        o.ret = toRet (bringUp drv (.cwInitialize ch0 ch1 count duty0 duty1 dead)
          (.cwStart ch0 ch1)).2 ∧
        o.statics.pwmStartFlag = setBoth s.pwmStartFlag ch0 ch1
          (bringUp drv (.cwInitialize ch0 ch1 count duty0 duty1 dead) (.cwStart ch0 ch1)).2 ∧
        o.drvCalls = (bringUp drv (.cwInitialize ch0 ch1 count duty0 duty1 dead)
          (.cwStart ch0 ch1)).1.filterMap Event.drvCall?) ∨
      (s.pwmStartFlag ch0 = true ∧ o.statics = s ∧
        o.drvCalls = [.cwUpdateParam ch0 ch1 count duty0 duty1 dead])) := by
  rw [tklPwmMultichannelStart] at h
  by_cases hnum : num = 2
  swap
  · rw [if_neg hnum] at h
    cases h
    exact .inl ⟨.inl hnum, rfl, rfl⟩
  rw [if_pos hnum] at h
  by_cases hmax : ch0 > pwmDevNum ∨ ch1 > pwmDevNum
  · rw [if_pos hmax] at h
    cases h
    exact .inl ⟨.inr (.inl hmax), rfl, rfl⟩
  rw [if_neg hmax] at h
  by_cases hsame : (s.pwmCfg ch0).frequency = (s.pwmCfg ch1).frequency
  swap
  · rw [if_pos hsame] at h
    cases h
    exact .inl ⟨.inr (.inr fun hfits => hsame hfits.1), rfl, rfl⟩
  rw [if_neg (not_not.mpr hsame)] at h
  by_cases hzero : (s.pwmCfg ch0).frequency = 0
  · rw [hzero, pwmCount_zero] at h
    cases h
  obtain ⟨count, hsome, -⟩ := pwmCount_of_ne hzero
  simp only [hsome] at h
  by_cases hfit : count ≥ pwmDuty (s.pwmCfg ch0).duty count + pwmDuty (s.pwmCfg ch1).duty count
  · rw [if_pos hfit] at h
    have hfits : PairFits s ch0 ch1 := ⟨hsame, by rw [hsome]; exact decide_eq_true hfit⟩
    refine .inr ⟨hnum, hmax, hfits, count, pwmDuty (s.pwmCfg ch0).duty count,
      pwmDuty (s.pwmCfg ch1).duty count,
      (count - pwmDuty (s.pwmCfg ch0).duty count - pwmDuty (s.pwmCfg ch1).duty count) / 2, ?_⟩
    split at h
    next hflag =>
      cases h
      refine .inl ⟨hflag, rfl, rfl, ?_⟩
      simp only [Outcome.drvCalls, List.filterMap_append, List.filterMap_cons, List.filterMap_nil,
        Event.drvCall?, List.nil_append, List.append_nil]
    next hflag =>
      cases h
      exact .inr ⟨Bool.eq_true_of_not_eq_false hflag, rfl, rfl⟩
  · rw [if_neg hfit] at h
    cases h
    refine .inl ⟨.inr (.inr fun hfits => ?_), rfl, rfl⟩
    have hany := hfits.2
    rw [hsome] at hany
    exact hfit (of_decide_eq_true hany)

theorem multichannelStart_keeps {o : Outcome} (ha : Agrees s hw book)
    (h : tklPwmMultichannelStart drv s ch0 ch1 num = some o) :
    Keeps drv s hw book (.multichannelStart ch0 ch1 num) o := by
  rcases multichannelStart_cases h with ⟨hrefused, hcalls, hsame⟩ |
    ⟨hnum, hmax, hfits, count, duty0, duty1, dead, hcase⟩
  · refine .silent ha hcalls (by rw [hsame]) (if_neg ?_) ?_
    · rintro ⟨hnum, hmax, hfits, -⟩
      rcases hrefused with hne | hgt | hnot
      · exact hne hnum
      · exact hmax hgt
      · exact hnot hfits
    · rcases hrefused with hne | hgt | hnot
      · exact .inl hne
      · exact .inr (.inl hgt)
      · exact .inr (.inr (.inl hnot))
  rcases hcase with ⟨hflag, hret, hmark, hcalls⟩ | ⟨hflag, hsame, hcalls⟩
  · have hnone : book ch0 = none := by
      rw [← Option.isSome_eq_false_iff.trans Option.isNone_iff_eq_none, ← ha.marked ch0]
      exact hflag
    rw [bringUp_drvCalls] at hcalls
    rw [bringUp_snd] at hret hmark
    refine ⟨iff_of_true (.bringUp hcalls (fun _ => trivial) (fun _ => trivial)
      (fun _ h => h) fun hno ch hch => ?_) (.inr (.inr (.inr (.inl hnone)))), fun _ => ?_⟩
    · rw [hmark, hno]
      exact (setPair_apply s.pwmStartFlag false ch).trans (if_pos hch)
    · rw [hcalls, told_bringUp (fun _ _ => rfl), hret]
      have hset := ha.setTwo
        (r := if drv (.cwInitialize ch0 ch1 count duty0 duty1 dead) then .half ch0 ch1 else .off)
        (by
          intro a b
          split
          · intro heq
            cases heq
            exact ⟨rfl, rfl⟩
          · exact Situation.noConfusion) hmark
      have hbook : bookAfter s book (toRet (drv (.cwInitialize ch0 ch1 count duty0 duty1 dead) &&
          drv (.cwStart ch0 ch1))) (.multichannelStart ch0 ch1 num) = setPair book ch0 ch1
            (if drv (.cwInitialize ch0 ch1 count duty0 duty1 dead) && drv (.cwStart ch0 ch1) then
              some (if drv (.cwInitialize ch0 ch1 count duty0 duty1 dead) then .half ch0 ch1
                else .off) else none) := by
        rw [bookAfter, if_pos ⟨hnum, hmax, hfits, hnone⟩]
        cases hup : drv (.cwInitialize ch0 ch1 count duty0 duty1 dead) &&
            drv (.cwStart ch0 ch1) with
        | true =>
          obtain ⟨hinit, -⟩ := Bool.and_eq_true_iff.mp hup
          have hret : toRet true = .ok := rfl
          rw [if_pos hret, if_pos rfl, if_pos hinit]
        | false =>
          have hret : ¬ toRet false = .ok := OperateRet.noConfusion
          rw [if_neg hret, if_neg Bool.noConfusion]
      rw [hbook]
      exact hset
  · obtain ⟨r, hr⟩ : ∃ r, book ch0 = some r := by
      rw [← Option.isSome_iff_exists, ← ha.marked ch0]
      exact hflag
    have hiff : Allowed s book (.multichannelStart ch0 ch1 num) ↔
        book ch0 = some (.half ch0 ch1) ∧ book ch1 = some (.half ch0 ch1) := by
      have hne : book ch0 ≠ none := by
        rw [hr]
        exact Option.some_ne_none r
      rw [Allowed, or_iff_right (not_not.mpr hnum), or_iff_right hmax,
        or_iff_right (not_not.mpr hfits), or_iff_right hne]
    refine ⟨?_, fun hallowed => ?_⟩
    · rw [hiff]
      constructor
      · rintro ⟨hproper, -⟩
        rw [hcalls] at hproper
        obtain ⟨⟨h0, h1⟩, -⟩ := hproper
        have hhalf : book ch0 = some (.half ch0 ch1) := by
          rw [hr, ← ha.told ch0 r hr, h0]
        exact ⟨hhalf, ha.halves ch0 ch1 hhalf h1⟩
      · rintro ⟨h0, h1⟩
        exact .single hcalls (fun _ h => h) ⟨ha.told ch0 _ h0, ha.told ch1 _ h1⟩
    · have hbook : bookAfter s book o.ret (.multichannelStart ch0 ch1 num) = book := by
        refine if_neg fun h => ?_
        have hnone := h.2.2.2
        rw [hr] at hnone
        cases hnone
      rw [hcalls, hbook]
      exact ha.congr (by rw [hsame])

theorem call_keeps {c : Call} {o : Outcome} (ha : Agrees s hw book) (h : call drv s c = some o) :
    Keeps drv s hw book c o := by
  cases c with
  | start => exact start_keeps ha h
  | stop =>
    cases h
    exact stop_keeps ha
  | multichannelStart => exact multichannelStart_keeps ha h
  | multichannelStop =>
    cases h
    exact multichannelStop_keeps ha
  | init =>
    cases h
    exact .silent ha updateCfg_silent.1 updateCfg_silent.2 rfl trivial
  | dutySet =>
    cases h
    exact .silent ha updateCfg_silent.1 updateCfg_silent.2 rfl trivial
  | frequencySet =>
    cases h
    exact .silent ha updateCfg_silent.1 updateCfg_silent.2 rfl trivial
  | infoSet =>
    cases h
    exact .silent ha updateCfg_silent.1 updateCfg_silent.2 rfl trivial
  | infoGet chId info =>
    cases h
    have hget : (tklPwmInfoGet s chId info).1.drvCalls = [] ∧
        (tklPwmInfoGet s chId info).1.statics = s := by
      rw [tklPwmInfoGet]
      split
      next => exact ⟨rfl, rfl⟩
      next => exact ⟨rfl, rfl⟩
    exact .silent ha hget.1 (by rw [hget.2]) rfl trivial

/-- A call that divides by zero asks nothing of the driver before. -/
theorem allowed_of_none {c : Call} (h : call drv s c = none) : Allowed s book c := by
  cases c with
  | start chId =>
    by_cases hzero : (s.pwmCfg chId).frequency = 0
    · exact .inr (.inl hzero)
    refine .inl ?_
    by_contra hmax
    obtain ⟨count, hsome, -⟩ := pwmCount_of_ne hzero
    have hcall : tklPwmStart drv s chId = none := h
    rw [tklPwmStart, if_neg hmax] at hcall
    simp only [hsome] at hcall
    split at hcall
    next => cases hcall
    next => cases hcall
  | multichannelStart ch0 ch1 num =>
    refine .inr (.inr (.inl fun hfits => ?_))
    obtain ⟨count, hsome, hfit⟩ := (Option.any_eq_true _ _).mp hfits.2
    have hcall : tklPwmMultichannelStart drv s ch0 ch1 num = none := h
    rw [tklPwmMultichannelStart] at hcall
    split at hcall
    swap
    · cases hcall
    split at hcall
    next => cases hcall
    rw [if_neg (not_not.mpr hfits.1)] at hcall
    simp only [hsome] at hcall
    rw [if_pos (of_decide_eq_true hfit)] at hcall
    split at hcall
    next => cases hcall
    next => cases hcall
  | _ => trivial

/-! ## Sequences -/

theorem run_obeys_iff {calls : List (Driver × Call)} (ha : Agrees s hw book) :
    Obeys s hw calls ↔ Disciplined s book calls := by
  induction calls generalizing s hw book with
  | nil => exact Iff.rfl
  | cons step rest ih =>
    obtain ⟨drv, c⟩ := step
    rw [Obeys, Disciplined]
    cases ho : call drv s c with
    | none =>
      refine iff_of_true (fun o h => absurd h.symm (Option.some_ne_none o))
        ⟨allowed_of_none ho, fun o h => absurd h.symm (Option.some_ne_none o)⟩
    | some o =>
      have hkeeps := call_keeps ha ho
      constructor
      · intro h
        obtain ⟨hobeyed, hrest⟩ := h o rfl
        have hallowed := hkeeps.obeyed_iff.mp hobeyed
        refine ⟨hallowed, fun o' ho' => ?_⟩
        cases ho'
        exact (ih (hkeeps.agrees hallowed)).mp hrest
      · rintro ⟨hallowed, hrest⟩ o' ho'
        cases ho'
        exact ⟨hkeeps.obeyed_iff.mpr hallowed, (ih (hkeeps.agrees hallowed)).mpr (hrest o rfl)⟩

/-- The book before the first call: no channel is started, and if the memory behind the flags
marks one, then as off. -/
def firstBook (s : Statics) : Book := fun ch => if s.pwmStartFlag ch then some .off else none

theorem agrees_first (s : Statics) : Agrees s (fun _ => .off) (firstBook s) := by
  refine ⟨fun ch => ?_, fun ch r hr => ?_, fun a b ha hb => Situation.noConfusion hb⟩
  · rw [firstBook]
    cases s.pwmStartFlag ch <;> rfl
  · rw [firstBook] at hr
    split at hr
    · exact Option.some.inj hr
    · cases hr

/-- Updates reach only channels and pairs that were set up for them and not stopped since, and a
set-up that fails leaves its channels not started, in just those sequences of calls in which each
start is allowed by what the calls before it have started. -/
theorem calls_obey_iff (s : Statics) (calls : List (Driver × Call)) :
    Obeys s (fun _ => .off) calls ↔ Disciplined s (firstBook s) calls :=
  run_obeys_iff (agrees_first s)

/-- Two channels of 1 kHz, a quarter on each. -/
def twoQuarters : Statics := ⟨fun _ => ⟨.negative, 2500, 1000⟩, fun _ => false⟩

/-- The pair is started, and then its first channel on its own. -/
theorem not_calls_obey :
    ¬ Obeys twoQuarters (fun _ => .off)
      [(fun _ => true, .multichannelStart 0 1 2), (fun _ => true, .start 0)] := by
  rw [run_obeys_iff (agrees_first twoQuarters)]
  rintro ⟨-, hrest⟩
  obtain ⟨hstart, -⟩ := hrest _ rfl
  rcases hstart with hmax | hzero | hnone | hsingle
  · exact absurd hmax (by decide)
  · exact absurd hzero (by decide)
  · exact absurd hnone (by decide)
  · exact absurd hsingle (by decide)

end TuyaSdk.TklPwm
