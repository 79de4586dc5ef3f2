import TuyaSdk.TklOta.Steps

/-!
# The buffers of an upgrade

Four pointers get blocks of `tkl_system_malloc`: the globals `ug_proc` and
`frist_block_databuf`, and the locals `buf` of `tkl_ota_data_process` and `pTempbuf` of
`tkl_ota_end_notify`. The events tell through which pointer a block was got or freed; `held`
follows one pointer through them. A block in `buf` is lost when the call that got it returns
before the image is in.
-/

namespace TuyaSdk.TklOta
open TuyaSdk.Lib TuyaSdk.Flash

/-! ## Blocks in the trace -/

/-- What an event does to the block got through a pointer: none is held, one is held, or (`none`)
one has been lost or freed twice. -/
def heldBy (b : OtaBlock) (h : Option Bool) : OtaEvent → Option Bool
  | .malloc b' => if b' = b then (if h = some false then some true else none) else h
  | .free b' => if b' = b then (if h = some true then some false else none) else h
  | _ => h

/-- The block of a pointer after the events. -/
def held (b : OtaBlock) (t : List OtaEvent) : Option Bool := t.foldl (heldBy b) (some false)

/-- Every block got has been freed, once. -/
def AllFreed (t : List OtaEvent) : Prop := ∀ b, held b t = some false

theorem held_append (b : OtaBlock) (t : List OtaEvent) (e : OtaEvent) :
    held b (t ++ [e]) = heldBy b (held b t) e := by
  unfold held
  rw [List.foldl_append]
  rfl

/-! ## When a call loses its buffer -/

/-- The end of a pack of `len` bytes with `left` bytes behind its units, when `cnt` bytes are in:
the last write fails, or the image is in. -/
def Ends (env : OtaEnv) (len binLen cnt left : Nat) : Prop :=
  if sub32 binLen 512 < cnt ∧ sub32 binLen cnt ≤ left then
    (env.writeFails (len - left)).isSome ∨ binLen ≤ u32 (cnt + left)
  else binLen ≤ cnt

/-- The pack brings the first unit of the image, both buffers are got and no unit fails to be
written, but the pack does not end. -/
def LosesBuf (env : OtaEnv) (s : OtaState) (data : List Byte) : Prop :=
  match s.ugProc with
  | none => False
  | some p =>
    p.stat = .recvImgData ∧ s.firstBlock = true ∧ 512 ≤ data.length ∧
      (s.fristBlockDatabuf.isSome ∨ env.malloc .fristBlockDatabuf = true) ∧
      env.malloc .buf = true ∧ (∀ i < data.length / 512, env.writeFails (512 * i) = none) ∧
      ¬Ends env data.length p.fileHeader.binLen (u32 (p.recvDataCnt + 512 * (data.length / 512)))
        (data.length % 512)

/-- The call does not lose its buffer. -/
def KeepsBuf (s : OtaState) : OtaCall → Prop
  | .dataProcess env pack => ¬LosesBuf env s pack.data
  | _ => True

instance (env : OtaEnv) (len binLen cnt left : Nat) : Decidable (Ends env len binLen cnt left) := by
  unfold Ends
  infer_instance

instance (env : OtaEnv) (s : OtaState) (data : List Byte) : Decidable (LosesBuf env s data) := by
  unfold LosesBuf
  cases s.ugProc <;> infer_instance

instance (s : OtaState) (c : OtaCall) : Decidable (KeepsBuf s c) := by
  cases c <;> unfold KeepsBuf <;> infer_instance

/-! ## Calls that leave the buffers alone -/

/-- The blocks and the flag of the first block are as before. -/
structure Quiet (s s' : OtaState) : Prop where
  held : ∀ b, held b s'.trace = held b s.trace
  ugProc : s'.ugProc = s.ugProc
  fristBlockDatabuf : s'.fristBlockDatabuf = s.fristBlockDatabuf
  firstBlock : s'.firstBlock = s.firstBlock

section

variable {env : OtaEnv} {s s' s'' : OtaState} {data : List Byte} {v : UnitVars} {h : Bool}

theorem Quiet.refl (s : OtaState) : Quiet s s := ⟨fun _ => rfl, rfl, rfl, rfl⟩

theorem Quiet.trans (h : Quiet s s') (h' : Quiet s' s'') : Quiet s s'' :=
  ⟨fun b => (h'.held b).trans (h.held b), h'.ugProc.trans h.ugProc,
    h'.fristBlockDatabuf.trans h.fristBlockDatabuf, h'.firstBlock.trans h.firstBlock⟩

theorem quiet_write (fails : Option Nat) (addr : Nat) (src : Nat → Byte) (size : Nat) :
    Quiet s (s.tklFlashWrite fails addr src size) :=
  ⟨fun b => held_append b _ _, rfl, rfl, rfl⟩

theorem quiet_restore (fails : Option Nat) (addr : Nat) (src : Nat → Byte) (size : Nat) :
    Quiet s (s.restore fails addr src size) :=
  ⟨fun b => held_append b _ _, rfl, rfl, rfl⟩

theorem quiet_erase (addr size : Nat) : Quiet s (s.tklFlashErase addr size) := by
  unfold OtaState.tklFlashErase
  generalize tklEraseSectors addr size = sectors
  induction sectors generalizing s with
  | nil => exact .refl s
  | cons a sectors ih =>
    have hone : Quiet s (s.eraseSector a) := ⟨fun b => held_append b _ _, rfl, rfl, rfl⟩
    exact hone.trans ih

theorem quiet_accepted (n : Nat) : Quiet s (s.record (.accepted n)) :=
  ⟨fun b => held_append b _ _, rfl, rfl, rfl⟩

theorem quiet_reset : Quiet s (s.record .reset) := ⟨fun b => held_append b _ _, rfl, rfl, rfl⟩

/-! ## The blocks between calls -/

/-- The globals hold their blocks, `pTempbuf` none; `h` tells whether a block of `buf` has been
lost, which only happens with the first block. -/
structure Owned (s : OtaState) (h : Bool) : Prop where
  ugProc : held .ugProc s.trace = some s.ugProc.isSome
  first : held .fristBlockDatabuf s.trace = some s.fristBlockDatabuf.isSome
  tempbuf : held .tempbuf s.trace = some false
  buf : held .buf s.trace = some h

theorem Owned.quiet (ho : Owned s h) (hq : Quiet s s') : Owned s' h := by
  refine ⟨?_, ?_, ?_, ?_⟩
  · rw [hq.held, hq.ugProc]
    exact ho.ugProc
  · rw [hq.held, hq.fristBlockDatabuf]
    exact ho.first
  · rw [hq.held]
    exact ho.tempbuf
  · rw [hq.held]
    exact ho.buf

/-- The contents of the globals do not matter. -/
theorem Owned.of_isSome (ho : Owned s h) (ht : s'.trace = s.trace)
    (hp : s'.ugProc.isSome = s.ugProc.isSome)
    (hf : s'.fristBlockDatabuf.isSome = s.fristBlockDatabuf.isSome) : Owned s' h := by
  refine ⟨?_, ?_, ?_, ?_⟩
  · rw [ht, hp]
    exact ho.ugProc
  · rw [ht, hf]
    exact ho.first
  · rw [ht]
    exact ho.tempbuf
  · rw [ht]
    exact ho.buf

theorem Owned.malloc_buf (ho : Owned s false) : Owned (s.record (.malloc .buf)) true := by
  refine ⟨?_, ?_, ?_, ?_⟩
  · exact (held_append _ _ _).trans ho.ugProc
  · exact (held_append _ _ _).trans ho.first
  · exact (held_append _ _ _).trans ho.tempbuf
  · refine (held_append _ _ _).trans ?_
    rw [ho.buf]
    rfl

theorem Owned.free_buf (ho : Owned s true) : Owned (s.record (.free .buf)) false := by
  refine ⟨?_, ?_, ?_, ?_⟩
  · exact (held_append _ _ _).trans ho.ugProc
  · exact (held_append _ _ _).trans ho.first
  · exact (held_append _ _ _).trans ho.tempbuf
  · refine (held_append _ _ _).trans ?_
    rw [ho.buf]
    rfl

/-- `buf` is freed, or is NULL. -/
theorem Owned.freeBuf {buf : Bool} (ho : Owned s (h || buf)) (hh : h = true → buf = false) :
    Owned (s.freeBuf buf) h := by
  cases buf with
  | false =>
    rw [Bool.or_false] at ho
    exact ho
  | true =>
    cases h with
    | false => exact ho.free_buf
    | true => exact absurd (hh rfl) (by decide)

/-- The first block gets its buffer, unless it has it. -/
theorem Owned.malloc_first (ho : Owned s h) (block : Nat → Byte) :
    Owned { (if s.fristBlockDatabuf.isNone then s.record (.malloc .fristBlockDatabuf) else s) with
      fristBlockDatabuf := some block } h := by
  cases hf : s.fristBlockDatabuf with
  | some block' =>
    refine ho.of_isSome rfl rfl ?_
    rw [hf]
    rfl
  | none =>
    have hfirst := ho.first
    rw [hf] at hfirst
    refine ⟨?_, ?_, ?_, ?_⟩
    · exact (held_append _ _ _).trans ho.ugProc
    · refine (held_append _ _ _).trans ?_
      rw [hfirst]
      rfl
    · exact (held_append _ _ _).trans ho.tempbuf
    · exact (held_append _ _ _).trans ho.buf

/-! ## The units of a pack -/

/-- The variables of the unit loop after `k` units that are not the first of the image. -/
structure Behind (v₀ v : UnitVars) (k : Nat) : Prop where
  quiet : Quiet v₀.s v.s
  buf : v.buf = v₀.buf
  left : v.writeLen + 512 * k = v₀.writeLen
  header : v.p.fileHeader = v₀.p.fileHeader ∧ v.p.startAddr = v₀.p.startAddr
  cnt : ∀ c, v₀.p.recvDataCnt = u32 c → v.p.recvDataCnt = u32 (c + 512 * k)

theorem advance_p (v : UnitVars) (s : OtaState) (buf : Bool) : (v.advance s buf).p =
    { v.p with
      flashAddr := u32 (v.p.flashAddr + 512)
      recvDataCnt := u32 (v.p.recvDataCnt + 512) } := rfl

theorem unitPass_rest (env : OtaEnv) (data : List Byte) (hf : v.s.firstBlock = false)
    (hge : 512 ≤ v.writeLen) : ∃ s₁, Quiet v.s s₁ ∧ unitPass env data v =
      if (env.writeFails (data.length - v.writeLen)).isSome then
        .exit ({ v with s := s₁.freeBuf v.buf, buf := false }, some .processFailed)
      else .again (v.advance s₁ v.buf) := by
  refine ⟨v.s.tklFlashWrite (env.writeFails (data.length - v.writeLen)) v.p.flashAddr
    (packAt data (data.length - v.writeLen)) 512, quiet_write _ _ _ _, ?_⟩
  unfold unitPass
  rw [if_neg (Nat.not_lt.mpr hge), hf]
  rfl

/-- What the unit loop leaves behind when the first unit is in: all units are in, or one of them
has failed to be written. -/
theorem restUnits_spec (env : OtaEnv) {v₀ : UnitVars} (hf : v₀.s.firstBlock = false)
    (hle : v₀.writeLen ≤ data.length) {n : Nat} (hn : v₀.writeLen < n) :
    ∃ r, Loop.run (unitPass env data) n v₀ = some r ∧
      ((∃ k, r.2 = none ∧ Behind v₀ r.1 k ∧ r.1.writeLen < 512 ∧
          ∀ i < k, env.writeFails (data.length - v₀.writeLen + 512 * i) = none) ∨
        ∃ k v s₁, r.2 = some .processFailed ∧ Behind v₀ v k ∧ 512 ≤ v.writeLen ∧
          (env.writeFails (data.length - v₀.writeLen + 512 * k)).isSome ∧ Quiet v.s s₁ ∧
          r.1.s = s₁.freeBuf v.buf ∧ r.1.p = v.p) := by
  refine Loop.run_spec (I := fun v => ∃ k, Behind v₀ v k ∧
      ∀ i < k, env.writeFails (data.length - v₀.writeLen + 512 * i) = none)
    (fun v => v.writeLen) ?_ ?_ ⟨0, ⟨.refl _, rfl, rfl, ⟨rfl, rfl⟩, fun c hc => hc⟩,
      fun i hi => absurd hi (Nat.not_lt_zero i)⟩ hn
  · intro v r ⟨k, hk, hbefore⟩ hb
    by_cases hlen : v.writeLen < 512
    · have hexit : unitPass env data v = .exit (v, none) := if_pos hlen
      rw [hexit] at hb
      cases hb
      exact Or.inl ⟨k, rfl, hk, hlen, hbefore⟩
    · have hge := Nat.le_of_not_lt hlen
      obtain ⟨s₁, hq, hpass⟩ := unitPass_rest env data
        (hk.quiet.firstBlock.trans hf) hge
      have hoff : data.length - v.writeLen = data.length - v₀.writeLen + 512 * k := by
        have := hk.left
        omega
      rw [hpass, hoff] at hb
      by_cases hfails : (env.writeFails (data.length - v₀.writeLen + 512 * k)).isSome
      · rw [if_pos hfails] at hb
        cases hb
        exact Or.inr ⟨k, v, s₁, rfl, hk, hge, hfails, hq, rfl, rfl⟩
      · rw [if_neg hfails] at hb
        cases hb
  · intro v v' ⟨k, hk, hbefore⟩ hb
    have hge : 512 ≤ v.writeLen := by
      by_contra hlen
      have hexit : unitPass env data v = .exit (v, none) := if_pos (Nat.lt_of_not_le hlen)
      rw [hexit] at hb
      cases hb
    obtain ⟨s₁, hq, hpass⟩ := unitPass_rest env data
      (hk.quiet.firstBlock.trans hf) hge
    have hleft := hk.left
    have hoff : data.length - v.writeLen = data.length - v₀.writeLen + 512 * k := by omega
    rw [hpass, hoff] at hb
    by_cases hfails : (env.writeFails (data.length - v₀.writeLen + 512 * k)).isSome
    · rw [if_pos hfails] at hb
      cases hb
    · rw [if_neg hfails] at hb
      cases hb
      refine ⟨⟨k + 1, ⟨hk.quiet.trans hq, hk.buf, ?_, ?_, ?_⟩, ?_⟩, ?_⟩
      · show v.writeLen - 512 + 512 * (k + 1) = v₀.writeLen
        omega
      · rw [advance_p]
        exact hk.header
      · intro c hc
        rw [advance_p, hk.cnt c hc]
        show u32 (u32 (c + 512 * k) + 512) = u32 (c + 512 * (k + 1))
        unfold u32
        omega
      · intro i hi
        rcases Nat.lt_succ_iff_lt_or_eq.mp hi with hlt | rfl
        · exact hbefore i hlt
        · exact Option.not_isSome_iff_eq_none.mp hfails
      · show v.writeLen - 512 < v.writeLen
        omega

/-- The end of a pack frees `buf` exactly when the pack ends. -/
theorem imgTail_ends (env : OtaEnv) (data : List Byte) (v : UnitVars) :
    ∃ s₁ p', Quiet v.s s₁ ∧ p'.fileHeader = v.p.fileHeader ∧ p'.startAddr = v.p.startAddr ∧
      (imgTail env data v).1 =
        { (if Ends env data.length v.p.fileHeader.binLen v.p.recvDataCnt v.writeLen then
            s₁.freeBuf v.buf else s₁) with ugProc := some p' } := by
  have hends : Ends env data.length v.p.fileHeader.binLen v.p.recvDataCnt v.writeLen ↔
      if sub32 v.p.fileHeader.binLen 512 < v.p.recvDataCnt ∧
          sub32 v.p.fileHeader.binLen v.p.recvDataCnt ≤ v.writeLen then
        (env.writeFails (data.length - v.writeLen)).isSome ∨
          v.p.fileHeader.binLen ≤ u32 (v.p.recvDataCnt + v.writeLen)
      else v.p.fileHeader.binLen ≤ v.p.recvDataCnt := Iff.rfl
  obtain ⟨s₁, hs₁⟩ : ∃ s₁, s₁ = v.s.tklFlashWrite (env.writeFails (data.length - v.writeLen))
    v.p.flashAddr (packAt data (data.length - v.writeLen)) v.writeLen := ⟨_, rfl⟩
  have hq : Quiet v.s s₁ := by
    rw [hs₁]
    exact quiet_write _ _ _ _
  unfold imgTail
  simp only
  rw [← hs₁]
  by_cases hlast : sub32 v.p.fileHeader.binLen 512 < v.p.recvDataCnt ∧
      sub32 v.p.fileHeader.binLen v.p.recvDataCnt ≤ v.writeLen
  · rw [if_pos hlast] at hends
    rw [if_pos hlast]
    by_cases hfails : (env.writeFails (data.length - v.writeLen)).isSome
    · refine ⟨s₁, v.p, hq, rfl, rfl, ?_⟩
      rw [if_pos hfails, if_pos (hends.mpr (Or.inl hfails))]
    · rw [if_neg hfails]
      unfold finishCheck
      simp only
      obtain ⟨p₁, hp₁⟩ : ∃ p₁ : UgProc, p₁ = { v.p with
        flashAddr := u32 (v.p.flashAddr + v.writeLen)
        recvDataCnt := u32 (v.p.recvDataCnt + v.writeLen) } := ⟨_, rfl⟩
      have hheader : p₁.fileHeader = v.p.fileHeader ∧ p₁.startAddr = v.p.startAddr := by
        rw [hp₁]
        exact ⟨rfl, rfl⟩
      by_cases hin : v.p.fileHeader.binLen ≤ u32 (v.p.recvDataCnt + v.writeLen)
      · rw [if_pos hin]
        refine ⟨s₁, { p₁ with stat := .finish }, hq, hheader.1, hheader.2, ?_⟩
        rw [if_pos (hends.mpr (Or.inr hin)), hp₁]
      · rw [if_neg hin]
        refine ⟨s₁, p₁, hq, hheader.1, hheader.2, ?_⟩
        rw [if_neg fun h => not_or.mpr ⟨hfails, hin⟩ (hends.mp h), hp₁]
  · rw [if_neg hlast] at hends
    rw [if_neg hlast]
    unfold finishCheck
    by_cases hin : v.p.fileHeader.binLen ≤ v.p.recvDataCnt
    · rw [if_pos hin]
      refine ⟨v.s, { v.p with stat := .finish }, .refl _, rfl, rfl, ?_⟩
      rw [if_pos (hends.mpr hin)]
    · rw [if_neg hin]
      refine ⟨v.s, v.p, .refl _, rfl, rfl, ?_⟩
      rw [if_neg fun h => hin (hends.mp h)]

/-- The header that was accepted is not too large, or there is none. -/
def UgProc.Fits (p : UgProc) : Prop :=
  p.fileHeader.binLen < otaMaxBinSize ∧ p.startAddr ≤ ugStartAddr

/-- What holds between calls. -/
structure Buffers (s : OtaState) (h : Bool) : Prop where
  owned : Owned s h
  lost : h = true → s.firstBlock = false
  fits : ∀ p, s.ugProc = some p → p.Fits
  none : s.ugProc = none → s.fristBlockDatabuf = none

theorem Buffers.with_ugProc {p p' : UgProc} (hs : s.ugProc = some p) (hb : Owned s' h)
    (hproc : s'.ugProc = s.ugProc) (hlost : h = true → s'.firstBlock = false) (hp : p'.Fits) :
    Buffers { s' with ugProc := some p' } h := by
  refine ⟨hb.of_isSome rfl ?_ rfl, hlost, ?_, fun h0 => nomatch h0⟩
  · rw [hproc, hs]
    rfl
  · intro q hq
    cases hq
    exact hp

/-- The end of a pack, with a block in `buf` or none. -/
theorem imgTail_buffers (env : OtaEnv) (data : List Byte) {p : UgProc} (hs : s.ugProc = some p)
    (ho : Owned v.s (h || v.buf))
    (hproc : v.s.ugProc = s.ugProc) (hh : h = true → v.buf = false)
    (hfirst : (h || v.buf) = true → v.s.firstBlock = false) (hp : v.p.Fits) :
    Buffers (imgTail env data v).1 (h || (v.buf &&
      !decide (Ends env data.length v.p.fileHeader.binLen v.p.recvDataCnt v.writeLen))) := by
  obtain ⟨s₁, p', hq, hheader, hstart, heq⟩ := imgTail_ends env data v
  have hp' : p'.Fits := by
    unfold UgProc.Fits
    rw [hheader, hstart]
    exact hp
  have ho₁ := ho.quiet hq
  have hf₁ : (h || v.buf) = true → s₁.firstBlock = false := fun hl =>
    hq.firstBlock.trans (hfirst hl)
  rw [heq]
  by_cases hends : Ends env data.length v.p.fileHeader.binLen v.p.recvDataCnt v.writeLen
  · rw [if_pos hends, decide_eq_true hends, Bool.not_true, Bool.and_false, Bool.or_false]
    refine .with_ugProc hs (ho₁.freeBuf hh) ?_ (fun hl => ?_) hp'
    · rw [OtaState.freeBuf_ugProc]
      exact hq.ugProc.trans hproc
    · rw [OtaState.freeBuf_firstBlock]
      exact hf₁ (by rw [hl]; rfl)
  · rw [if_neg hends, decide_eq_false hends, Bool.not_false, Bool.and_true]
    exact .with_ugProc hs ho₁ (hq.ugProc.trans hproc) hf₁ hp'

/-- A pack that does not bring the first unit. -/
theorem recvImgData_rest {p : UgProc} (hb : Buffers s h) (hs : s.ugProc = some p)
    (hfirst : s.firstBlock = false) :
    ∃ r, recvImgData env s p data = some r ∧ Buffers r.1 h := by
  unfold recvImgData
  by_cases hwait : data.length < 512 ∧ p.recvDataCnt ≤ sub32 p.fileHeader.binLen 512
  · rw [if_pos hwait]
    exact ⟨_, rfl, hb⟩
  · rw [if_neg hwait]
    obtain ⟨v₀, hv₀⟩ : ∃ v₀ : UnitVars, v₀ = ⟨s, p, false, data.length, data.length⟩ := ⟨_, rfl⟩
    have hf₀ : v₀.s.firstBlock = false := by
      rw [hv₀]
      exact hfirst
    have hw₀ : v₀.writeLen = data.length := by rw [hv₀]
    obtain ⟨⟨v, ret⟩, hrun, hend⟩ := restUnits_spec env hf₀ (Nat.le_of_eq hw₀)
      (show v₀.writeLen < data.length + 1 by omega)
    rw [← hv₀, hrun]
    have hfits : ∀ {v : UnitVars} {k : Nat}, Behind v₀ v k → v.p.Fits := by
      intro v k hk
      unfold UgProc.Fits
      rw [hk.header.1, hk.header.2, hv₀]
      exact hb.fits p hs
    rcases hend with ⟨k, hret, hk, -⟩ | ⟨k, v', s₁, hret, hk, -, -, hq, hvs, hvp⟩
    · simp only at hret hk
      subst hret
      have hbuf : v.buf = false := hk.buf.trans (by rw [hv₀])
      have hquiet : Quiet s v.s := by
        have := hk.quiet
        rwa [hv₀] at this
      have htail := imgTail_buffers env data hs
        (by rw [hbuf, Bool.or_false]; exact hb.owned.quiet hquiet) hquiet.ugProc (fun _ => hbuf)
        (fun _ => hquiet.firstBlock.trans hfirst) (hfits hk)
      rw [hbuf, Bool.false_and, Bool.or_false] at htail
      exact ⟨_, rfl, htail⟩
    · simp only at hret hvs hvp
      subst hret
      have hbuf : v'.buf = false := hk.buf.trans (by rw [hv₀])
      have hquiet : Quiet s s₁ := by
        have := hk.quiet.trans hq
        rwa [hv₀] at this
      have hvs : v.s = s₁ := by rw [hvs, hbuf]; rfl
      refine ⟨_, rfl, ?_⟩
      show Buffers { v.s with ugProc := some v.p } h
      rw [hvs, hvp]
      exact .with_ugProc hs (hb.owned.quiet hquiet) hquiet.ugProc
        (fun _ => hquiet.firstBlock.trans hfirst) (hfits hk)

/-- The first unit of the image: an allocation fails, or the write, or the loop goes on with
`buf`. -/
theorem unitPass_firstUnit (env : OtaEnv) (data : List Byte) (ho : Owned v.s false)
    (hge : 512 ≤ v.writeLen) (hf : v.s.firstBlock = true) :
    ∃ s₁, s₁.ugProc = v.s.ugProc ∧
      (((v.s.fristBlockDatabuf.isSome ∨ env.malloc .fristBlockDatabuf = true) ∧
          env.malloc .buf = true ∧ env.writeFails (data.length - v.writeLen) = none ∧
          s₁.firstBlock = false ∧ Owned s₁ true ∧
          unitPass env data v = .again (v.advance s₁ true)) ∨
        ¬((v.s.fristBlockDatabuf.isSome ∨ env.malloc .fristBlockDatabuf = true) ∧
          env.malloc .buf = true ∧ env.writeFails (data.length - v.writeLen) = none) ∧
          Owned s₁ false ∧ ∃ buf, unitPass env data v =
            .exit ({ v with s := s₁, buf := buf }, some .processFailed)) := by
  unfold unitPass
  rw [if_neg (Nat.not_lt.mpr hge), if_pos hf]
  simp only
  by_cases hno : v.s.fristBlockDatabuf.isNone ∧ env.malloc .fristBlockDatabuf = false
  · rw [if_pos hno]
    refine ⟨v.s, rfl, Or.inr ⟨?_, ho, v.buf, rfl⟩⟩
    rintro ⟨hsome | hsome, -⟩
    · rw [Option.isNone_iff_eq_none.mp hno.1] at hsome
      cases hsome
    · rw [hno.2] at hsome
      cases hsome
  · rw [if_neg hno]
    have hgot : v.s.fristBlockDatabuf.isSome ∨ env.malloc .fristBlockDatabuf = true := by
      cases hsome : v.s.fristBlockDatabuf with
      | some block => exact Or.inl rfl
      | none =>
        refine Or.inr ?_
        by_contra hfail
        exact hno ⟨by rw [hsome]; rfl, Bool.not_eq_true _ ▸ hfail⟩
    obtain ⟨s₀, hs₀⟩ : ∃ s₀ : OtaState, s₀ =
        { (if v.s.fristBlockDatabuf.isNone then v.s.record (.malloc .fristBlockDatabuf) else v.s)
          with fristBlockDatabuf := some (packAt data (data.length - v.writeLen)) } := ⟨_, rfl⟩
    have ho₀ : Owned s₀ false := by
      rw [hs₀]
      exact ho.malloc_first _
    have hproc₀ : s₀.ugProc = v.s.ugProc := by
      rw [hs₀]
      by_cases hnone : v.s.fristBlockDatabuf.isNone
      · rw [if_pos hnone]
        rfl
      · rw [if_neg hnone]
    rw [← hs₀]
    by_cases hbuf : env.malloc .buf = false
    · rw [if_pos hbuf]
      refine ⟨s₀, hproc₀, Or.inr ⟨?_, ho₀, v.buf, rfl⟩⟩
      rintro ⟨-, htrue, -⟩
      rw [hbuf] at htrue
      cases htrue
    · rw [if_neg hbuf]
      have hgotBuf : env.malloc .buf = true := by simpa using hbuf
      obtain ⟨s₂, hs₂⟩ : ∃ s₂, s₂ = (s₀.record (.malloc .buf)).tklFlashWrite
        (env.writeFails (data.length - v.writeLen)) v.p.flashAddr (fun _ => Nor.blank) 512 :=
        ⟨_, rfl⟩
      have ho₂ : Owned s₂ true := by
        rw [hs₂]
        exact ho₀.malloc_buf.quiet (quiet_write _ _ _ _)
      have hproc₂ : s₂.ugProc = v.s.ugProc := by
        rw [hs₂]
        exact hproc₀
      rw [← hs₂]
      by_cases hfails : (env.writeFails (data.length - v.writeLen)).isSome
      · rw [if_pos hfails]
        refine ⟨s₂.record (.free .buf), hproc₂, Or.inr ⟨?_, ho₂.free_buf, false, rfl⟩⟩
        rintro ⟨-, -, hnone⟩
        rw [hnone] at hfails
        cases hfails
      · rw [if_neg hfails]
        exact ⟨{ s₂ with firstBlock := false }, hproc₂, Or.inl ⟨hgot, hgotBuf,
          Option.not_isSome_iff_eq_none.mp hfails, rfl, ho₂.of_isSome rfl rfl rfl, rfl⟩⟩

/-- A pack that brings the first unit, or less. -/
theorem recvImgData_first {p : UgProc} (hb : Buffers s false) (hs : s.ugProc = some p)
    (hp : p.stat = .recvImgData) (hfirst : s.firstBlock = true) :
    ∃ r, recvImgData env s p data = some r ∧ Buffers r.1 (decide (LosesBuf env s data)) := by
  have hfits := hb.fits p hs
  have hloses : LosesBuf env s data ↔ 512 ≤ data.length ∧
      (s.fristBlockDatabuf.isSome ∨ env.malloc .fristBlockDatabuf = true) ∧
      env.malloc .buf = true ∧ (∀ i < data.length / 512, env.writeFails (512 * i) = none) ∧
      ¬Ends env data.length p.fileHeader.binLen (u32 (p.recvDataCnt + 512 * (data.length / 512)))
        (data.length % 512) := by
    unfold LosesBuf
    rw [hs]
    simp only [hp, hfirst, true_and]
  unfold recvImgData
  by_cases hlen : data.length < 512
  · rw [decide_eq_false fun h => Nat.not_le.mpr hlen (hloses.mp h).1]
    by_cases hwait : data.length < 512 ∧ p.recvDataCnt ≤ sub32 p.fileHeader.binLen 512
    · rw [if_pos hwait]
      exact ⟨_, rfl, hb⟩
    · have hrun : Loop.run (unitPass env data) (data.length + 1)
          ⟨s, p, false, data.length, data.length⟩ =
          some (⟨s, p, false, data.length, data.length⟩, none) :=
        Loop.run_exit (if_pos hlen)
      have htail := @imgTail_buffers s ⟨s, p, false, data.length, data.length⟩ false env data p hs
        hb.owned rfl (fun _ => rfl) (fun hl => nomatch hl) hfits
      rw [if_neg hwait, hrun]
      exact ⟨_, rfl, htail⟩
  · rw [if_neg fun h => hlen h.1]
    have hge := Nat.le_of_not_lt hlen
    obtain ⟨v₀, hv₀⟩ : ∃ v₀ : UnitVars, v₀ = ⟨s, p, false, data.length, data.length⟩ := ⟨_, rfl⟩
    have hs₀ : v₀.s = s := by rw [hv₀]
    have hp₀ : v₀.p = p := by rw [hv₀]
    have hw₀ : v₀.writeLen = data.length := by rw [hv₀]
    obtain ⟨s₁, hproc, ⟨hgot, hbuf, hwrite, hf₁, ho₁, hpass⟩ | ⟨hno, ho₁, buf, hpass⟩⟩ :=
      unitPass_firstUnit env data (hs₀ ▸ hb.owned) (hw₀ ▸ hge) (hs₀ ▸ hfirst)
    · rw [hs₀] at hgot hproc
      rw [hw₀, Nat.sub_self] at hwrite
      obtain ⟨v₁, hv₁⟩ : ∃ v₁, v₁ = v₀.advance s₁ true := ⟨_, rfl⟩
      rw [← hv₁] at hpass
      have hs₁ : v₁.s = s₁ := by rw [hv₁]; rfl
      have hb₁ : v₁.buf = true := by rw [hv₁]; rfl
      have hw₁ : v₁.writeLen = data.length - 512 := by rw [hv₁, ← hw₀]; rfl
      have hc₁ : v₁.p.recvDataCnt = u32 (p.recvDataCnt + 512) := by
        rw [hv₁, advance_p, hp₀]
      have hh₁ : v₁.p.fileHeader = p.fileHeader ∧ v₁.p.startAddr = p.startAddr := by
        rw [hv₁, advance_p, hp₀]
        exact ⟨rfl, rfl⟩
      have hoff : ∀ k, data.length - v₁.writeLen + 512 * k = 512 * (k + 1) := by
        intro k
        omega
      obtain ⟨⟨v, ret⟩, hrun, hend⟩ := restUnits_spec env (hs₁.symm ▸ hf₁)
        (show v₁.writeLen ≤ data.length by omega) (show v₁.writeLen < data.length by omega)
      rw [← hv₀, Loop.run_again hpass, hrun]
      have hfits' : ∀ {v : UnitVars} {k : Nat}, Behind v₁ v k → v.p.Fits := by
        intro v k hk
        unfold UgProc.Fits
        rw [hk.header.1, hk.header.2, hh₁.1, hh₁.2]
        exact hfits
      rcases hend with ⟨k, hret, hk, hlt, hbefore⟩ | ⟨k, v', s₂, hret, hk, hge', hfails, hq, hvs, hvp⟩
      · simp only at hret hk hlt
        subst hret
        have hleft := hk.left
        have hunits : data.length / 512 = k + 1 := by omega
        have hmod : v.writeLen = data.length % 512 := by omega
        have hcnt : v.p.recvDataCnt = u32 (p.recvDataCnt + 512 * (data.length / 512)) := by
          have hsum : p.recvDataCnt + 512 + 512 * k = p.recvDataCnt + 512 * (k + 1) := by omega
          rw [hk.cnt _ hc₁, hunits, hsum]
        have hquiet := hk.quiet
        rw [hs₁] at hquiet
        have hbuf' : v.buf = true := hk.buf.trans hb₁
        have htail := @imgTail_buffers s v false env data p hs
          (by rw [hbuf']; exact ho₁.quiet hquiet) (hquiet.ugProc.trans hproc) (fun hl => nomatch hl)
          (fun _ => hquiet.firstBlock.trans hf₁) (hfits' hk)
        rw [hbuf', Bool.false_or, Bool.true_and, hk.header.1, hh₁.1, hcnt, hmod] at htail
        refine ⟨_, rfl, ?_⟩
        have hall : ∀ i < data.length / 512, env.writeFails (512 * i) = none := by
          intro i hi
          cases i with
          | zero => exact hwrite
          | succ i =>
            rw [← hoff i]
            exact hbefore i (by omega)
        have hdec : decide (LosesBuf env s data) = !decide (Ends env data.length
            p.fileHeader.binLen (u32 (p.recvDataCnt + 512 * (data.length / 512)))
            (data.length % 512)) := by
          rw [← decide_not]
          exact decide_eq_decide.mpr ⟨fun h => (hloses.mp h).2.2.2.2,
            fun h => hloses.mpr ⟨hge, hgot, hbuf, hall, h⟩⟩
        rw [hdec]
        exact htail
      · simp only at hret hvs hvp
        subst hret
        have hleft := hk.left
        have hbuf' : v'.buf = true := hk.buf.trans hb₁
        have hquiet := hk.quiet.trans hq
        rw [hs₁] at hquiet
        rw [hoff] at hfails
        have hno : ¬LosesBuf env s data := by
          intro h
          have hnone := (hloses.mp h).2.2.2.1 (k + 1) (by omega)
          rw [hnone] at hfails
          cases hfails
        rw [decide_eq_false hno]
        refine ⟨_, rfl, ?_⟩
        show Buffers { v.s with ugProc := some v.p } false
        rw [hvs, hvp, hbuf']
        exact .with_ugProc hs (ho₁.quiet hquiet).free_buf (hquiet.ugProc.trans hproc)
          (fun hl => nomatch hl) (hfits' hk)
    · rw [hs₀, hw₀, Nat.sub_self] at hno
      rw [hs₀] at hproc
      have hno' : ¬LosesBuf env s data := by
        intro h
        obtain ⟨-, hgot, hbuf, hall, -⟩ := hloses.mp h
        exact hno ⟨hgot, hbuf, hall 0 (by omega)⟩
      rw [decide_eq_false hno', ← hv₀, Loop.run_exit hpass]
      refine ⟨_, rfl, ?_⟩
      show Buffers { s₁ with ugProc := some v₀.p } false
      rw [hp₀]
      exact .with_ugProc hs ho₁ hproc (fun hl => nomatch hl) hfits

/-! ## The calls -/

theorem recvHeader_buffers {p : UgProc} (data : List Byte) (hb : Buffers s h)
    (hs : s.ugProc = some p) : Buffers (recvHeader s p data).1 h := by
  have hfits := hb.fits p hs
  rcases recvHeader_cases s p data with heq | heq | ⟨hmax, heq⟩
  · rw [heq]
    exact hb
  · rw [heq]
    exact .with_ugProc hs hb.owned rfl hb.lost ⟨otaMaxBinSize_pos, hfits.2⟩
  · rw [heq]
    have hready : Buffers { s with ugProc := some (p.accept (parseHdr data)) } h :=
      .with_ugProc hs hb.owned rfl hb.lost ⟨hmax, Nat.le_refl _⟩
    have hq := (@quiet_erase { s with ugProc := some (p.accept (parseHdr data)) } ugStartAddr
      (parseHdr data).binLen).trans (quiet_accepted (parseHdr data).binLen)
    refine ⟨hready.owned.quiet hq, fun hl => hq.firstBlock.trans (hready.lost hl), ?_, ?_⟩
    · rw [hq.ugProc]
      exact hready.fits
    · rw [hq.ugProc]
      exact fun h0 => nomatch h0

/-- A pack loses a block exactly when `LosesBuf` holds. -/
theorem dataProcess_buffers (env : OtaEnv) (data : List Byte) (hb : Buffers s h) :
    ∃ r, dataProcess env s data = some r ∧ Buffers r.1 (h || decide (LosesBuf env s data)) := by
  have hkeeps : ¬LosesBuf env s data → Buffers s (h || decide (LosesBuf env s data)) := by
    intro hno
    rw [decide_eq_false hno, Bool.or_false]
    exact hb
  unfold dataProcess
  cases hs : s.ugProc with
  | none =>
    refine ⟨_, rfl, hkeeps fun hl => ?_⟩
    simp only [LosesBuf, hs] at hl
  | some p =>
    simp only
    have hstat : LosesBuf env s data → p.stat = .recvImgData ∧ s.firstBlock = true := by
      intro hl
      simp only [LosesBuf, hs] at hl
      exact ⟨hl.1, hl.2.1⟩
    cases hp : p.stat with
    | recvHeader =>
      refine ⟨_, rfl, ?_⟩
      rw [decide_eq_false fun hl => absurd (hp.symm.trans (hstat hl).1) (by decide), Bool.or_false]
      exact recvHeader_buffers data hb hs
    | finish =>
      exact ⟨_, rfl, hkeeps fun hl => absurd (hp.symm.trans (hstat hl).1) (by decide)⟩
    | recvImgData =>
      cases hfirst : s.firstBlock with
      | false =>
        rw [decide_eq_false fun hl => absurd (hfirst.symm.trans (hstat hl).2) (by decide),
          Bool.or_false]
        exact recvImgData_rest hb hs hfirst
      | true =>
        cases h with
        | true => exact absurd (hfirst.symm.trans (hb.lost rfl)) (by decide)
        | false =>
          rw [Bool.false_or]
          exact recvImgData_first hb hs hp hfirst

/-- No block of the calls is allocated. -/
structure Unallocated (s : OtaState) : Prop where
  ugProc : s.ugProc = none
  fristBlockDatabuf : s.fristBlockDatabuf = none
  trace : s.trace = []

theorem startNotify_buffers (env : OtaEnv) (imageSize : Nat) (h0 : Unallocated s) :
    Buffers (startNotify env s imageSize).1 false := by
  have hsame : Buffers s false := by
    refine ⟨⟨?_, ?_, ?_, ?_⟩, fun hl => (nomatch hl), ?_, fun _ => h0.fristBlockDatabuf⟩
    · rw [h0.trace, h0.ugProc]
      rfl
    · rw [h0.trace, h0.fristBlockDatabuf]
      rfl
    · rw [h0.trace]
      rfl
    · rw [h0.trace]
      rfl
    · intro p hp
      cases h0.ugProc.symm.trans hp
  unfold startNotify
  by_cases hsize : imageSize = 0
  · rw [if_pos hsize]
    exact hsame
  · rw [if_neg hsize, h0.ugProc]
    simp only
    by_cases hmalloc : env.malloc .ugProc = true
    · rw [if_pos hmalloc]
      have hheld := hsame.owned.ugProc
      rw [h0.ugProc] at hheld
      refine ⟨⟨?_, ?_, ?_, ?_⟩, fun hl => (nomatch hl), ?_, fun h0 => nomatch h0⟩
      · refine (held_append _ _ _).trans ?_
        rw [hheld]
        rfl
      · exact (held_append _ _ _).trans hsame.owned.first
      · exact (held_append _ _ _).trans hsame.owned.tempbuf
      · exact (held_append _ _ _).trans hsame.owned.buf
      · intro p hp
        cases hp
        exact ⟨by decide, Nat.zero_le _⟩
    · rw [if_neg hmalloc]
      exact hsame

/-- `pTempbuf` and the globals are freed. -/
theorem release_held (ho : held .ugProc s.trace = some true)
    (hf : held .fristBlockDatabuf s.trace = some s.fristBlockDatabuf.isSome)
    (ht : held .tempbuf s.trace = some true) :
    (∀ b, held b s.release.trace = if b = .buf then held .buf s.trace else some false) ∧
      s.release.fristBlockDatabuf = none := by
  have hthree : ∀ b, held b ((s.trace ++ [.free .tempbuf]) ++ [.free .ugProc]) =
      heldBy b (heldBy b (held b s.trace) (.free .tempbuf)) (.free .ugProc) := by
    intro b
    rw [held_append, held_append]
  cases hfirst : s.fristBlockDatabuf with
  | none =>
    rw [hfirst] at hf
    have hrelease : s.release.trace = (s.trace ++ [.free .tempbuf]) ++ [.free .ugProc] ∧
        s.release.fristBlockDatabuf = none := by
      simp [OtaState.release, OtaState.record, hfirst]
    refine ⟨fun b => ?_, hrelease.2⟩
    rw [hrelease.1, hthree]
    cases b with
    | ugProc =>
      rw [ho]
      rfl
    | fristBlockDatabuf =>
      rw [hf]
      rfl
    | buf => rfl
    | tempbuf =>
      rw [ht]
      rfl
  | some block =>
    rw [hfirst] at hf
    have hrelease : s.release.trace = ((s.trace ++ [.free .tempbuf]) ++ [.free .ugProc]) ++
        [.free .fristBlockDatabuf] ∧ s.release.fristBlockDatabuf = none := by
      simp [OtaState.release, OtaState.record, hfirst]
    refine ⟨fun b => ?_, hrelease.2⟩
    rw [hrelease.1, held_append, hthree]
    cases b with
    | ugProc =>
      rw [ho]
      rfl
    | fristBlockDatabuf =>
      rw [hf]
      rfl
    | buf => rfl
    | tempbuf =>
      rw [ht]
      rfl

/-- Everything is freed and forgotten. -/
def Clean (s : OtaState) : Prop :=
  AllFreed s.trace ∧ s.ugProc = none ∧ s.fristBlockDatabuf = none

theorem allFreed_iff (hh : held .buf s.trace = some h)
    (ho : ∀ b, b ≠ .buf → held b s.trace = some false) : AllFreed s.trace ↔ h = false := by
  constructor
  · intro hall
    exact Option.some.inj (hh.symm.trans (hall .buf))
  · rintro rfl b
    by_cases hb : b = .buf
    · rw [hb]
      exact hh
    · exact ho b hb

/-- `tkl_ota_end_notify` with its buffer leaves nothing but a block that was lost. -/
theorem endNotify_clean (hb : Buffers s h) (hmalloc : env.malloc .tempbuf = true) (reset : Bool) :
    ∃ s' ret, endNotify env s reset = some (s', ret) ∧ (Clean s' ↔ h = false) := by
  have hreleased : ∀ s₁ s' : OtaState, Quiet (s.record (.malloc .tempbuf)) s₁ →
      (∃ p, s.ugProc = some p) → Quiet s₁.release s' → (Clean s' ↔ h = false) := by
    intro s₁ s' hq ⟨p, hp⟩ hq'
    have ho := hb.owned.ugProc
    rw [hp] at ho
    have hheld : ∀ b, held b s₁.trace = heldBy b (held b s.trace) (.malloc .tempbuf) := by
      intro b
      rw [hq.held]
      exact held_append _ _ _
    obtain ⟨hfreed, hfirst⟩ := @release_held s₁
      (by rw [hheld, ho]; rfl)
      (by rw [hheld, hb.owned.first, hq.fristBlockDatabuf]; rfl)
      (by rw [hheld, hb.owned.tempbuf]; rfl)
    have hbuf : held .buf s'.trace = some h := by
      rw [hq'.held, hfreed, if_pos rfl, hheld, hb.owned.buf]
      rfl
    have hall := allFreed_iff hbuf fun b hne => by rw [hq'.held, hfreed, if_neg hne]
    have hnone : s'.ugProc = none ∧ s'.fristBlockDatabuf = none :=
      ⟨hq'.ugProc.trans OtaState.release_ugProc, hq'.fristBlockDatabuf.trans hfirst⟩
    exact ⟨fun hc => hall.mp hc.1, fun hh => ⟨hall.mpr hh, hnone⟩⟩
  have hsome : s.ugProc ≠ none → ∃ p, s.ugProc = some p := Option.ne_none_iff_exists'.mp
  by_cases hp : s.ugProc = none
  · refine ⟨s, .invalidParm, ?_, ?_⟩
    · unfold endNotify
      rw [hp]
    · have hfirst := hb.none hp
      have hall : AllFreed s.trace ↔ h = false := by
        refine allFreed_iff hb.owned.buf fun b hne => ?_
        cases b with
        | ugProc => rw [hb.owned.ugProc, hp]; rfl
        | fristBlockDatabuf => rw [hb.owned.first, hfirst]; rfl
        | buf => exact absurd rfl hne
        | tempbuf => exact hb.owned.tempbuf
      exact ⟨fun hc => hall.mp hc.1, fun hh => ⟨hall.mpr hh, hp, hfirst⟩⟩
  · rcases endNotify_cases env s reset hb.fits with ⟨hno, -⟩ | heq | ⟨p, -, heq⟩
    · rcases hno with hno | hno
      · exact absurd hno hp
      · rw [hmalloc] at hno
        cases hno
    · exact ⟨_, _, heq, hreleased _ _ (.refl _) (hsome hp) (.refl _)⟩
    · have hq : Quiet (s.record (.malloc .tempbuf)) (sealed env s p) :=
        (quiet_erase _ _).trans (quiet_restore _ _ _ _)
      refine ⟨_, _, heq, hreleased _ _ hq (hsome hp) ?_⟩
      cases reset with
      | true =>
        rw [if_pos rfl]
        exact quiet_reset
      | false =>
        rw [if_neg Bool.false_ne_true]
        exact .refl _

/-! ## The run of an upgrade -/

/-- `tkl_ota_start_notify`, packs, and `tkl_ota_end_notify`. -/
def upgrade (env₀ : OtaEnv) (imageSize : Nat) (packs : List (OtaEnv × OtaPack)) (env : OtaEnv)
    (reset : Bool) : List OtaCall :=
  OtaCall.startNotify env₀ imageSize ::
    (packs.map (fun x => OtaCall.dataProcess x.1 x.2) ++ [OtaCall.endNotify env reset])

/-- The packs, and the end. -/
theorem packs_clean (packs : List (OtaEnv × OtaPack)) (hb : Buffers s h)
    (hmalloc : env.malloc .tempbuf = true) (reset : Bool) :
    ∃ s' os, Machine.run step s (packs.map (fun x => OtaCall.dataProcess x.1 x.2) ++
        [OtaCall.endNotify env reset]) = some (s', os) ∧
      (Clean s' ↔ h = false ∧ Machine.Legal step KeepsBuf s
        (packs.map (fun x => OtaCall.dataProcess x.1 x.2) ++ [OtaCall.endNotify env reset])) := by
  induction packs generalizing s h with
  | nil =>
    obtain ⟨s', ret, hend, hclean⟩ := endNotify_clean hb hmalloc reset
    have hstep : step s (.endNotify env reset) = some (s', ret, none) := by
      simp only [step, hend, Option.map_some]
    refine ⟨s', [(ret, none)], Machine.run_cons.mpr ⟨s', _, [], hstep, rfl, rfl⟩, ?_⟩
    rw [hclean]
    exact ⟨fun hh => ⟨hh, trivial, fun _ _ _ => trivial⟩, fun hh => hh.1⟩
  | cons x packs ih =>
    obtain ⟨r, hdata, hb'⟩ := dataProcess_buffers x.1 x.2.data hb
    have hstep : step s (.dataProcess x.1 x.2) = some (r.1, r.2.1, r.2.2) := by
      simp only [step, hdata, Option.map_some]
    obtain ⟨s', os, hrun, hclean⟩ := ih hb'
    refine ⟨s', _ :: os, Machine.run_cons.mpr ⟨r.1, _, os, hstep, hrun, rfl⟩, ?_⟩
    rw [hclean, Bool.or_eq_false_iff, decide_eq_false_iff_not]
    constructor
    · rintro ⟨⟨hh, hkeeps⟩, hl⟩
      refine ⟨hh, hkeeps, fun s₁ o h₁ => ?_⟩
      rw [hstep] at h₁
      cases h₁
      exact hl
    · rintro ⟨hh, hkeeps, hl⟩
      exact ⟨⟨hh, hkeeps⟩, hl r.1 _ hstep⟩

/-- An upgrade from a state without blocks returns, and has then freed every block once, exactly
when no pack loses its buffer. -/
theorem clean_iff (env₀ : OtaEnv) (imageSize : Nat) (packs : List (OtaEnv × OtaPack))
    (reset : Bool) (h0 : Unallocated s) (hmalloc : env.malloc .tempbuf = true) :
    ∃ s' os, Machine.run step s (upgrade env₀ imageSize packs env reset) = some (s', os) ∧
      (Clean s' ↔ Machine.Legal step KeepsBuf s (upgrade env₀ imageSize packs env reset)) := by
  have hb := startNotify_buffers env₀ imageSize h0
  obtain ⟨s', os, hrun, hclean⟩ := packs_clean packs hb hmalloc reset
  have hstep : step s (.startNotify env₀ imageSize) =
    some ((startNotify env₀ s imageSize).1, (startNotify env₀ s imageSize).2, none) := rfl
  refine ⟨s', _ :: os, Machine.run_cons.mpr ⟨_, _, os, hstep, hrun, rfl⟩, ?_⟩
  rw [hclean]
  constructor
  · rintro ⟨-, hl⟩
    refine ⟨trivial, fun s₁ o h₁ => ?_⟩
    rw [hstep] at h₁
    cases h₁
    exact hl
  · rintro ⟨-, hl⟩
    exact ⟨rfl, hl _ _ hstep⟩

end

theorem clean_iff_tiny : ∃ s os,
    Machine.run step (.boot blankFlash)
        (upgrade calm 1 [(calm, ⟨tinyHdr, by decide⟩)] calm false) = some (s, os) ∧
      (Clean s ↔ Machine.Legal step KeepsBuf (.boot blankFlash)
        (upgrade calm 1 [(calm, ⟨tinyHdr, by decide⟩)] calm false)) :=
  clean_iff calm 1 [(calm, ⟨tinyHdr, by decide⟩)] false ⟨rfl, rfl, rfl⟩ rfl

/-- A header for an image of 1024 zero bytes. -/
def twoUnitHdr : List Byte :=
  [0x55, 0xaa, 0x55, 0xaa, 0, 0, 0, 0, 0, 0, 0, 0, 0, 0, 0, 0, 0, 0, 4, 0, 0, 0, 0, 0, 0, 0, 2, 2,
    0xaa, 0x55, 0xaa, 0x55]

/-- A unit of its image. -/
def zeroUnit : OtaPack := ⟨List.replicate 512 0, by rw [List.length_replicate]; decide⟩

/-- The image of `twoUnitHdr`, a unit in each of two packs. -/
def twoUnitPacks : List (OtaEnv × OtaPack) :=
  [(calm, ⟨twoUnitHdr, by decide⟩), (calm, zeroUnit), (calm, zeroUnit)]

/-- An upgrade in which every allocation and write succeeds, and a block is lost. -/
theorem not_clean_twoUnit : ∃ s os,
    Machine.run step (.boot blankFlash) (upgrade calm 1024 twoUnitPacks calm false) =
      some (s, os) ∧ ¬Clean s := by
  have hstep : step (.boot blankFlash) (.startNotify calm 1024) =
    some ((startNotify calm (.boot blankFlash) 1024).1, .ok, none) := rfl
  have h0 : Unallocated (.boot blankFlash) := ⟨rfl, rfl, rfl⟩
  obtain ⟨s, os, hrun, hclean⟩ := @packs_clean calm _ _ twoUnitPacks
    (startNotify_buffers calm 1024 h0) rfl false
  refine ⟨s, _, Machine.run_cons.mpr ⟨_, _, os, hstep, hrun, rfl⟩, fun hc => ?_⟩
  have hno : ¬Machine.Legal step KeepsBuf (startNotify calm (.boot blankFlash) 1024).1
      (twoUnitPacks.map (fun x => .dataProcess x.1 x.2) ++ [.endNotify calm false]) := by
    decide +kernel
  exact hno (hclean.mp hc).2

end TuyaSdk.TklOta
