import TuyaSdk.TklOta.Effects

/-!
# What each call can do

One lemma for each case of the calls: the state it leads to, and the operations it makes.
The write operations of a pack are placed by `ImgOp`: the unit that holds the bytes from `r`
on of the image goes to `UG_START_ADDR + r`.
-/

namespace TuyaSdk.TklOta
open TuyaSdk.Lib TuyaSdk.Flash

/-- What holds of `*ug_proc` between calls. -/
structure UgProc.Ok (p : UgProc) : Prop where
  header : p.stat = .recvHeader → p.fileHeader.binLen = 0 ∧ p.startAddr = 0 ∧ p.recvDataCnt = 0
  accepted : p.stat ≠ .recvHeader →
    p.startAddr = ugStartAddr ∧ p.fileHeader.binLen < otaMaxBinSize
  img : p.stat = .recvImgData → p.recvDataCnt % 512 = 0 ∧ p.recvDataCnt < 2 ^ 32 ∧
    p.flashAddr = u32 (ugStartAddr + p.recvDataCnt)
  finish : p.stat = .finish → p.fileHeader.binLen ≤ p.recvDataCnt

theorem UgProc.ok_zero : UgProc.zero.Ok :=
  ⟨fun _ => ⟨rfl, rfl, rfl⟩, fun h => absurd rfl h, fun h => (nomatch h), fun h => (nomatch h)⟩

theorem UgProc.Ok.binLen_lt {p : UgProc} (h : p.Ok) : p.fileHeader.binLen < otaMaxBinSize := by
  by_cases hp : p.stat = .recvHeader
  · rw [(h.header hp).1]
    decide
  · exact (h.accepted hp).2

theorem UgProc.Ok.startAddr_le {p : UgProc} (h : p.Ok) : p.startAddr ≤ ugStartAddr := by
  by_cases hp : p.stat = .recvHeader
  · rw [(h.header hp).2.1]
    exact Nat.zero_le _
  · exact Nat.le_of_eq (h.accepted hp).1

/-! ## `tkl_ota_start_notify` -/

theorem startNotify_cases (env : OtaEnv) (s : OtaState) (imageSize : Nat) :
    (startNotify env s imageSize).1 = s ∨
      (startNotify env s imageSize).1 = { s with ugProc := some .zero, firstBlock := true } ∨
      (startNotify env s imageSize).1 =
        { s.record (.malloc .ugProc) with ugProc := some .zero, firstBlock := true } := by
  unfold startNotify
  by_cases h0 : imageSize = 0
  · rw [if_pos h0]
    exact Or.inl rfl
  · rw [if_neg h0]
    cases s.ugProc with
    | some p => exact Or.inr (Or.inl rfl)
    | none =>
      simp only
      split
      · exact Or.inr (Or.inr rfl)
      · exact Or.inl rfl

/-! ## The header -/

/-- `*ug_proc` when the header `hdr` has been accepted. -/
def UgProc.accept (p : UgProc) (hdr : UpdateFileHdr) : UgProc :=
  { p with
    fileHeader := hdr
    startAddr := ugStartAddr
    flashAddr := ugStartAddr
    stat := .recvImgData
    recvDataCnt := 0 }

theorem UgProc.ok_accept {p : UgProc} {hdr : UpdateFileHdr} (h : hdr.binLen < otaMaxBinSize) :
    (p.accept hdr).Ok :=
  ⟨fun h => (nomatch h), fun _ => ⟨rfl, h⟩, fun _ => ⟨rfl, Nat.two_pow_pos 32, rfl⟩,
    fun h => (nomatch h)⟩

/-- A header is refused, and cleared at most, or accepted and its sectors erased. -/
theorem recvHeader_cases (s : OtaState) (p : UgProc) (data : List Byte) :
    (recvHeader s p data).1 = s ∨
      (recvHeader s p data).1 = { s with ugProc := some { p with fileHeader := .zero } } ∨
      (parseHdr data).binLen < otaMaxBinSize ∧
        (recvHeader s p data).1 =
          ({ s with ugProc := some (p.accept (parseHdr data)) }.tklFlashErase ugStartAddr
            (parseHdr data).binLen).record (.accepted (parseHdr data).binLen) := by
  unfold recvHeader
  by_cases hlen : data.length < 32
  · rw [if_pos hlen]
    exact Or.inl rfl
  · rw [if_neg hlen]
    refine Or.inr ?_
    simp only
    by_cases hbad : (parseHdr data).headerFlag ≠ 0x55aa55aa ∨
        (parseHdr data).tailFlag ≠ 0xaa55aa55 ∨
        (parseHdr data).headSum ≠ addBytes 0 (data.take 24)
    · rw [if_pos hbad]
      exact Or.inl rfl
    · rw [if_neg hbad]
      by_cases hbig : otaMaxBinSize ≤ (parseHdr data).binLen
      · rw [if_pos hbig]
        exact Or.inl rfl
      · rw [if_neg hbig]
        exact Or.inr ⟨Nat.lt_of_not_le hbig, rfl⟩

/-! ## The units of the image -/

/-- What a pass of the unit loop may do. -/
def UnitOp (v : UnitVars) (_ : FlashDev) : OtaOp → Prop
  | .malloc _ | .free _ => True
  | .write _ addr src size =>
    addr = v.p.flashAddr ∧ size = 512 ∧ (v.s.firstBlock = true → src = fun _ => Nor.blank)
  | _ => False

/-- A pass that goes on has written one unit. -/
theorem unitPass_again {env : OtaEnv} {data : List Byte} {v v' : UnitVars}
    (h : unitPass env data v = .again v') :
    512 ≤ v.writeLen ∧ v'.p = (v.advance v.s v.buf).p ∧ v'.writeLen = v.writeLen - 512 ∧
      v'.s.firstBlock = false ∧ Effect (UnitOp v) v.s.io v'.s.io := by
  unfold unitPass at h
  by_cases hlen : v.writeLen < 512
  · rw [if_pos hlen] at h
    cases h
  · rw [if_neg hlen] at h
    simp only at h
    refine ⟨Nat.le_of_not_lt hlen, ?_⟩
    cases hfirst : v.s.firstBlock with
    | true =>
      simp only [hfirst, if_true] at h
      by_cases hno : v.s.fristBlockDatabuf.isNone ∧ env.malloc .fristBlockDatabuf = false
      · rw [if_pos hno] at h
        cases h
      · rw [if_neg hno] at h
        by_cases hbuf : env.malloc .buf = false
        · rw [if_pos hbuf] at h
          cases h
        · rw [if_neg hbuf] at h
          split at h
          · cases h
          · cases h
            refine ⟨rfl, rfl, rfl, ?_⟩
            refine OtaState.effect_write (OtaState.effect_malloc ?_ trivial)
              ⟨rfl, rfl, fun _ => rfl⟩
            by_cases hnone : v.s.fristBlockDatabuf.isNone
            · rw [if_pos hnone]
              exact OtaState.effect_malloc .refl trivial
            · rw [if_neg hnone]
              exact .refl
    | false =>
      simp only [hfirst, Bool.false_eq_true, if_false] at h
      split at h
      · cases h
      · cases h
        exact ⟨rfl, rfl, hfirst, OtaState.effect_write .refl
          ⟨rfl, rfl, fun h => absurd (hfirst.symm.trans h) Bool.false_ne_true⟩⟩

/-- A pass that ends the loop either has less than a unit before it, or fails; where no
write fails, that is an allocation for the first block. -/
theorem unitPass_exit {env : OtaEnv} {data : List Byte} {v v' : UnitVars} {ret : Option OpRet}
    (h : unitPass env data v = .exit (v', ret)) :
    (ret = none ∧ v' = v ∧ v.writeLen < 512) ∨
      (ret = some .processFailed ∧ v'.p = v.p ∧ 512 ≤ v.writeLen ∧
        v'.writeLen = v.writeLen ∧ v'.s.firstBlock = v.s.firstBlock ∧
        Effect (UnitOp v) v.s.io v'.s.io ∧
        (env.writeFails (data.length - v.writeLen) = none → v.s.firstBlock = true)) := by
  unfold unitPass at h
  by_cases hlen : v.writeLen < 512
  · rw [if_pos hlen] at h
    cases h
    exact Or.inl ⟨rfl, rfl, hlen⟩
  · rw [if_neg hlen] at h
    simp only at h
    refine Or.inr ?_
    have hge : 512 ≤ v.writeLen := Nat.le_of_not_lt hlen
    cases hfirst : v.s.firstBlock with
    | true =>
      simp only [hfirst, if_true] at h
      by_cases hno : v.s.fristBlockDatabuf.isNone ∧ env.malloc .fristBlockDatabuf = false
      · rw [if_pos hno] at h
        cases h
        exact ⟨rfl, rfl, hge, rfl, hfirst, .refl, fun _ => rfl⟩
      · rw [if_neg hno] at h
        obtain ⟨s₁, hs₁⟩ : ∃ s₁ : OtaState, s₁ = if v.s.fristBlockDatabuf.isNone then
          v.s.record (.malloc .fristBlockDatabuf) else v.s := ⟨_, rfl⟩
        have hfirst₁ : s₁.firstBlock = true := by
          rw [hs₁]
          split
          · exact hfirst
          · exact hfirst
        have heffect₁ : Effect (UnitOp v) v.s.io s₁.io := by
          rw [hs₁]
          split
          · exact OtaState.effect_malloc .refl trivial
          · exact .refl
        rw [← hs₁] at h
        by_cases hbuf : env.malloc .buf = false
        · rw [if_pos hbuf] at h
          cases h
          exact ⟨rfl, rfl, hge, rfl, hfirst₁, heffect₁, fun _ => rfl⟩
        · rw [if_neg hbuf] at h
          split at h
          · cases h
            refine ⟨rfl, rfl, hge, rfl, hfirst₁, OtaState.effect_free ?_ trivial, fun _ => rfl⟩
            exact OtaState.effect_write (OtaState.effect_malloc heffect₁ trivial)
              ⟨rfl, rfl, fun _ => rfl⟩
          · cases h
    | false =>
      simp only [hfirst, Bool.false_eq_true, if_false] at h
      split at h
      · rename_i hfails
        cases h
        refine ⟨rfl, rfl, hge, rfl, by rw [OtaState.freeBuf_firstBlock]; exact hfirst, ?_, ?_⟩
        · exact OtaState.effect_freeBuf (OtaState.effect_write .refl
            ⟨rfl, rfl, fun h => absurd (hfirst.symm.trans h) Bool.false_ne_true⟩) trivial
        · intro hnone
          rw [hnone] at hfails
          cases hfails
      · cases h

/-- `*ug_proc` after `k` units. -/
def UgProc.units (p : UgProc) (k : Nat) : UgProc :=
  { p with
    flashAddr := u32 (ugStartAddr + (p.recvDataCnt + 512 * k))
    recvDataCnt := p.recvDataCnt + 512 * k }

theorem UgProc.Ok.units_zero {p : UgProc} (h : p.Ok) (hp : p.stat = .recvImgData) :
    p.units 0 = p := by
  unfold UgProc.units
  rw [Nat.mul_zero, Nat.add_zero, ← (h.img hp).2.2]

theorem UgProc.Ok.units {p : UgProc} (h : p.Ok) (hp : p.stat = .recvImgData) {k : Nat}
    (hk : p.recvDataCnt + 512 * k < 2 ^ 32) : (p.units k).Ok := by
  have hmod := (h.img hp).1
  refine ⟨fun hh => absurd (hp.symm.trans hh) (by decide), fun _ => h.accepted (by rw [hp]; decide),
    fun _ => ⟨?_, hk, rfl⟩, fun hh => absurd (hp.symm.trans hh) (by decide)⟩
  show (p.recvDataCnt + 512 * k) % 512 = 0
  omega

/-- What a pack of `len` bytes may do when `recv_data_cnt` bytes of the image are in: the
bytes from `r` on go to `UG_START_ADDR + r`, in units of 512 or as the last part of the
image, and the first unit is blank. -/
def ImgOp (p : UgProc) (len : Nat) (_ : FlashDev) : OtaOp → Prop
  | .malloc _ | .free _ => True
  | .write _ addr src size => ∃ r, addr = u32 (ugStartAddr + r) ∧ r % 512 = 0 ∧
      p.recvDataCnt ≤ r ∧ (r = 0 → src = fun _ => Nor.blank) ∧
      (size = 512 ∧ r + 512 ≤ p.recvDataCnt + len / 512 * 512 ∨
        size < 512 ∧ r ≤ p.fileHeader.binLen ∧ r + size = p.recvDataCnt + len)
  | _ => False

theorem imgOp_of_unitOp {p : UgProc} {v : UnitVars} {dev : FlashDev} {op : OtaOp} {len k : Nat}
    (hok : p.Ok) (hp : p.stat = .recvImgData) (hv : v.p = p.units k) (hlen : v.writeLen + 512 * k = len)
    (hge : 512 ≤ v.writeLen) (hfirst : p.recvDataCnt = 0 → k = 0 → v.s.firstBlock = true)
    (h : UnitOp v dev op) : ImgOp p len dev op := by
  have hmod := (hok.img hp).1
  cases op with
  | malloc b => trivial
  | free b => trivial
  | write fails addr src size =>
    obtain ⟨haddr, hsize, hsrc⟩ := h
    refine ⟨p.recvDataCnt + 512 * k, ?_, by omega, by omega, ?_, Or.inl ⟨hsize, by omega⟩⟩
    · rw [haddr, hv]
      rfl
    · intro h0
      exact hsrc (hfirst (by omega) (by omega))
  | eraseSector a => exact h.elim
  | accepted n => exact h.elim
  | restore fails addr src size => exact h.elim
  | reset => exact h.elim

/-- What the unit loop leaves behind: `k` units are in. -/
structure UnitsDone (env : OtaEnv) (s : OtaState) (p : UgProc) (data : List Byte) (v : UnitVars)
    (k : Nat) : Prop where
  proc : v.p = p.units k
  left : v.writeLen + 512 * k = data.length
  effect : Effect (ImgOp p data.length) s.io v.s.io
  first : v.s.firstBlock = (s.firstBlock && decide (k = 0))

theorem unitLoop_spec (env : OtaEnv) (s : OtaState) {p : UgProc} (data : List Byte) (hok : p.Ok)
    (hp : p.stat = .recvImgData) (hbound : p.recvDataCnt + data.length < 2 ^ 32)
    (hfirst : p.recvDataCnt = 0 → s.firstBlock = true) :
    ∃ r, Loop.run (unitPass env data) (data.length + 1)
        ⟨s, p, false, data.length, data.length⟩ = some r ∧
      ∃ k, UnitsDone env s p data r.1 k ∧
        (r.2 = none ∧ r.1.writeLen < 512 ∨
          r.2 = some .processFailed ∧ ((∀ off, env.writeFails off = none) → k = 0)) := by
  refine Loop.run_spec (I := fun v => ∃ k, UnitsDone env s p data v k) (fun v => v.writeLen) ?_ ?_
    ⟨0, (hok.units_zero hp).symm, rfl, .refl, by simp⟩ (Nat.lt_succ_self _)
  · intro v r ⟨k, hk⟩ hb
    have hunit : ∀ dev op, 512 ≤ v.writeLen → UnitOp v dev op → ImgOp p data.length dev op :=
      fun dev op hge =>
      imgOp_of_unitOp hok hp hk.proc hk.left hge fun h0 hk0 => by
        rw [hk.first, hfirst h0, hk0]
        rfl
    rcases unitPass_exit hb with ⟨hret, hv, hlen⟩ | ⟨hret, hpv, hge, hwl, hfb, heffect, hno⟩
    · refine ⟨k, ?_, Or.inl ⟨hret, by rw [hv]; exact hlen⟩⟩
      rw [hv]
      exact hk
    · refine ⟨k, ⟨hpv.trans hk.proc, by rw [hwl]; exact hk.left, ?_, hfb.trans hk.first⟩,
        Or.inr ⟨hret, fun hw => ?_⟩⟩
      · exact hk.effect.trans (heffect.mono fun dev op => hunit dev op hge)
      · have htrue := hno (hw _)
        rw [hk.first, Bool.and_eq_true, decide_eq_true_eq] at htrue
        exact htrue.2
  · intro v v' ⟨k, hk⟩ hb
    obtain ⟨hge, hpv, hwl, hfb, heffect⟩ := unitPass_again hb
    have hleft := hk.left
    have hunit : ∀ dev op, UnitOp v dev op → ImgOp p data.length dev op := fun dev op =>
      imgOp_of_unitOp hok hp hk.proc hk.left hge fun h0 hk0 => by
        rw [hk.first, hfirst h0, hk0]
        rfl
    refine ⟨⟨k + 1, ?_, by omega, hk.effect.trans (heffect.mono hunit), ?_⟩, by omega⟩
    · rw [hpv]
      simp only [UnitVars.advance, hk.proc, UgProc.units]
      have hcnt : u32 (p.recvDataCnt + 512 * k + 512) = p.recvDataCnt + 512 * (k + 1) := by
        rw [u32_of_lt (by omega)]
        omega
      have haddr : u32 (u32 (ugStartAddr + (p.recvDataCnt + 512 * k)) + 512) =
          u32 (ugStartAddr + (p.recvDataCnt + 512 * (k + 1))) := by
        unfold u32
        omega
      rw [hcnt, haddr]
    · rw [hfb]
      simp

/-! ## The end of a pack -/

/-- What a pack leaves behind. -/
structure ImgStep (env : OtaEnv) (s : OtaState) (p : UgProc) (data : List Byte) (s' : OtaState)
    (p' : UgProc) : Prop where
  proc : s'.ugProc = some p'
  ok : p'.Ok
  stat : p'.stat ≠ .recvHeader
  effect : Effect (ImgOp p data.length) s.io s'.io
  first : p'.stat = .recvImgData → p'.recvDataCnt = 0 → s'.firstBlock = true
  bound : p'.stat = .recvImgData → p'.recvDataCnt ≤ p.recvDataCnt + data.length
  progress : (∀ off, env.writeFails off = none) → p'.stat = .recvImgData →
    p'.recvDataCnt = p.recvDataCnt ∨ p'.recvDataCnt < otaMaxBinSize

section

variable {env : OtaEnv} {s : OtaState} {p : UgProc} {data : List Byte} {v : UnitVars} {k : Nat}

theorem UgProc.Ok.to_finish (h : p.Ok) (hp : p.stat ≠ .recvHeader)
    (hall : p.fileHeader.binLen ≤ p.recvDataCnt) : { p with stat := .finish }.Ok :=
  ⟨fun hh => (nomatch hh), fun _ => h.accepted hp, fun hh => (nomatch hh), fun _ => hall⟩

theorem UnitsDone.first_of (hk : UnitsDone env s p data v k)
    (hfirst : p.recvDataCnt = 0 → s.firstBlock = true)
    (h0 : p.recvDataCnt + 512 * k = 0) : v.s.firstBlock = true := by
  rw [hk.first, hfirst (by omega), Bool.true_and, decide_eq_true_eq]
  omega

/-- The loop was left in a return: the units that are in stay in. -/
theorem UnitsDone.failed (hk : UnitsDone env s p data v k) (hok : p.Ok)
    (hp : p.stat = .recvImgData) (hbound : p.recvDataCnt + data.length < 2 ^ 32)
    (hfirst : p.recvDataCnt = 0 → s.firstBlock = true)
    (hno : (∀ off, env.writeFails off = none) → k = 0) :
    ImgStep env s p data { v.s with ugProc := some v.p } v.p := by
  have hleft := hk.left
  have hcnt : v.p.recvDataCnt = p.recvDataCnt + 512 * k := by
    rw [hk.proc]
    rfl
  have hstat : v.p.stat = .recvImgData := by
    rw [hk.proc]
    exact hp
  refine ⟨rfl, ?_, ?_, hk.effect, ?_, ?_, ?_⟩
  · rw [hk.proc]
    exact hok.units hp (by omega)
  · rw [hstat]
    decide
  · intro _ h0
    exact hk.first_of hfirst (hcnt.symm.trans h0)
  · intro _
    omega
  · intro hw _
    have hk0 := hno hw
    omega

/-- The final check after the loop, or after the last write. -/
theorem finishCheck_spec {x : Io} (hok : v.p.Ok) (hp : v.p.stat ≠ .recvHeader)
    (heffect : Effect (ImgOp p data.length) x v.s.io) :
    ∃ p', (finishCheck v).1.ugProc = some p' ∧ p'.Ok ∧ p'.stat ≠ .recvHeader ∧
      (finishCheck v).1.firstBlock = v.s.firstBlock ∧
      Effect (ImgOp p data.length) x (finishCheck v).1.io ∧
      (p'.stat = .recvImgData → p' = v.p ∧ v.p.recvDataCnt < v.p.fileHeader.binLen) := by
  unfold finishCheck
  by_cases hfin : v.p.fileHeader.binLen ≤ v.p.recvDataCnt
  · rw [if_pos hfin]
    refine ⟨_, rfl, hok.to_finish hp hfin, fun h => (nomatch h), OtaState.freeBuf_firstBlock, ?_,
      fun h => (nomatch h)⟩
    exact OtaState.effect_freeBuf heffect trivial
  · rw [if_neg hfin]
    exact ⟨_, rfl, hok, hp, rfl, heffect, fun _ => ⟨rfl, Nat.lt_of_not_le hfin⟩⟩

theorem imgTail_spec (hk : UnitsDone env s p data v k) (hok : p.Ok)
    (hp : p.stat = .recvImgData) (hbound : p.recvDataCnt + data.length < 2 ^ 32)
    (hfirst : p.recvDataCnt = 0 → s.firstBlock = true) (hwl : v.writeLen < 512) :
    ∃ p', ImgStep env s p data (imgTail env data v).1 p' := by
  have hleft := hk.left
  have hmod := (hok.img hp).1
  have hcnt : v.p.recvDataCnt = p.recvDataCnt + 512 * k := by
    rw [hk.proc]
    rfl
  have hbin : v.p.fileHeader.binLen = p.fileHeader.binLen := by
    rw [hk.proc]
    rfl
  have hmax : p.fileHeader.binLen < 664 * 1024 := hok.binLen_lt
  have hvok : v.p.Ok := by
    rw [hk.proc]
    exact hok.units hp (by omega)
  have hstat : v.p.stat = .recvImgData := by
    rw [hk.proc]
    exact hp
  have hne : v.p.stat ≠ .recvHeader := by
    rw [hstat]
    decide
  unfold imgTail
  simp only
  by_cases hlast : sub32 v.p.fileHeader.binLen 512 < v.p.recvDataCnt ∧
      sub32 v.p.fileHeader.binLen v.p.recvDataCnt ≤ v.writeLen
  · rw [if_pos hlast]
    obtain ⟨hpast, hfits⟩ := hlast
    -- a counter past the image would leave nearly 2 ^ 32 bytes to write
    have hle : v.p.recvDataCnt ≤ v.p.fileHeader.binLen := by
      by_contra hgt
      rw [sub32_of_lt (by omega) (by omega)] at hfits
      omega
    rw [sub32_of_le hle (by omega)] at hfits
    obtain ⟨s₁, hs₁⟩ : ∃ s₁, s₁ = v.s.tklFlashWrite (env.writeFails (data.length - v.writeLen))
      v.p.flashAddr (packAt data (data.length - v.writeLen)) v.writeLen := ⟨_, rfl⟩
    have heffect : Effect (ImgOp p data.length) s.io s₁.io := by
      rw [hs₁]
      refine OtaState.effect_write hk.effect ⟨p.recvDataCnt + 512 * k, ?_, by omega, by omega,
        fun h0 => by omega, Or.inr ⟨hwl, by omega, by omega⟩⟩
      rw [hk.proc]
      rfl
    have hs₁first : s₁.firstBlock = v.s.firstBlock := by
      rw [hs₁]
      rfl
    rw [← hs₁]
    by_cases hfails : (env.writeFails (data.length - v.writeLen)).isSome
    · rw [if_pos hfails]
      refine ⟨v.p, rfl, hvok, hne, OtaState.effect_freeBuf heffect trivial, ?_, ?_, ?_⟩
      · intro _ h0
        omega
      · intro _
        omega
      · intro hw _
        rw [hw] at hfails
        cases hfails
    · rw [if_neg hfails]
      have hcnt' : u32 (v.p.recvDataCnt + v.writeLen) = v.p.recvDataCnt + v.writeLen :=
        u32_of_lt (by omega)
      have hfin : v.p.fileHeader.binLen ≤ v.p.recvDataCnt + v.writeLen := by omega
      unfold finishCheck
      simp only [hcnt']
      rw [if_pos hfin]
      refine ⟨_, rfl, ?_, fun h => (nomatch h), OtaState.effect_freeBuf heffect trivial,
        fun h => (nomatch h), fun h => (nomatch h), fun _ h => (nomatch h)⟩
      exact ⟨fun hh => (nomatch hh), fun _ => hvok.accepted hne,
        fun hh => (nomatch hh), fun _ => hfin⟩
  · rw [if_neg hlast]
    obtain ⟨p', hproc, hok', hstat', hfirst', heffect, himg⟩ := finishCheck_spec hvok hne hk.effect
    refine ⟨p', hproc, hok', hstat', heffect, ?_, ?_, ?_⟩
    · intro hi h0
      obtain ⟨rfl, _⟩ := himg hi
      rw [hfirst']
      exact hk.first_of hfirst (hcnt.symm.trans h0)
    · intro hi
      obtain ⟨rfl, _⟩ := himg hi
      omega
    · intro _ hi
      obtain ⟨rfl, hlt⟩ := himg hi
      exact Or.inr (Nat.lt_trans hlt hvok.binLen_lt)

/-- The case `UGS_RECV_IMG_DATA` as a whole. -/
theorem recvImgData_spec (hs : s.ugProc = some p) (hok : p.Ok) (hp : p.stat = .recvImgData)
    (hbound : p.recvDataCnt + data.length < 2 ^ 32)
    (hfirst : p.recvDataCnt = 0 → s.firstBlock = true) :
    ∃ r, recvImgData env s p data = some r ∧ ∃ p', ImgStep env s p data r.1 p' := by
  unfold recvImgData
  by_cases hwait : data.length < 512 ∧ p.recvDataCnt ≤ sub32 p.fileHeader.binLen 512
  · rw [if_pos hwait]
    refine ⟨_, rfl, p, hs, hok, ?_, .refl, fun _ => hfirst, fun _ => Nat.le_add_right _ _,
      fun _ _ => Or.inl rfl⟩
    rw [hp]
    decide
  · rw [if_neg hwait]
    obtain ⟨⟨v, ret⟩, hrun, k, hk, hend⟩ := unitLoop_spec env s data hok hp hbound hfirst
    rw [hrun]
    rcases hend with ⟨hret, hwl⟩ | ⟨hret, hno⟩
    · simp only at hret
      subst hret
      exact ⟨_, rfl, imgTail_spec hk hok hp hbound hfirst hwl⟩
    · simp only at hret
      subst hret
      exact ⟨_, rfl, v.p, hk.failed hok hp hbound hfirst hno⟩

end

/-! ## The checksum -/

/-- Byte `k` of the image as `tkl_ota_end_notify` sees it: the first block from its buffer,
the rest from the flash. -/
def imageByte (env : OtaEnv) (s : OtaState) (p : UgProc) (k : Nat) : Byte :=
  if k < 512 then s.fristBlockDatabuf.getD env.nullByte k else s.dev.cells (p.startAddr + k)

/-- The sum of the image, modulo `2 ^ 32`. -/
def imageSum (env : OtaEnv) (s : OtaState) (p : UgProc) : Nat :=
  addBytes 0 ((List.range p.fileHeader.binLen).map (imageByte env s p))

theorem addBytes_append (sum : Nat) (l₁ l₂ : List Byte) :
    addBytes sum (l₁ ++ l₂) = addBytes (addBytes sum l₁) l₂ := List.foldl_append

theorem checksum_spec {env : OtaEnv} {s : OtaState} {p : UgProc}
    (hlen : p.fileHeader.binLen < otaMaxBinSize) (haddr : p.startAddr ≤ ugStartAddr) :
    Loop.run (checksumPass env s p) (p.fileHeader.binLen + 1) (0, 0) =
      some (imageSum env s p) := by
  have hmax : p.fileHeader.binLen < 664 * 1024 := hlen
  have hstart : p.startAddr ≤ 0x12A000 := haddr
  have hloop : ∃ r, Loop.run (checksumPass env s p) (p.fileHeader.binLen + 1) (0, 0) = some r ∧
      r = imageSum env s p := by
    refine Loop.run_spec
      (I := fun v => v.1 % 4096 = 0 ∧ v.1 < 2 ^ 31 ∧
        v.2 = addBytes 0 ((List.range (min v.1 p.fileHeader.binLen)).map (imageByte env s p)))
      (fun v => p.fileHeader.binLen - v.1) ?_ ?_ ⟨rfl, by decide, by simp [addBytes]⟩ (by simp)
    · intro ⟨i, sum⟩ r ⟨_, _, hsum⟩ hb
      simp only [checksumPass] at hb
      by_cases hend : p.fileHeader.binLen ≤ i
      · rw [if_pos hend] at hb
        cases hb
        simp only at hsum
        rw [hsum, imageSum, Nat.min_eq_right hend]
      · rw [if_neg hend] at hb
        cases hb
    · intro ⟨i, sum⟩ v' ⟨hmod, _, hsum⟩ hb
      simp only [checksumPass] at hb
      by_cases hend : p.fileHeader.binLen ≤ i
      · rw [if_pos hend] at hb
        cases hb
      · rw [if_neg hend, sub32_of_le (by omega) (by omega)] at hb
        obtain ⟨rlen, hrlen⟩ : ∃ rlen, rlen = if 4096 ≤ p.fileHeader.binLen - i then 4096
          else p.fileHeader.binLen - i := ⟨_, rfl⟩
        have hrlen' : rlen = min 4096 (p.fileHeader.binLen - i) := by
          rw [hrlen]
          split <;> omega
        rw [← hrlen] at hb
        simp only [Pass.again.injEq] at hb
        subst hb
        have hnext : u32 (i + 4096) = i + 4096 := u32_of_lt (by simp only at *; omega)
        have hbytes : (List.range rlen).map (if i = 0 then firstBlockOver env s fun k =>
            (Flash.tklFlashRead s.dev (u32 (p.startAddr + i)) rlen).getD k 0 else fun k =>
            (Flash.tklFlashRead s.dev (u32 (p.startAddr + i)) rlen).getD k 0) =
            (List.range rlen).map fun j => imageByte env s p (i + j) := by
          apply List.map_congr_left
          intro j hj
          have hj := List.mem_range.mp hj
          have hread : (Flash.tklFlashRead s.dev (u32 (p.startAddr + i)) rlen).getD j 0 =
              s.dev.cells (p.startAddr + (i + j)) := by
            rw [Flash.tklFlashRead, u32_of_lt (by omega), flashRead_eq (by omega) (by omega)]
            simp [readBytes, hj, Nat.add_assoc]
          by_cases h0 : i = 0
          · rw [if_pos h0]
            simp only [firstBlockOver, imageByte, hread]
            rw [h0, Nat.zero_add]
          · rw [if_neg h0]
            simp only [hread, imageByte]
            rw [if_neg (by omega)]
        refine ⟨⟨?_, ?_, ?_⟩, ?_⟩
        · simp only [hnext]
          simp only at hmod
          omega
        · simp only [hnext]
          simp only at hmod
          omega
        · simp only at hsum
          simp only [hnext, hbytes]
          rw [hsum, ← addBytes_append]
          have hmin : min i p.fileHeader.binLen = i := by omega
          have hmin' : min (i + 4096) p.fileHeader.binLen = i + rlen := by omega
          rw [hmin, hmin', List.range_add, List.map_append, List.map_map]
          rfl
        · simp only [hnext]
          omega
  obtain ⟨r, hrun, hr⟩ := hloop
  rw [hrun, hr]

/-! ## `tkl_ota_end_notify` -/

/-- The first sector with the first block put into its place. -/
def sectorBack (env : OtaEnv) (s : OtaState) (p : UgProc) : Nat → Byte :=
  firstBlockOver env s fun k => (Flash.tklFlashRead s.dev p.startAddr 4096).getD k 0

/-- The state after the first sector has been erased and written back. -/
def sealed (env : OtaEnv) (s : OtaState) (p : UgProc) : OtaState :=
  ((s.record (.malloc .tempbuf)).tklFlashErase p.startAddr 4096).restore (env.writeFails 0)
    p.startAddr (sectorBack env s p) 4096

/-- The condition under which `tkl_ota_end_notify` touches the flash. -/
def Seals (env : OtaEnv) (s : OtaState) (p : UgProc) : Prop :=
  s.ugProc = some p ∧ env.malloc .tempbuf = true ∧ imageSum env s p = p.fileHeader.binSum

/-- A matching checksum: the first sector is erased and written back. -/
theorem endNotify_seals {env : OtaEnv} {s : OtaState} {p : UgProc} (reset : Bool)
    (h : Seals env s p) (hlen : p.fileHeader.binLen < otaMaxBinSize)
    (haddr : p.startAddr ≤ ugStartAddr) : endNotify env s reset =
      some (if reset then (sealed env s p).release.record .reset else (sealed env s p).release,
        .ok) := by
  obtain ⟨hp, hmalloc, hsum⟩ := h
  have hloop : Loop.run (checksumPass env (s.record (.malloc .tempbuf)) p)
      (p.fileHeader.binLen + 1) (0, 0) = some (imageSum env s p) := checksum_spec hlen haddr
  have htmp : (firstBlockOver env ((s.record (.malloc .tempbuf)).tklFlashErase p.startAddr
      4096) fun k => (Flash.tklFlashRead (s.record (.malloc .tempbuf)).dev p.startAddr
      4096).getD k 0) = sectorBack env s p := by
    unfold sectorBack firstBlockOver
    simp
  unfold endNotify
  simp only [hp]
  rw [if_neg (by rw [hmalloc]; decide), hloop]
  simp only
  rw [if_neg (not_not_intro hsum), htmp]
  rfl

theorem endNotify_cases (env : OtaEnv) (s : OtaState) (reset : Bool)
    (hok : ∀ p, s.ugProc = some p →
      p.fileHeader.binLen < otaMaxBinSize ∧ p.startAddr ≤ ugStartAddr) :
    (s.ugProc = none ∨ env.malloc .tempbuf = false) ∧
        (∃ ret, endNotify env s reset = some (s, ret)) ∨
      endNotify env s reset = some ((s.record (.malloc .tempbuf)).release, .endInformFailed) ∨
      ∃ p, Seals env s p ∧ endNotify env s reset =
        some (if reset then (sealed env s p).release.record .reset else (sealed env s p).release,
          .ok) := by
  cases hp : s.ugProc with
  | none =>
    refine Or.inl ⟨Or.inl rfl, .invalidParm, ?_⟩
    unfold endNotify
    simp only [hp]
  | some p =>
    obtain ⟨hlen, haddr⟩ := hok p hp
    by_cases hno : env.malloc .tempbuf = false
    · refine Or.inl ⟨Or.inr hno, .mallocFailed, ?_⟩
      unfold endNotify
      simp only [hp, hno, if_true]
    · by_cases hsum : imageSum env s p = p.fileHeader.binSum
      · have hseals : Seals env s p := ⟨hp, by simpa using hno, hsum⟩
        exact Or.inr (Or.inr ⟨p, hseals, endNotify_seals reset hseals hlen haddr⟩)
      · refine Or.inr (Or.inl ?_)
        have hloop : Loop.run (checksumPass env (s.record (.malloc .tempbuf)) p)
            (p.fileHeader.binLen + 1) (0, 0) = some (imageSum env s p) := checksum_spec hlen haddr
        unfold endNotify
        simp only [hp]
        rw [if_neg hno, hloop]
        simp only
        rw [if_pos hsum]

/-! ## One call -/

/-- What holds between calls. -/
structure OtaInv (s : OtaState) : Prop where
  ok : ∀ p, s.ugProc = some p → p.Ok
  first : ∀ p, s.ugProc = some p → p.stat ≠ .finish → p.recvDataCnt = 0 → s.firstBlock = true

theorem otaInv_boot (dev : FlashDev) : OtaInv (.boot dev) :=
  ⟨fun _ h => (nomatch h), fun _ h => (nomatch h)⟩

/-- The bytes of the image that are in while it is being received. -/
def OtaState.recvd (s : OtaState) : Nat :=
  match s.ugProc with
  | some p => if p.stat = .recvImgData then p.recvDataCnt else 0
  | none => 0

/-- The length of the pack of a call. -/
def OtaCall.packLen : OtaCall → Nat
  | .dataProcess _ pack => pack.data.length
  | _ => 0

/-- No flash write of the call fails. -/
def OtaCall.WritesSucceed : OtaCall → Prop
  | .dataProcess env _ | .startNotify env _ | .endNotify env _ =>
    ∀ off, env.writeFails off = none

/-- What an accepted header may do: erase its sectors, then be accepted. -/
def HeaderOp (dev : FlashDev) : OtaOp → Prop
  | .eraseSector a => ∃ n < otaMaxBinSize, a ∈ tklEraseSectors ugStartAddr n
  | .accepted n => n < otaMaxBinSize ∧ ∃ dev₀, dev = Flash.tklFlashErase dev₀ ugStartAddr n
  | _ => False

/-- What `tkl_ota_end_notify` may do. -/
def EndOp (env : OtaEnv) (s : OtaState) : OtaOp → Prop
  | .malloc _ | .free _ | .reset => True
  | .eraseSector a => ∃ p, Seals env s p ∧ a ∈ tklEraseSectors p.startAddr 4096
  | .restore _ addr _ size => ∃ p, Seals env s p ∧ addr = p.startAddr ∧ size = 4096
  | _ => False

/-- What a call may do in the state `s`. -/
def CallOp (s : OtaState) : OtaCall → FlashDev → OtaOp → Prop
  | .startNotify _ _, _, op => op = .malloc .ugProc
  | .dataProcess _ pack, dev, op => ∃ p, s.ugProc = some p ∧
      (p.stat = .recvHeader ∧ HeaderOp dev op ∨
        p.stat = .recvImgData ∧ ImgOp p pack.data.length dev op)
  | .endNotify env _, _, op => EndOp env s op

/-- What a call from `s` to `s'` leaves behind. -/
structure CallStep (s : OtaState) (c : OtaCall) (s' : OtaState) : Prop where
  inv : OtaInv s'
  effect : Effect (CallOp s c) s.io s'.io
  recvd : s'.recvd ≤ s.recvd + c.packLen
  progress : c.WritesSucceed → s'.recvd = s.recvd ∨ s'.recvd < otaMaxBinSize

theorem otaMaxBinSize_pos : 0 < otaMaxBinSize := by decide

theorem OtaState.recvd_img {s : OtaState} {p : UgProc} (hs : s.ugProc = some p)
    (hp : p.stat = .recvImgData) : s.recvd = p.recvDataCnt := by
  simp only [OtaState.recvd, hs, hp, if_true]

theorem OtaState.recvd_zero {s : OtaState}
    (h : ∀ p, s.ugProc = some p → p.stat = .recvImgData → p.recvDataCnt = 0) : s.recvd = 0 := by
  unfold OtaState.recvd
  cases hs : s.ugProc with
  | none => rfl
  | some p =>
    simp only
    by_cases hp : p.stat = .recvImgData
    · rw [if_pos hp, h p hs hp]
    · rw [if_neg hp]

theorem OtaInv.recvd_lt {s : OtaState} (h : OtaInv s) : s.recvd < 2 ^ 32 := by
  by_cases himg : ∃ p, s.ugProc = some p ∧ p.stat = .recvImgData
  · obtain ⟨p, hs, hp⟩ := himg
    rw [OtaState.recvd_img hs hp]
    exact ((h.ok p hs).img hp).2.1
  · rw [OtaState.recvd_zero fun p hs hp => absurd ⟨p, hs, hp⟩ himg]
    exact Nat.two_pow_pos 32

/-- A call that leaves no part of the image in. -/
theorem CallStep.of_recvd_zero {s s' : OtaState} {c : OtaCall} (hinv : OtaInv s')
    (heffect : Effect (CallOp s c) s.io s'.io)
    (h : ∀ p, s'.ugProc = some p → p.stat = .recvImgData → p.recvDataCnt = 0) :
    CallStep s c s' := by
  have h0 := OtaState.recvd_zero h
  refine ⟨hinv, heffect, ?_, fun _ => Or.inr ?_⟩
  · rw [h0]
    exact Nat.zero_le _
  · rw [h0]
    exact otaMaxBinSize_pos

theorem CallStep.refl {s : OtaState} {c : OtaCall} (h : OtaInv s) : CallStep s c s :=
  ⟨h, .refl, Nat.le_add_right _ _, fun _ => Or.inl rfl⟩

variable {s : OtaState}

theorem startNotify_step (env : OtaEnv) (imageSize : Nat) (h : OtaInv s) :
    CallStep s (.startNotify env imageSize) (startNotify env s imageSize).1 := by
  have hready : ∀ s₁ : OtaState, Effect (CallOp s (.startNotify env imageSize)) s.io s₁.io →
      CallStep s (.startNotify env imageSize)
        { s₁ with ugProc := some .zero, firstBlock := true } := by
    intro s₁ heffect
    refine .of_recvd_zero ⟨?_, fun _ _ _ _ => rfl⟩ heffect ?_
    · intro p hp
      cases hp
      exact UgProc.ok_zero
    · intro p hp hstat
      cases hp
      cases hstat
  rcases startNotify_cases env s imageSize with heq | heq | heq
  · rw [heq]
    exact .refl h
  · rw [heq]
    exact hready s .refl
  · rw [heq]
    exact hready _ (OtaState.effect_malloc .refl rfl)

theorem recvHeader_step (env : OtaEnv) (pack : OtaPack) {p : UgProc} (h : OtaInv s)
    (hs : s.ugProc = some p) (hp : p.stat = .recvHeader) :
    CallStep s (.dataProcess env pack) (recvHeader s p pack.data).1 := by
  obtain ⟨_, hstart, hcnt⟩ := (h.ok p hs).header hp
  have hfirst : s.firstBlock = true := h.first p hs (by rw [hp]; decide) hcnt
  rcases recvHeader_cases s p pack.data with heq | heq | ⟨hmax, heq⟩
  · rw [heq]
    exact .refl h
  · rw [heq]
    refine .of_recvd_zero ⟨?_, fun _ _ _ _ => hfirst⟩ .refl ?_
    · intro q hq
      cases hq
      exact ⟨fun _ => ⟨rfl, hstart, hcnt⟩, fun hne => absurd hp hne,
        fun hh => absurd (hp.symm.trans hh) (by decide),
        fun hh => absurd (hp.symm.trans hh) (by decide)⟩
    · intro q hq _
      cases hq
      exact hcnt
  · rw [heq]
    obtain ⟨s', hs'⟩ : ∃ s', s' = ({ s with ugProc := some (p.accept (parseHdr pack.data)) }
      |>.tklFlashErase ugStartAddr (parseHdr pack.data).binLen).record
        (.accepted (parseHdr pack.data).binLen) := ⟨_, rfl⟩
    have hproc : s'.ugProc = some (p.accept (parseHdr pack.data)) := by
      rw [hs', OtaState.record_ugProc, OtaState.tklFlashErase_ugProc]
    have hfirst' : s'.firstBlock = true := by
      rw [hs', OtaState.record_firstBlock, OtaState.tklFlashErase_firstBlock]
      exact hfirst
    have heffect : Effect (CallOp s (.dataProcess env pack)) s.io s'.io := by
      rw [hs']
      refine OtaState.effect_accepted (OtaState.effect_erase
        (s := { s with ugProc := some (p.accept (parseHdr pack.data)) }) .refl ?_) ?_
      · intro dev a ha
        exact ⟨p, hs, Or.inl ⟨hp, _, hmax, ha⟩⟩
      · exact ⟨p, hs, Or.inl ⟨hp, hmax, _, OtaState.tklFlashErase_dev⟩⟩
    rw [← hs']
    refine .of_recvd_zero ⟨?_, fun _ _ _ _ => hfirst'⟩ heffect ?_
    · intro q hq
      cases hproc.symm.trans hq
      exact UgProc.ok_accept hmax
    · intro q hq _
      cases hproc.symm.trans hq
      rfl

theorem dataProcess_step (env : OtaEnv) (pack : OtaPack) (h : OtaInv s)
    (hbound : s.recvd + pack.data.length < 2 ^ 32) :
    ∃ r, dataProcess env s pack.data = some r ∧ CallStep s (.dataProcess env pack) r.1 := by
  unfold dataProcess
  cases hs : s.ugProc with
  | none => exact ⟨_, rfl, .refl h⟩
  | some p =>
    simp only
    cases hp : p.stat with
    | recvHeader => exact ⟨_, rfl, recvHeader_step env pack h hs hp⟩
    | finish => exact ⟨_, rfl, .refl h⟩
    | recvImgData =>
      have hrecvd : s.recvd = p.recvDataCnt := by simp [OtaState.recvd, hs, hp]
      obtain ⟨r, hr, p', hstep⟩ := @recvImgData_spec env s p pack.data hs (h.ok p hs) hp
        (by rw [← hrecvd]; exact hbound) (h.first p hs (by rw [hp]; decide))
      refine ⟨r, hr, ⟨?_, ?_⟩, ?_, ?_, ?_⟩
      · intro q hq
        cases hstep.proc.symm.trans hq
        exact hstep.ok
      · intro q hq hne h0
        cases hstep.proc.symm.trans hq
        cases hq' : p'.stat with
        | recvHeader => exact absurd hq' hstep.stat
        | recvImgData => exact hstep.first hq' h0
        | finish => exact absurd hq' hne
      · exact hstep.effect.mono fun dev op hop => ⟨p, hs, Or.inr ⟨hp, hop⟩⟩
      · show r.1.recvd ≤ s.recvd + pack.data.length
        by_cases hp' : p'.stat = .recvImgData
        · rw [OtaState.recvd_img hstep.proc hp', hrecvd]
          exact hstep.bound hp'
        · rw [OtaState.recvd_zero fun q hq hq' => ?_]
          · exact Nat.zero_le _
          · cases hstep.proc.symm.trans hq
            exact absurd hq' hp'
      · intro hw
        by_cases hp' : p'.stat = .recvImgData
        · rw [OtaState.recvd_img hstep.proc hp', hrecvd]
          exact hstep.progress hw hp'
        · rw [OtaState.recvd_zero fun q hq hq' => ?_]
          · exact Or.inr otaMaxBinSize_pos
          · cases hstep.proc.symm.trans hq
            exact absurd hq' hp'

theorem sealed_effect {env : OtaEnv} {p : UgProc} (h : Seals env s p) :
    Effect (fun _ => EndOp env s) s.io (sealed env s p).io := by
  have hmalloc : Effect (fun _ => EndOp env s) s.io (s.record (.malloc .tempbuf)).io :=
    OtaState.effect_malloc .refl trivial
  have herase : Effect (fun _ => EndOp env s) s.io
      ((s.record (.malloc .tempbuf)).tklFlashErase p.startAddr 4096).io :=
    OtaState.effect_erase hmalloc fun _ a ha => ⟨p, h, ha⟩
  unfold sealed
  exact OtaState.effect_restore herase ⟨p, h, rfl, rfl⟩

theorem endNotify_step (env : OtaEnv) (reset : Bool) (h : OtaInv s) :
    ∃ r, endNotify env s reset = some r ∧ CallStep s (.endNotify env reset) r.1 := by
  have hnone : ∀ s' : OtaState, s'.ugProc = none →
      Effect (CallOp s (.endNotify env reset)) s.io s'.io →
      CallStep s (.endNotify env reset) s' := by
    intro s' hs' heffect
    refine .of_recvd_zero ⟨?_, ?_⟩ heffect ?_
    all_goals
      intro p hp
      cases hs'.symm.trans hp
  rcases endNotify_cases env s reset
      fun p hp => ⟨(h.ok p hp).binLen_lt, (h.ok p hp).startAddr_le⟩ with
    ⟨-, ret, heq⟩ | heq | ⟨p, hseals, heq⟩
  · exact ⟨_, heq, .refl h⟩
  · refine ⟨_, heq, hnone _ OtaState.release_ugProc ?_⟩
    exact OtaState.effect_release (OtaState.effect_malloc .refl trivial) fun _ _ => trivial
  · have heffect : Effect (CallOp s (.endNotify env reset)) s.io (sealed env s p).release.io :=
      OtaState.effect_release (sealed_effect hseals) fun _ _ => trivial
    refine ⟨_, heq, hnone _ ?_ ?_⟩
    · split
      · exact OtaState.record_ugProc.trans OtaState.release_ugProc
      · exact OtaState.release_ugProc
    · split
      · exact OtaState.effect_reset heffect trivial
      · exact heffect

theorem step_spec (c : OtaCall) (h : OtaInv s) (hbound : s.recvd + c.packLen < 2 ^ 32) :
    ∃ s' o, step s c = some (s', o) ∧ CallStep s c s' := by
  cases c with
  | startNotify env imageSize => exact ⟨_, _, rfl, startNotify_step env imageSize h⟩
  | dataProcess env pack =>
    obtain ⟨r, hr, hstep⟩ := dataProcess_step env pack h hbound
    exact ⟨_, _, by rw [step, hr]; rfl, hstep⟩
  | endNotify env reset =>
    obtain ⟨r, hr, hstep⟩ := endNotify_step env reset h
    exact ⟨_, _, by rw [step, hr]; rfl, hstep⟩

end TuyaSdk.TklOta
