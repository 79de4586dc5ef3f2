import TuyaSdk.TklOta.Steps

/-!
# Receiving an image in packs

The upper layer cuts the stream of header and image into packs and presents the bytes that
`*remain_len` leaves unconsumed again in front of the next ones (`present`, `feed`). However
the stream is cut, a receiver that finishes has the image: `tkl_ota_end_notify` accepts it
and leaves it in the flash. The receiver gets there exactly for images of at least one unit.
-/

namespace TuyaSdk.TklOta
open TuyaSdk.Lib TuyaSdk.Flash

/-! ## The protocol -/

/-- No allocation and no flash write fails. -/
def OtaEnv.Calm (env : OtaEnv) : Prop :=
  (∀ block, env.malloc block = true) ∧ ∀ off, env.writeFails off = none

/-- The receiver, and the bytes it has been given and not consumed. -/
structure Feed where
  s : OtaState
  carry : List Byte

/-- A pack: what is left of the one before, and the next bytes of the stream. The last
`*remain_len` bytes are left; an error ends the upgrade. -/
def present (env : OtaEnv) (f : Feed) (chunk : List Byte) : Option Feed :=
  let data := f.carry ++ chunk
  match dataProcess env f.s data with
  | some (s, .ok, some remainLen) => some ⟨s, data.drop (data.length - remainLen)⟩
  | _ => none

def feed (env : OtaEnv) : Feed → List (List Byte) → Option Feed
  | f, [] => some f
  | f, chunk :: chunks => (present env f chunk).bind fun f' => feed env f' chunks

/-- The receiver just started, with nothing given to it. -/
def started (env : OtaEnv) (s : OtaState) (imageSize : Nat) : Feed :=
  ⟨(startNotify env s imageSize).1, []⟩

/-- The sum of the bytes modulo `2 ^ 32`. -/
def byteSum (b : List Byte) : Nat := (b.map BitVec.toNat).sum % 2 ^ 32

/-- `h` is a correct header with these `bin_len` and `bin_sum`. -/
structure HeaderOf (h : List Byte) (binLen binSum : Nat) : Prop where
  length : h.length = 32
  flag : packWord h 0 = 0x55aa55aa
  tail : packWord h 28 = 0xaa55aa55
  sum : packWord h 24 = addBytes 0 (h.take 24)
  binLen : packWord h 16 = binLen
  binSum : packWord h 20 = binSum

theorem addBytes_eq (sum : Nat) (b : List Byte) (h : sum < 2 ^ 32) :
    addBytes sum b = (sum + (b.map BitVec.toNat).sum) % 2 ^ 32 := by
  induction b generalizing sum with
  | nil => exact (Nat.mod_eq_of_lt h).symm
  | cons x b ih =>
    have hcons : addBytes sum (x :: b) = addBytes (u32 (sum + x.toNat)) b := rfl
    rw [hcons, ih _ (u32_lt _), List.map_cons, List.sum_cons]
    unfold u32
    omega

theorem addBytes_zero (b : List Byte) : addBytes 0 b = byteSum b := by
  rw [addBytes_eq 0 b (Nat.two_pow_pos 32), Nat.zero_add]
  rfl

/-! ## What the flash holds -/

/-- What lies at `x` of the partition when `r` bytes of the image are in: the first block is
withheld. -/
def heldByte (b : List Byte) (r x : Nat) : Byte :=
  if 512 ≤ x ∧ x < r then b.getD x 0 else Nor.blank

/-- The sectors of the image hold its first `r` bytes. -/
def Held (dev : FlashDev) (b : List Byte) (r : Nat) : Prop :=
  ∀ x < (b.length + 4095) / 4096 * 4096, dev.cells (ugStartAddr + x) = heldByte b r x

section

variable {dev : FlashDev} {b : List Byte} {r n : Nat}

theorem held_erase (hdev : ugStartAddr + otaMaxBinSize ≤ dev.size) (hmax : b.length < otaMaxBinSize) :
    Held (Flash.tklFlashErase dev ugStartAddr b.length) b 0 := by
  have hstart : ugStartAddr = 1220608 := rfl
  have hbin : otaMaxBinSize = 679936 := rfl
  rw [hstart, hbin] at hdev
  rw [hbin] at hmax
  rw [tklFlashErase_eq (by decide) (by rw [hstart]; omega) (by rw [hstart]; omega)
    (by rw [hstart]; omega)]
  intro x hx
  have hin : x < 4096 * ((b.length + 4095) / 4096) := by
    rw [Nat.mul_comm]
    exact hx
  rw [heldByte, if_neg (by omega)]
  exact Nor.erase_inside (Nat.le_add_right _ _) (Nat.add_lt_add_left hin _)

/-- The dummy for the first block. -/
theorem held_first (hdev : ugStartAddr + otaMaxBinSize ≤ dev.size) (h : Held dev b 0) :
    Held (Flash.tklFlashWrite dev ugStartAddr (fun _ => Nor.blank) 512) b 512 := by
  have hfit : ugStartAddr + 512 ≤ dev.size :=
    Nat.le_trans (Nat.add_le_add_left (by decide) _) hdev
  intro x hx
  have hold := h x hx
  rw [heldByte, if_neg (by omega)] at hold
  rw [heldByte, if_neg (by omega), Flash.tklFlashWrite, flashWrite_eq hfit]
  simp only [programmed, Nor.program]
  split
  · rw [Nor.and_blank, hold]
  · exact hold

/-- The next part of the image. -/
theorem held_next {src : Nat → Byte} (hdev : ugStartAddr + otaMaxBinSize ≤ dev.size)
    (hmax : b.length < otaMaxBinSize) (hn : r + n ≤ b.length) (hr : 512 ≤ r)
    (hsrc : ∀ i < n, src i = b.getD (r + i) 0) (h : Held dev b r) :
    Held (Flash.tklFlashWrite dev (ugStartAddr + r) src n) b (r + n) := by
  intro x hx
  rw [Flash.tklFlashWrite, flashWrite_eq (by omega)]
  have hold := h x hx
  unfold heldByte at hold ⊢
  by_cases hin : r ≤ x ∧ x < r + n
  · refine (Nor.program_inside (by omega) (by omega)).trans ?_
    have hoff : ugStartAddr + x - (ugStartAddr + r) = x - r := by omega
    have hpos : r + (x - r) = x := by omega
    rw [hold, if_neg (by omega), if_pos (by omega), Nor.blank_and, hoff, hsrc _ (by omega), hpos]
  · refine (Nor.program_outside (by omega)).trans ?_
    rw [hold]
    by_cases hbelow : 512 ≤ x ∧ x < r
    · rw [if_pos hbelow, if_pos (by omega)]
    · rw [if_neg hbelow, if_neg (by omega)]

end

/-! ## One unit -/

section

variable {env : OtaEnv} {data : List Byte} {v : UnitVars}

theorem unitPass_first (hcalm : env.Calm) (hge : 512 ≤ v.writeLen) (hf : v.s.firstBlock = true) :
    ∃ t, unitPass env data v = .again (v.advance
      { v.s with
        fristBlockDatabuf := some (packAt data (data.length - v.writeLen))
        firstBlock := false
        dev := Flash.tklFlashWrite v.s.dev v.p.flashAddr (fun _ => Nor.blank) 512
        trace := t } true) := by
  obtain ⟨hmalloc, hwrites⟩ := hcalm
  unfold unitPass
  rw [if_neg (Nat.not_lt_of_le hge)]
  simp only [hf, if_true, hmalloc, Bool.true_eq_false, and_false, if_false, hwrites,
    Option.isSome_none, Bool.false_eq_true]
  by_cases hnone : v.s.fristBlockDatabuf.isNone
  · simp only [hnone, if_true]
    exact ⟨_, rfl⟩
  · simp only [hnone]
    exact ⟨_, rfl⟩

theorem unitPass_next (hcalm : env.Calm) (hge : 512 ≤ v.writeLen) (hf : v.s.firstBlock = false) :
    ∃ t, unitPass env data v = .again (v.advance
      { v.s with
        dev := Flash.tklFlashWrite v.s.dev v.p.flashAddr (packAt data (data.length - v.writeLen)) 512
        trace := t } v.buf) := by
  obtain ⟨_, hwrites⟩ := hcalm
  have hpass : unitPass env data v = .again (v.advance (v.s.tklFlashWrite none v.p.flashAddr
      (packAt data (data.length - v.writeLen)) 512) v.buf) := by
    unfold unitPass
    rw [if_neg (Nat.not_lt_of_le hge)]
    simp only [hf, Bool.false_eq_true, if_false, hwrites, Option.isSome_none]
  exact ⟨_, hpass⟩

end

/-! ## A pack of image data -/

/-- `r` bytes of the image `b` are in, behind the header `h`. -/
structure Received (size : Nat) (h b : List Byte) (s : OtaState) (p : UgProc) (r : Nat) : Prop where
  hdr : p.fileHeader = parseHdr h
  start : p.startAddr = ugStartAddr
  devSize : s.dev.size = size
  buf : 0 < r → ∃ d, s.fristBlockDatabuf = some d ∧ ∀ i < 512, d i = b.getD i 0
  held : ugStartAddr + otaMaxBinSize ≤ size → Held s.dev b r

/-- So it is while more is to come. -/
structure Receiving (size : Nat) (h b : List Byte) (s : OtaState) (p : UgProc) (r : Nat) : Prop
    extends Received size h b s p r where
  stat : p.stat = .recvImgData
  cnt : p.recvDataCnt = r
  addr : p.flashAddr = ugStartAddr + r
  unit : r % 512 = 0
  first : s.firstBlock = decide (r = 0)

section

variable {env : OtaEnv} {size : Nat} {h b data : List Byte} {v : UnitVars} {s : OtaState}
  {p : UgProc} {r r₀ : Nat}

theorem Receiving.advance {s₁ : OtaState} {buf : Bool} (hv : Receiving size h b v.s v.p r)
    (hmax : b.length < otaMaxBinSize) (hroom : r + 512 ≤ b.length) (hsize : s₁.dev.size = size)
    (hbuf : ∃ d, s₁.fristBlockDatabuf = some d ∧ ∀ i < 512, d i = b.getD i 0)
    (hheld : ugStartAddr + otaMaxBinSize ≤ size → Held s₁.dev b (r + 512))
    (hf : s₁.firstBlock = false) : Receiving size h b s₁ (v.advance s₁ buf).p (r + 512) := by
  have hbin : otaMaxBinSize = 679936 := rfl
  have hstart : ugStartAddr = 1220608 := rfl
  rw [hbin] at hmax
  have hunit := hv.unit
  have hcnt : u32 (v.p.recvDataCnt + 512) = r + 512 := by
    rw [hv.cnt, u32_of_lt (by omega)]
  have haddr : u32 (v.p.flashAddr + 512) = ugStartAddr + (r + 512) := by
    rw [hv.addr, u32_of_lt (by omega), Nat.add_assoc]
  have hnot : decide (r + 512 = 0) = false := decide_eq_false (Nat.succ_ne_zero _)
  have hp : (v.advance s₁ buf).p =
      { v.p with flashAddr := ugStartAddr + (r + 512), recvDataCnt := r + 512 } := by
    simp only [UnitVars.advance, hcnt, haddr]
  rw [hp]
  exact
    { hdr := hv.hdr
      start := hv.start
      devSize := hsize
      buf := fun _ => hbuf
      held := hheld
      stat := hv.stat
      cnt := rfl
      addr := rfl
      unit := (Nat.add_mod_right r 512).trans hunit
      first := hf.trans hnot.symm }

theorem Receiving.next (hv : Receiving size h b v.s v.p r) (hcalm : env.Calm)
    (hmax : b.length < otaMaxBinSize) (hge : 512 ≤ v.writeLen) (hroom : r + 512 ≤ b.length)
    (hdata : ∀ i < 512, packAt data (data.length - v.writeLen) i = b.getD (r + i) 0) :
    ∃ v', unitPass env data v = .again v' ∧ Receiving size h b v'.s v'.p (r + 512) ∧
      v'.writeLen = v.writeLen - 512 ∧ v'.remainLen = v'.writeLen := by
  have hbin : otaMaxBinSize = 679936 := rfl
  have hstart : ugStartAddr = 1220608 := rfl
  have hunit := hv.unit
  have hsize : ∀ src, (Flash.tklFlashWrite v.s.dev v.p.flashAddr src 512).size = size := by
    intro src
    refine (flashWrite_size _ _ ?_ (by omega)).trans hv.devSize
    rw [hv.addr]
    omega
  have hdev : ugStartAddr + otaMaxBinSize ≤ size → ugStartAddr + otaMaxBinSize ≤ v.s.dev.size :=
    fun hle => Nat.le_trans hle (Nat.le_of_eq hv.devSize.symm)
  by_cases h0 : r = 0
  · have hf : v.s.firstBlock = true := by rw [hv.first, decide_eq_true h0]
    obtain ⟨t, ht⟩ := @unitPass_first env data v hcalm hge hf
    have hbytes : ∀ i < 512, packAt data (data.length - v.writeLen) i = b.getD i 0 := by
      intro i hi
      rw [hdata i hi, h0, Nat.zero_add]
    have hheld : ugStartAddr + otaMaxBinSize ≤ size → Held (Flash.tklFlashWrite v.s.dev v.p.flashAddr
        (fun _ => Nor.blank) 512) b (r + 512) := by
      intro hle
      have hheld := hv.held hle
      rw [h0] at hheld
      rw [hv.addr, h0]
      exact held_first (hdev hle) hheld
    exact ⟨_, ht, hv.advance hmax hroom (hsize _) ⟨_, rfl, hbytes⟩ hheld rfl, rfl, rfl⟩
  · have hf : v.s.firstBlock = false := by rw [hv.first, decide_eq_false h0]
    obtain ⟨t, ht⟩ := @unitPass_next env data v hcalm hge hf
    have hheld : ugStartAddr + otaMaxBinSize ≤ size → Held (Flash.tklFlashWrite v.s.dev v.p.flashAddr
        (packAt data (data.length - v.writeLen)) 512) b (r + 512) := by
      intro hle
      rw [hv.addr]
      exact held_next (hdev hle) hmax hroom (by omega) hdata (hv.held hle)
    exact ⟨_, ht, hv.advance hmax hroom (hsize _) (hv.buf (by omega)) hheld hf, rfl, rfl⟩

/-- The unit loop takes the whole units of the pack. -/
theorem unitLoop_image (hs : Receiving size h b s p r₀) (hcalm : env.Calm)
    (hmax : b.length < otaMaxBinSize) (hroom : data.length + r₀ ≤ b.length)
    (hdata : ∀ i < data.length, data.getD i 0 = b.getD (r₀ + i) 0) :
    ∃ v, Loop.run (unitPass env data) (data.length + 1)
        ⟨s, p, false, data.length, data.length⟩ = some (v, none) ∧
      ∃ r, Receiving size h b v.s v.p r ∧ r₀ ≤ r ∧ v.writeLen + r = data.length + r₀ ∧
        v.writeLen < 512 ∧ v.remainLen = v.writeLen := by
  have hunits : ∀ v r, Receiving size h b v.s v.p r → r₀ ≤ r →
      v.writeLen + r = data.length + r₀ → 512 ≤ v.writeLen →
      ∃ v', unitPass env data v = .again v' ∧ Receiving size h b v'.s v'.p (r + 512) ∧
        v'.writeLen = v.writeLen - 512 ∧ v'.remainLen = v'.writeLen := by
    intro v r hv hle hlen hge
    refine hv.next hcalm hmax hge (by omega) fun i hi => ?_
    have hpos : r₀ + (data.length - v.writeLen + i) = r + i := by omega
    rw [packAt, hdata _ (by omega), hpos]
  have hloop : ∃ res, Loop.run (unitPass env data) (data.length + 1)
      ⟨s, p, false, data.length, data.length⟩ = some res ∧ res.2 = none ∧
      ∃ r, Receiving size h b res.1.s res.1.p r ∧ r₀ ≤ r ∧
        res.1.writeLen + r = data.length + r₀ ∧ res.1.writeLen < 512 ∧
        res.1.remainLen = res.1.writeLen := by
    refine Loop.run_spec
      (I := fun v => ∃ r, Receiving size h b v.s v.p r ∧ r₀ ≤ r ∧
        v.writeLen + r = data.length + r₀ ∧ v.remainLen = v.writeLen)
      (fun v => v.writeLen) ?_ ?_ ⟨r₀, hs, Nat.le_refl _, rfl, rfl⟩ (Nat.lt_succ_self _)
    · intro v res ⟨r, hv, hle, hlen, hrem⟩ hb
      by_cases hge : 512 ≤ v.writeLen
      · obtain ⟨v', hpass, _⟩ := hunits v r hv hle hlen hge
        rw [hpass] at hb
        cases hb
      · rw [unitPass, if_pos (Nat.lt_of_not_le hge)] at hb
        cases hb
        exact ⟨rfl, r, hv, hle, hlen, Nat.lt_of_not_le hge, hrem⟩
    · intro v v' ⟨r, hv, hle, hlen, hrem⟩ hb
      by_cases hge : 512 ≤ v.writeLen
      · obtain ⟨v₁, hpass, hv₁, hwl, hrem₁⟩ := hunits v r hv hle hlen hge
        rw [hpass] at hb
        cases hb
        exact ⟨⟨r + 512, hv₁, by omega, by omega, hrem₁⟩, by omega⟩
      · rw [unitPass, if_pos (Nat.lt_of_not_le hge)] at hb
        cases hb
  obtain ⟨⟨v, ret⟩, hrun, hret, hv⟩ := hloop
  simp only at hret
  subst hret
  exact ⟨v, hrun, hv⟩

/-- What a pack of image data does: it leaves less than a unit, and waits where that is not
the rest of the image; or it brings the rest. -/
inductive PackDone (size : Nat) (h b : List Byte) (r₀ given : Nat) (s : OtaState)
    (remainLen : Nat) : Prop
  | more (p : UgProc) (r : Nat) (proc : s.ugProc = some p) (receiving : Receiving size h b s p r)
      (ge : r₀ ≤ r) (lt : r < b.length) (left : remainLen + r = given)
      (short : 512 ≤ b.length → given < b.length)
  | done (p : UgProc) (proc : s.ugProc = some p) (stat : p.stat = .finish)
      (received : Received size h b s p b.length) (unit : 512 ≤ b.length) (left : remainLen = 0)
      (all : given = b.length)

theorem imgTail_image (hv : Receiving size h b v.s v.p r) (hr : r₀ ≤ r) (hcalm : env.Calm)
    (hbinLen : (parseHdr h).binLen = b.length) (hmax : b.length < otaMaxBinSize)
    (hpos : 0 < b.length) (hle : v.writeLen + r ≤ b.length) (hwl : v.writeLen < 512)
    (hrem : v.remainLen = v.writeLen) (hoff : v.writeLen ≤ data.length)
    (hdata : ∀ i < v.writeLen,
      packAt data (data.length - v.writeLen) i = b.getD (r + i) 0) :
    ∃ s' remainLen, imgTail env data v = (s', .ok, some remainLen) ∧
      PackDone size h b r₀ (v.writeLen + r) s' remainLen := by
  have hbin : otaMaxBinSize = 679936 := rfl
  have hstart : ugStartAddr = 1220608 := rfl
  have hunit := hv.unit
  have hlen : v.p.fileHeader.binLen = b.length := by rw [hv.hdr, hbinLen]
  have hmax' : b.length < 679936 := hmax
  unfold imgTail
  simp only [hlen, hv.cnt]
  by_cases hlast : sub32 b.length 512 < r ∧ sub32 b.length r ≤ v.writeLen
  · rw [if_pos hlast]
    obtain ⟨hpast, hfits⟩ := hlast
    -- below one unit `bin_len - 512` wraps, and nothing lies past it
    have hge : 512 ≤ b.length := by
      by_contra hlt
      rw [sub32_of_lt (by omega) (by omega)] at hpast
      omega
    rw [sub32_of_le (by omega) (by omega)] at hfits
    have hall : r + v.writeLen = b.length := by omega
    have hcnt : u32 (r + v.writeLen) = b.length := by rw [hall, u32_of_lt (by omega)]
    rw [sub32_of_le hge (by omega)] at hpast
    obtain ⟨dev, hdev⟩ : ∃ dev, dev = Flash.tklFlashWrite v.s.dev v.p.flashAddr
      (packAt data (data.length - v.writeLen)) v.writeLen := ⟨_, rfl⟩
    have hsize : dev.size = size := by
      rw [hdev, Flash.tklFlashWrite, flashWrite_size _ _ (by rw [hv.addr]; omega) (by omega)]
      exact hv.devSize
    have hheld : ugStartAddr + otaMaxBinSize ≤ size → Held dev b b.length := by
      intro hle'
      rw [hdev, hv.addr, ← hall]
      exact held_next (Nat.le_trans hle' (Nat.le_of_eq hv.devSize.symm)) hmax (by omega) (by omega)
        hdata (hv.held hle')
    rw [hcalm.2]
    simp only [Option.isSome_none, Bool.false_eq_true, if_false, finishCheck, hcnt, hlen,
      Nat.le_refl, if_true]
    refine ⟨_, _, rfl, .done _ rfl rfl ?_ hge rfl (by omega)⟩
    exact
      { hdr := hv.hdr
        start := hv.start
        devSize := by rw [← hsize, hdev]; exact congrArg FlashDev.size OtaState.freeBuf_dev
        buf := fun _ => by
          obtain ⟨d, hd, hbytes⟩ := hv.buf (by omega)
          exact ⟨d, OtaState.freeBuf_fristBlockDatabuf.trans hd, hbytes⟩
        held := fun hle' => by
          have hdev' := hheld hle'
          rw [hdev] at hdev'
          exact Eq.mpr (congrArg (fun dev => Held dev b b.length) OtaState.freeBuf_dev) hdev' }
  · rw [if_neg hlast]
    have hlt : r < b.length := by
      by_contra hge
      refine hlast ⟨?_, ?_⟩
      · rw [sub32_of_le (by omega) (by omega)]
        omega
      · rw [sub32_of_le (by omega) (by omega)]
        omega
    have hshort : 512 ≤ b.length → v.writeLen + r < b.length := by
      intro hge
      by_contra hall
      refine hlast ⟨?_, ?_⟩
      · rw [sub32_of_le hge (by omega)]
        omega
      · rw [sub32_of_le (by omega) (by omega)]
        omega
    unfold finishCheck
    rw [hlen, hv.cnt, if_neg (Nat.not_le_of_lt hlt), hrem]
    exact ⟨_, _, rfl, .more v.p r rfl
      { hdr := hv.hdr
        start := hv.start
        devSize := hv.devSize
        buf := hv.buf
        held := hv.held
        stat := hv.stat
        cnt := hv.cnt
        addr := hv.addr
        unit := hv.unit
        first := hv.first } hr hlt rfl hshort⟩

theorem recvImgData_image (hproc : s.ugProc = some p) (hs : Receiving size h b s p r₀)
    (hcalm : env.Calm) (hbinLen : (parseHdr h).binLen = b.length)
    (hmax : b.length < otaMaxBinSize) (hpos : 0 < b.length) (hlt : r₀ < b.length)
    (hroom : data.length + r₀ ≤ b.length)
    (hdata : ∀ i < data.length, data.getD i 0 = b.getD (r₀ + i) 0) :
    ∃ s' remainLen, recvImgData env s p data = some (s', .ok, some remainLen) ∧
      PackDone size h b r₀ (data.length + r₀) s' remainLen := by
  have hlen : p.fileHeader.binLen = b.length := by rw [hs.hdr, hbinLen]
  have hmax' : b.length < 679936 := hmax
  unfold recvImgData
  rw [hlen, hs.cnt]
  by_cases hwait : data.length < 512 ∧ r₀ ≤ sub32 b.length 512
  · rw [if_pos hwait]
    refine ⟨s, data.length, rfl, .more p r₀ hproc hs (Nat.le_refl _) hlt rfl fun hge => ?_⟩
    obtain ⟨hshort, hle⟩ := hwait
    rw [sub32_of_le hge (by omega)] at hle
    omega
  · rw [if_neg hwait]
    obtain ⟨v, hrun, r, hv, hle, hleft, hwl, hrem⟩ := unitLoop_image hs hcalm hmax hroom hdata
    rw [hrun]
    have hbytes : ∀ i < v.writeLen,
        packAt data (data.length - v.writeLen) i = b.getD (r + i) 0 := by
      intro i hi
      have hpos' : r₀ + (data.length - v.writeLen + i) = r + i := by omega
      rw [packAt, hdata _ (by omega), hpos']
    obtain ⟨s', remainLen, htail, hdone⟩ := imgTail_image hv hle hcalm hbinLen hmax hpos (by omega)
      hwl hrem (by omega) hbytes
    rw [hleft] at hdone
    exact ⟨s', remainLen, by simp only [htail], hdone⟩

/-! ## The stream -/

theorem packWord_append {i : Nat} {b' : List Byte} (hi : i + 4 ≤ h.length) :
    packWord (h ++ b') i = packWord h i := by
  unfold packWord
  rw [List.getD_append _ _ _ _ (by omega), List.getD_append _ _ _ _ (by omega),
    List.getD_append _ _ _ _ (by omega), List.getD_append _ _ _ _ (by omega)]

theorem parseHdr_append {b' : List Byte} (hh : h.length = 32) :
    parseHdr (h ++ b') = parseHdr h := by
  unfold parseHdr
  rw [packWord_append (by omega), packWord_append (by omega), packWord_append (by omega),
    packWord_append (by omega), packWord_append (by omega),
    List.drop_append_of_le_length (by omega),
    List.take_append_of_le_length (by rw [List.length_drop]; omega)]

/-- A correct header at the start of a pack is accepted. -/
theorem recvHeader_accept {b' : List Byte} {sum : Nat} (hh : HeaderOf h b.length sum)
    (hmax : b.length < otaMaxBinSize) : recvHeader s p (h ++ b') =
      (({ s with ugProc := some (p.accept (parseHdr h)) }.tklFlashErase ugStartAddr
        b.length).record (.accepted b.length), .ok, some b'.length) := by
  have hparse := @parseHdr_append h b' hh.length
  have hbin : (parseHdr h).binLen = b.length := hh.binLen
  have hgood : ¬ ((parseHdr h).headerFlag ≠ 0x55aa55aa ∨ (parseHdr h).tailFlag ≠ 0xaa55aa55 ∨
      (parseHdr h).headSum ≠ addBytes 0 ((h ++ b').take 24)) := by
    rw [List.take_append_of_le_length (by rw [hh.length]; omega)]
    rintro (hne | hne | hne)
    · exact hne hh.flag
    · exact hne hh.tail
    · exact hne hh.sum
  have hlen : (h ++ b').length = 32 + b'.length := by rw [List.length_append, hh.length]
  unfold recvHeader
  rw [if_neg (by omega)]
  simp only [hparse]
  rw [if_neg hgood, if_neg (by rw [hbin]; omega), hlen, Nat.add_sub_cancel_left, hbin]
  rfl

/-- The receiver when the bytes `t` of the stream `h ++ b` have been presented. -/
inductive Tracks (size : Nat) (h b t : List Byte) (f : Feed) : Prop
  | header (p : UgProc) (proc : f.s.ugProc = some p) (stat : p.stat = .recvHeader)
      (carry : f.carry = t) (short : t.length < 32) (first : f.s.firstBlock = true)
      (devSize : f.s.dev.size = size)
  | image (p : UgProc) (r : Nat) (proc : f.s.ugProc = some p)
      (receiving : Receiving size h b f.s p r) (lt : r < b.length) (le : 32 + r ≤ t.length)
      (carry : f.carry = t.drop (32 + r))
  | done (p : UgProc) (proc : f.s.ugProc = some p) (stat : p.stat = .finish)
      (received : Received size h b f.s p b.length) (unit : 512 ≤ b.length) (carry : f.carry = [])
      (all : t = h ++ b)

/-- The header has been accepted. -/
def Feed.Accepted (f : Feed) : Prop := ∃ p, f.s.ugProc = some p ∧ p.stat ≠ .recvHeader

/-- The receiver has the image and nothing is left of the last pack. -/
def Feed.Finished (f : Feed) : Prop :=
  (∃ p, f.s.ugProc = some p ∧ p.stat = .finish) ∧ f.carry = []

theorem present_eq {f : Feed} {chunk : List Byte} {s' : OtaState} {remainLen : Nat}
    (h : dataProcess env f.s (f.carry ++ chunk) = some (s', .ok, some remainLen)) :
    present env f chunk =
      some ⟨s', (f.carry ++ chunk).drop ((f.carry ++ chunk).length - remainLen)⟩ := by
  unfold present
  simp only [h]

theorem present_tracks {t chunk : List Byte} {f : Feed} {sum : Nat} (hcalm : env.Calm)
    (hh : HeaderOf h b.length sum) (hmax : b.length < otaMaxBinSize) (hpos : 0 < b.length)
    (ht : Tracks size h b t f) (hcut : t ++ chunk <+: h ++ b) :
    ∃ f', present env f chunk = some f' ∧ Tracks size h b (t ++ chunk) f' ∧
      (f.Accepted → 512 ≤ b.length → t ++ chunk = h ++ b → f'.Finished) := by
  obtain ⟨rest, hrest⟩ := hcut
  have htotal : (t ++ chunk).length + rest.length = 32 + b.length := by
    rw [← List.length_append, hrest, List.length_append, hh.length]
  cases ht with
  | header p proc stat carry short first devSize =>
    have hwait : ¬ f.Accepted := by
      rintro ⟨q, hq, hne⟩
      cases proc.symm.trans hq
      exact hne stat
    have hcall : dataProcess env f.s (f.carry ++ chunk) = some (recvHeader f.s p (t ++ chunk)) := by
      unfold dataProcess
      simp only [proc, stat, carry]
    by_cases hlen : (t ++ chunk).length < 32
    · have hrecv : recvHeader f.s p (t ++ chunk) = (f.s, .ok, some (t ++ chunk).length) := by
        unfold recvHeader
        rw [if_pos hlen]
      rw [hrecv] at hcall
      refine ⟨_, present_eq hcall, .header p proc stat ?_ hlen first devSize,
        fun hacc => absurd hacc hwait⟩
      simp only [carry, Nat.sub_self, List.drop_zero]
    · obtain ⟨b', hb'⟩ : ∃ b', t ++ chunk = h ++ b' := by
        have hpre : h <+: t ++ chunk := List.prefix_of_prefix_length_le
          (List.prefix_append h b) ⟨rest, hrest⟩ (by rw [hh.length]; omega)
        obtain ⟨b', hb'⟩ := hpre
        exact ⟨b', hb'.symm⟩
      have hlen' : (t ++ chunk).length = 32 + b'.length := by
        rw [hb', List.length_append, hh.length]
      rw [hb', recvHeader_accept hh hmax] at hcall
      obtain ⟨s', hs'⟩ : ∃ s', s' = (({ f.s with ugProc := some (p.accept (parseHdr h)) } :
        OtaState).tklFlashErase ugStartAddr b.length).record (.accepted b.length) := ⟨_, rfl⟩
      rw [← hs'] at hcall
      have hproc : s'.ugProc = some (p.accept (parseHdr h)) := by
        rw [hs', OtaState.record_ugProc, OtaState.tklFlashErase_ugProc]
      have hdev : s'.dev = Flash.tklFlashErase f.s.dev ugStartAddr b.length := by
        rw [hs', OtaState.record_dev, OtaState.tklFlashErase_dev]
      have hfirst : s'.firstBlock = true := by
        rw [hs', OtaState.record_firstBlock, OtaState.tklFlashErase_firstBlock]
        exact first
      refine ⟨_, present_eq hcall, .image (p.accept (parseHdr h)) 0 hproc ?_ hpos (by omega) ?_,
        fun hacc => absurd hacc hwait⟩
      · exact
          { hdr := rfl
            start := rfl
            devSize := by rw [hdev, tklFlashErase_size, devSize]
            buf := fun hlt => absurd hlt (Nat.lt_irrefl 0)
            held := fun hle => by
              rw [hdev]
              exact held_erase (Nat.le_trans hle (Nat.le_of_eq devSize.symm)) hmax
            stat := rfl
            cnt := rfl
            addr := rfl
            unit := rfl
            first := hfirst }
      · simp only [carry]
        congr 1
        omega
  | image p r proc receiving lt le carry =>
    have hdata : f.carry ++ chunk = (t ++ chunk).drop (32 + r) := by
      rw [carry, List.drop_append_of_le_length le]
    have hlen : (f.carry ++ chunk).length + (32 + r) = (t ++ chunk).length := by
      rw [hdata, List.length_drop, List.length_append]
      omega
    have hbytes : ∀ i < (f.carry ++ chunk).length,
        (f.carry ++ chunk).getD i 0 = b.getD (r + i) 0 := by
      intro i hi
      have hstream : (t ++ chunk).getD (32 + r + i) 0 = (h ++ b).getD (32 + r + i) 0 := by
        rw [← hrest, List.getD_append (t ++ chunk) rest 0 _ (by omega)]
      rw [hdata, List.getD_eq_getElem?_getD, List.getElem?_drop, ← List.getD_eq_getElem?_getD,
        hstream, List.getD_append_right _ _ _ _ (by rw [hh.length]; omega), hh.length, Nat.add_assoc,
        Nat.add_sub_cancel_left]
    have hcall : dataProcess env f.s (f.carry ++ chunk) =
        recvImgData env f.s p (f.carry ++ chunk) := by
      unfold dataProcess
      simp only [proc, receiving.stat]
    obtain ⟨s', remainLen, hrecv, hdone⟩ := recvImgData_image proc receiving hcalm hh.binLen hmax hpos
      lt (by omega) hbytes
    rw [hrecv] at hcall
    refine ⟨_, present_eq hcall, ?_⟩
    cases hdone with
    | more p' r' proc' receiving' ge' lt' left short =>
      refine ⟨.image p' r' proc' receiving' lt' (by omega) ?_, fun _ hge hall => ?_⟩
      · have hdrop : ∀ k, (f.carry ++ chunk).drop k = (t ++ chunk).drop (32 + r + k) := by
          intro k
          rw [hdata, List.drop_drop]
        have hk : 32 + r + ((f.carry ++ chunk).length - remainLen) = 32 + r' := by omega
        simp only [hdrop, hk]
      · have hlt := short hge
        have hsame : (t ++ chunk).length = 32 + b.length := by
          rw [hall, List.length_append, hh.length]
        omega
    | done p' proc' stat' received' unit left all =>
      have hcarry : (f.carry ++ chunk).drop ((f.carry ++ chunk).length - remainLen) = [] := by
        rw [left, Nat.sub_zero, List.drop_length]
      refine ⟨.done p' proc' stat' received' unit hcarry ?_,
        fun _ _ _ => ⟨⟨p', proc', stat'⟩, hcarry⟩⟩
      have hnil : rest = [] := List.eq_nil_of_length_eq_zero (by omega)
      rw [← hrest, hnil, List.append_nil]
  | done p proc stat received unit carry all =>
    have hnil : chunk = [] := by
      refine List.eq_nil_of_length_eq_zero ?_
      rw [List.length_append, all, List.length_append, hh.length] at htotal
      omega
    have hcall : dataProcess env f.s (f.carry ++ chunk) = some (f.s, .ok, some 0) := by
      unfold dataProcess
      simp only [proc, stat]
    have hcarry : (f.carry ++ chunk).drop ((f.carry ++ chunk).length - 0) = [] := by
      rw [Nat.sub_zero, List.drop_length]
    refine ⟨_, present_eq hcall, .done p proc stat received unit hcarry ?_,
      fun _ _ _ => ⟨⟨p, proc, stat⟩, hcarry⟩⟩
    rw [hnil, List.append_nil]
    exact all

theorem feed_tracks {t : List Byte} {f : Feed} {sum : Nat} (chunks : List (List Byte))
    (hcalm : env.Calm) (hh : HeaderOf h b.length sum) (hmax : b.length < otaMaxBinSize)
    (hpos : 0 < b.length) (ht : Tracks size h b t f) (hcut : t ++ chunks.flatten <+: h ++ b) :
    ∃ f', feed env f chunks = some f' ∧ Tracks size h b (t ++ chunks.flatten) f' := by
  induction chunks generalizing t f with
  | nil => exact ⟨f, rfl, by simpa using ht⟩
  | cons c chunks ih =>
    rw [List.flatten_cons, ← List.append_assoc] at hcut ⊢
    have hpre : t ++ c <+: h ++ b := (List.prefix_append _ _).trans hcut
    obtain ⟨f₁, hf₁, ht₁, _⟩ := present_tracks hcalm hh hmax hpos ht hpre
    obtain ⟨f', hf', ht'⟩ := ih ht₁ hcut
    refine ⟨f', ?_, ht'⟩
    unfold feed
    rw [hf₁]
    exact hf'

theorem started_tracks {imageSize : Nat} (hcalm : env.Calm) (h0 : imageSize ≠ 0) :
    Tracks s.dev.size h b [] (started env s imageSize) := by
  have hready : ∃ t, (startNotify env s imageSize).1 =
      { s with ugProc := some .zero, firstBlock := true, trace := t } := by
    unfold startNotify
    rw [if_neg h0]
    cases s.ugProc with
    | some p => exact ⟨_, rfl⟩
    | none =>
      simp only [hcalm.1, if_true]
      exact ⟨_, rfl⟩
  obtain ⟨t, ht⟩ := hready
  refine .header .zero ?_ rfl rfl (by decide) ?_ ?_
  · show (startNotify env s imageSize).1.ugProc = _
    rw [ht]
  · show (startNotify env s imageSize).1.firstBlock = _
    rw [ht]
  · show (startNotify env s imageSize).1.dev.size = _
    rw [ht]

end

/-! ## Progress -/

/-- However the stream is cut: once the header has been accepted, a pack with all the bytes
that are left finishes the upgrade and is consumed. -/
def Progress (env : OtaEnv) (h b : List Byte) : Prop :=
  ∀ s imageSize chunks chunk f, imageSize ≠ 0 → (chunks ++ [chunk]).flatten = h ++ b →
    feed env (started env s imageSize) chunks = some f → f.Accepted →
      ∃ f', present env f chunk = some f' ∧ f'.Finished

/-- Images of at least one unit make progress however they are cut; a smaller one never does:
`bin_len - 512` wraps, and its packs are refused for being short. -/
theorem progress_iff (env : OtaEnv) (h b : List Byte) (sum : Nat) (hcalm : env.Calm)
    (hh : HeaderOf h b.length sum) (hpos : 0 < b.length) (hmax : b.length < otaMaxBinSize) :
    Progress env h b ↔ 512 ≤ b.length := by
  constructor
  · intro hprog
    by_contra hlt
    -- the header in one pack, the whole image in the next
    have htracks := @started_tracks env h b (.boot blankFlash) 1 hcalm Nat.one_ne_zero
    have hcut : [] ++ [h].flatten <+: h ++ b := by simp
    obtain ⟨f, hf, ht⟩ := feed_tracks [h] hcalm hh hmax hpos htracks hcut
    have hlen : ([] ++ [h].flatten).length = 32 := by simp [hh.length]
    cases ht with
    | header p proc stat carry short first devSize => omega
    | done p proc stat received unit carry all => omega
    | image p r proc receiving lt le carry =>
      have hacc : f.Accepted := ⟨p, proc, by rw [receiving.stat]; decide⟩
      obtain ⟨f', hf', ⟨q, hq, hfin⟩, _⟩ := hprog _ 1 [h] b f Nat.one_ne_zero (by simp) hf hacc
      have hall : [] ++ [h].flatten ++ b <+: h ++ b := by simp
      obtain ⟨f₁, hf₁, ht₁, _⟩ := present_tracks hcalm hh hmax hpos
        (.image p r proc receiving lt le carry) hall
      cases hf₁.symm.trans hf'
      cases ht₁ with
      | header p' proc' stat' carry' short' first' devSize' =>
        cases proc'.symm.trans hq
        cases stat'.symm.trans hfin
      | image p' r' proc' receiving' lt' le' carry' =>
        cases proc'.symm.trans hq
        cases receiving'.stat.symm.trans hfin
      | done p' proc' stat' received' unit' carry' all' => omega
  · intro hge s imageSize chunks chunk f h0 hcut hf hacc
    rw [List.flatten_append, List.flatten_singleton] at hcut
    have hpre : [] ++ chunks.flatten <+: h ++ b := ⟨chunk, hcut⟩
    obtain ⟨f₁, hf₁, ht⟩ := feed_tracks chunks hcalm hh hmax hpos (started_tracks (s := s) hcalm h0)
      hpre
    cases hf₁.symm.trans hf
    obtain ⟨f', hf', _, hfin⟩ := present_tracks hcalm hh hmax hpos ht
      (show [] ++ chunks.flatten ++ chunk <+: h ++ b from ⟨[], by simpa using hcut⟩)
    exact ⟨f', hf', hfin hacc hge (by simpa using hcut)⟩

theorem tinyHdr_ok : HeaderOf tinyHdr 1 0 := by
  constructor <;> decide

/-- For an image of one byte both sides are false. -/
theorem progress_iff_tiny : Progress calm tinyHdr [0] ↔ 512 ≤ [(0 : Byte)].length :=
  progress_iff calm tinyHdr [0] 0 ⟨fun _ => rfl, fun _ => rfl⟩ tinyHdr_ok (by decide) (by decide)

/-- The header of an image of one byte in the first pack, the image in the second. -/
theorem progress_broken : HeaderOf tinyHdr 1 0 ∧ ¬ Progress calm tinyHdr [0] := by
  refine ⟨tinyHdr_ok, fun hprog => ?_⟩
  have hstuck : (feed calm (started calm (.boot blankFlash) 1) [tinyHdr]).any (fun f =>
      f.s.ugProc.any (fun p => decide (p.stat ≠ .recvHeader)) &&
        (present calm f [0]).any (fun f' =>
          f'.s.ugProc.all (fun p => decide (p.stat ≠ .finish)))) = true := by
    decide +kernel
  obtain ⟨f, hf, hstuck⟩ := (Option.any_eq_true _ _).mp hstuck
  rw [Bool.and_eq_true] at hstuck
  obtain ⟨p, hp, hacc⟩ := (Option.any_eq_true _ _).mp hstuck.1
  obtain ⟨f', hf', hno⟩ := (Option.any_eq_true _ _).mp hstuck.2
  obtain ⟨f₁, hf₁, ⟨q, hq, hfin⟩, _⟩ := hprog (.boot blankFlash) 1 [tinyHdr] [0] f Nat.one_ne_zero
    (by decide) hf ⟨p, hp, of_decide_eq_true hacc⟩
  cases hf₁.symm.trans hf'
  exact of_decide_eq_true ((Option.all_eq_true _ _).mp hno q hq) hfin

/-! ## Integrity -/

section

variable {env : OtaEnv} {size : Nat} {h b : List Byte} {s : OtaState} {p : UgProc}

/-- The receiver's view of a received image is the image. -/
theorem Received.imageByte (hr : Received size h b s p b.length)
    (hdev : ugStartAddr + otaMaxBinSize ≤ size) {k : Nat} (hk : k < b.length) :
    imageByte env s p k = b.getD k 0 := by
  obtain ⟨d, hd, hbytes⟩ := hr.buf (by omega)
  unfold TklOta.imageByte
  by_cases hfirst : k < 512
  · rw [if_pos hfirst, hd]
    exact hbytes k hfirst
  · rw [if_neg hfirst, hr.start, hr.held hdev k (by omega), heldByte, if_pos (by omega)]

/-- What lies in the partition after the first sector has been written back. -/
theorem Received.sealed (hr : Received size h b s p b.length) (hcalm : env.Calm)
    (hdev : ugStartAddr + otaMaxBinSize ≤ size) {k : Nat} (hk : k < b.length) :
    (sealed env s p).dev.cells (ugStartAddr + k) = b.getD k 0 := by
  have hbin : otaMaxBinSize = 679936 := rfl
  have hstart : ugStartAddr = 1220608 := rfl
  rw [hstart, hbin] at hdev
  obtain ⟨dev, hdev₁⟩ : ∃ dev, dev = Flash.tklFlashErase s.dev ugStartAddr 4096 := ⟨_, rfl⟩
  have hcells : dev.cells = Nor.erase s.dev.cells ugStartAddr 4096 := by
    rw [hdev₁, tklFlashErase_eq (by decide) (by rw [hstart, hr.devSize]; omega)
      (by rw [hstart]; omega) (by rw [hstart]; omega)]
  have hsize : dev.size = size := by rw [hdev₁, tklFlashErase_size, hr.devSize]
  have hsealed : (TklOta.sealed env s p).dev =
      Flash.tklFlashWrite dev ugStartAddr (sectorBack env s p) 4096 := by
    unfold TklOta.sealed OtaState.restore OtaState.writeDev
    simp only [hcalm.2, OtaState.tklFlashErase_dev, OtaState.record_dev, hr.start, hdev₁]
  rw [hsealed, Flash.tklFlashWrite, flashWrite_eq (by rw [hsize, hstart]; omega)]
  by_cases hin : k < 4096
  · refine (Nor.program_inside (Nat.le_add_right _ _) (by omega)).trans ?_
    rw [Nat.add_sub_cancel_left, hcells, Nor.erase_inside (Nat.le_add_right _ _) (by omega),
      Nor.blank_and]
    refine Eq.trans ?_ (@Received.imageByte env size h b s p hr (by rw [hstart, hbin]; omega) k hk)
    unfold sectorBack firstBlockOver TklOta.imageByte
    by_cases hfirst : k < 512
    · rw [if_pos hfirst, if_pos hfirst]
    · rw [if_neg hfirst, if_neg hfirst, Flash.tklFlashRead, hr.start,
        flashRead_eq (by rw [hstart]; omega) (by omega)]
      simp [readBytes, hin]
  · refine (Nor.program_outside (by omega)).trans ?_
    rw [hcells, Nor.erase_outside (by omega), hr.held (by rw [hstart, hbin]; omega) k (by omega),
      heldByte, if_pos (by omega)]

end

/-- However an image and its header are cut into packs, if the receiver finishes,
`tkl_ota_end_notify` accepts the image and the upgrade partition holds it. -/
theorem image_run (env : OtaEnv) (s : OtaState) (imageSize : Nat) (h b : List Byte)
    (chunks : List (List Byte)) (f : Feed) (reset : Bool) (hcalm : env.Calm)
    (h0 : imageSize ≠ 0) (hdev : ugStartAddr + otaMaxBinSize ≤ s.dev.size) (hpos : 0 < b.length)
    (hmax : b.length < otaMaxBinSize) (hh : HeaderOf h b.length (byteSum b))
    (hcut : chunks.flatten <+: h ++ b) (hf : feed env (started env s imageSize) chunks = some f)
    (hfin : ∃ p, f.s.ugProc = some p ∧ p.stat = .finish) :
    ∃ s', endNotify env f.s reset = some (s', .ok) ∧
      readBytes s'.dev.cells ugStartAddr b.length = b := by
  obtain ⟨f₁, hf₁, ht⟩ := feed_tracks chunks hcalm hh hmax hpos (started_tracks (s := s) hcalm h0)
    (by simpa using hcut)
  cases hf₁.symm.trans hf
  obtain ⟨p, hp, hstat⟩ := hfin
  cases ht with
  | header q proc stat carry short first devSize =>
    cases proc.symm.trans hp
    cases stat.symm.trans hstat
  | image q r proc receiving lt le carry =>
    cases proc.symm.trans hp
    cases receiving.stat.symm.trans hstat
  | done q proc stat received unit carry all =>
    cases proc.symm.trans hp
    have hlen : p.fileHeader.binLen = b.length := by
      rw [received.hdr]
      exact hh.binLen
    have hbytes : (List.range b.length).map (imageByte env f.s p) = b := by
      apply List.ext_getElem (by simp)
      intro k hk _
      rw [List.length_map, List.length_range] at hk
      rw [List.getElem_map, List.getElem_range, received.imageByte hdev hk,
        List.getD_eq_getElem _ _ hk]
    have hsum : imageSum env f.s p = p.fileHeader.binSum := by
      rw [imageSum, hlen, hbytes, addBytes_zero, received.hdr]
      exact hh.binSum.symm
    have hend := endNotify_seals reset ⟨hp, hcalm.1 _, hsum⟩ (by rw [hlen]; exact hmax)
      (Nat.le_of_eq received.start)
    obtain ⟨s', hs', hdev'⟩ : ∃ s', endNotify env f.s reset = some (s', .ok) ∧
        s'.dev = (sealed env f.s p).dev := by
      cases reset with
      | false =>
        rw [if_neg Bool.false_ne_true] at hend
        exact ⟨_, hend, OtaState.release_dev⟩
      | true =>
        rw [if_pos rfl] at hend
        exact ⟨_, hend, OtaState.record_dev.trans OtaState.release_dev⟩
    refine ⟨s', hs', ?_⟩
    apply List.ext_getElem (by simp)
    intro k hk hk'
    rw [getElem_readBytes, hdev', received.sealed hcalm hdev hk', List.getD_eq_getElem _ _ hk']

/-- A header for an image of 512 zero bytes. -/
def unitHdr : List Byte :=
  [0x55, 0xaa, 0x55, 0xaa, 0, 0, 0, 0, 0, 0, 0, 0, 0, 0, 0, 0, 0, 0, 2, 0, 0, 0, 0, 0, 0, 0, 2, 0,
    0xaa, 0x55, 0xaa, 0x55]

/-- Header and image in one pack; the image is presented again in a second. -/
theorem image_run_unit : ∃ f s',
    feed calm (started calm (.boot blankFlash) 1) [unitHdr ++ List.replicate 512 0, []] = some f ∧
      endNotify calm f.s false = some (s', .ok) ∧
      readBytes s'.dev.cells ugStartAddr (List.replicate 512 (0 : Byte)).length =
        List.replicate 512 0 := by
  have hfin : (feed calm (started calm (.boot blankFlash) 1)
      [unitHdr ++ List.replicate 512 0, []]).any (fun f =>
        f.s.ugProc.any (fun p => decide (p.stat = .finish))) = true := by
    decide +kernel
  obtain ⟨f, hf, hfin⟩ := (Option.any_eq_true _ _).mp hfin
  obtain ⟨p, hp, hstat⟩ := (Option.any_eq_true _ _).mp hfin
  have hsum : byteSum (List.replicate 512 (0 : Byte)) = 0 := by decide +kernel
  obtain ⟨s', hs', hread⟩ := image_run calm (.boot blankFlash) 1 unitHdr (List.replicate 512 0)
    [unitHdr ++ List.replicate 512 0, []] f false ⟨fun _ => rfl, fun _ => rfl⟩ Nat.one_ne_zero
    (by decide) (by rw [List.length_replicate]; decide) (by rw [List.length_replicate]; decide)
    (by rw [List.length_replicate, hsum]; constructor <;> decide)
    ⟨[], by rw [List.flatten_cons, List.flatten_singleton, List.append_nil, List.append_nil]⟩ hf
    ⟨p, hp, of_decide_eq_true hstat⟩
  exact ⟨f, s', hf, hs', hread⟩

end TuyaSdk.TklOta
