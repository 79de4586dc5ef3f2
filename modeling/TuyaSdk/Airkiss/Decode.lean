import TuyaSdk.Airkiss.Sender

/-!
# What a decoder makes of a transmission

The phases of a transmission one after the other: the guide lengths lock the decoder on the
sender, the magic code sets the total length, the prefix code the length of the password. From
there on the two lengths are fixed, and the length of the SSID that the last group computes
from them counts the random byte as well (`decode_lengths`).
-/

namespace TuyaSdk.Airkiss

open TuyaSdk.Lib.Checked

variable {t : Sender} {ak : LocalContext}

/-! ## Receiving until the end -/

theorem decode_continue {ak' : LocalContext} {frame : Frame} {frames : List Frame}
    {status : AirkissStatus} (h : airkissRecv ak frame = some (ak', status))
    (hs : status ≠ .complete) : decode ak (frame :: frames) = decode ak' frames := by
  rw [decode, h]
  simp only [Option.bind_eq_bind, Option.bind_some, if_neg hs]

/-- Noise before the next frame of the signal does not change the state. -/
theorem decode_signal {noise : Frame → Prop} {frame : Frame} {signal frames : List Frame}
    (rest : List Frame) (hnoise : ∀ f, noise f → airkissRecv ak f = some (ak, .continue))
    (h : Interleaved noise (frame :: signal) frames) :
    ∃ frames', Interleaved noise signal frames' ∧
      decode ak (frames ++ rest) = decode ak (frame :: frames' ++ rest) := by
  generalize hsig : frame :: signal = sig at h
  induction h with
  | nil => cases hsig
  | signal hrest =>
    cases hsig
    exact ⟨_, hrest, rfl⟩
  | noise hn _ ih =>
    obtain ⟨frames', hint, heq⟩ := ih hsig
    exact ⟨frames', hint, (decode_continue (hnoise _ hn) (by decide)).trans heq⟩

theorem decode_noise {noise : Frame → Prop} {frames rest : List Frame}
    (hnoise : ∀ f, noise f → airkissRecv ak f = some (ak, .continue))
    (h : Interleaved noise [] frames) : decode ak (frames ++ rest) = decode ak rest := by
  generalize hsig : ([] : List Frame) = sig at h
  induction h with
  | nil => rfl
  | signal _ => cases hsig
  | noise hn _ ih => exact (decode_continue (hnoise _ hn) (by decide)).trans (ih hsig)

/-! ## The filter of a locked decoder -/

/-- The decoder is locked on the sender. -/
structure Locked (t : Sender) (ak : LocalContext) : Prop where
  base : ak.baseLen = t.baseLen
  apSta : ak.srcApSta = t.apSta
  crc : ak.srcMacCrc = t.macCrc
  state : ak.airkissState ≠ .idle

theorem Locked.filter_eq (h : Locked t ak) (frame : Frame) :
    airkissFilter ak frame = airkissFilter { LocalContext.zero with
      baseLen := t.baseLen
      srcApSta := t.apSta
      srcMacCrc := t.macCrc } frame := by
  rw [airkissFilter, airkissFilter, h.base, h.apSta, h.crc]

theorem Locked.noise (h : Locked t ak) {frame : Frame} (hr : t.Rejected frame) :
    airkissRecv ak frame = some (ak, .continue) := by
  have hf : airkissFilter ak frame = some false := (h.filter_eq frame).trans hr
  rw [airkissRecv, if_pos h.state, hf]
  rfl

/-- A frame of the sender passes the filter. -/
theorem Locked.signal (h : Locked t ak) {code : Nat} {frame : Frame} (hs : t.Sends code frame)
    (hcode : code < 0x200) : airkissRecv ak frame = airkissDispatch ak frame := by
  obtain ⟨hdata, hsrc, hlen⟩ := hs
  have hf : airkissFilter ak frame = some true := by
    have hsize : ¬(frame.length.toNat < ak.baseLen ∨ ak.baseLen + 512 < frame.length.toNat) := by
      rw [hlen, h.base]
      omega
    rw [airkissFilter]
    simp only [if_neg (not_not.mpr hdata), if_neg hsize, h.apSta, h.crc]
    rw [sourceOf] at hsrc
    split at hsrc
    · next hfrom =>
      obtain ⟨hmac, hap⟩ := Prod.mk.inj hsrc
      simp [if_pos hfrom, ← hap, calcrcMac, Sender.macCrc, ← Option.some.inj hmac]
    · next hfrom =>
      split at hsrc
      · next hto =>
        obtain ⟨hmac, hap⟩ := Prod.mk.inj hsrc
        simp [if_neg hfrom, if_pos hto, ← hap, calcrcMac, Sender.macCrc, ← Option.some.inj hmac]
      · cases hsrc
  rw [airkissRecv, if_pos h.state, hf]
  rfl

theorem Locked.recordOf (h : Locked t ak) {code : Nat} {frame : Frame} (hs : t.Sends code frame)
    (hcode : code < 0x200) : recordOf frame.length.toNat ak.baseLen = code := by
  have hle := t.baseLen_le
  rw [Airkiss.recordOf, hs.2.2, h.base]
  omega

/-! ## Taking codes -/

/-- The decoder takes the codes, whatever noise there is before and between them, and is in
state `ak'` then. -/
def Takes (t : Sender) (ak : LocalContext) (codes : List Nat) (ak' : LocalContext) : Prop :=
  ∀ rest body frames, Interleaved t.Rejected body frames →
    List.Forall₂ t.Sends (codes ++ rest) body →
    ∃ body' frames', Interleaved t.Rejected body' frames' ∧ List.Forall₂ t.Sends rest body' ∧
      decode ak frames = decode ak' frames'

/-- One code takes the decoder to `ak'`. -/
def StepsTo (t : Sender) (ak : LocalContext) (code : Nat) (ak' : LocalContext) : Prop :=
  ∀ frame, t.Sends code frame → airkissRecv ak frame = some (ak', .continue)

theorem Takes.nil : Takes t ak [] ak :=
  fun _ body frames hint hbody => ⟨body, frames, hint, hbody, rfl⟩

theorem Takes.cons {ak₁ ak' : LocalContext} {code : Nat} {codes : List Nat} (hl : Locked t ak)
    (hstep : StepsTo t ak code ak₁) (h : Takes t ak₁ codes ak') :
    Takes t ak (code :: codes) ak' := by
  intro rest body frames hint hbody
  rw [List.cons_append] at hbody
  obtain ⟨frame, body₁, hsend, hbody₁, rfl⟩ := List.forall₂_cons_left_iff.mp hbody
  obtain ⟨frames₁, hint₁, heq⟩ := decode_signal [] (fun f hf => hl.noise hf) hint
  obtain ⟨body', frames', hint', hbody', heq'⟩ := h rest body₁ frames₁ hint₁ hbody₁
  refine ⟨body', frames', hint', hbody', ?_⟩
  rw [List.append_nil, List.append_nil] at heq
  exact heq.trans ((decode_continue (hstep frame hsend) (by decide)).trans heq')

theorem Takes.append {ak₁ ak' : LocalContext} {codes₁ codes₂ : List Nat}
    (h₁ : Takes t ak codes₁ ak₁) (h₂ : Takes t ak₁ codes₂ ak') :
    Takes t ak (codes₁ ++ codes₂) ak' := by
  intro rest body frames hint hbody
  rw [List.append_assoc] at hbody
  obtain ⟨body₁, frames₁, hint₁, hbody₁, heq₁⟩ := h₁ _ body frames hint hbody
  obtain ⟨body', frames', hint', hbody', heq'⟩ := h₂ rest body₁ frames₁ hint₁ hbody₁
  exact ⟨body', frames', hint', hbody', heq₁.trans heq'⟩

/-! ## Windows that hold a code -/

@[simp] theorem nextWindow_below (v : Vector Nat 5) (c : Nat) {i : Nat} (hi : i + 1 < 4) :
    (nextWindow v c)[i] = v[i + 1] := by
  simp [nextWindow, hi]

@[simp] theorem nextWindow_three (v : Vector Nat 5) (c : Nat) : (nextWindow v c)[3] = c := by
  simp [nextWindow]

/-- A code with its header in the upper and its value in the lower four bits. -/
theorem header_and : ∀ base ∈ [0, 0x10, 0x20, 0x30, 0x40, 0x50, 0x60, 0x70], ∀ a < 16,
    (base + a) &&& 0x01f0 = base ∧ (base + a) &&& 0x000F = a := by
  decide

/-- The window does not hold the second header of the code with the header `base`. -/
def Clean (base : Nat) (v : Vector Nat 5) : Prop :=
  ∀ i : Fin 5, i.1 = 2 ∨ i.1 = 3 → v[i] &&& 0x01f0 ≠ base + 0x10

theorem Clean.headers {base : Nat} {v : Vector Nat 5} (h : Clean base v) (code : Nat) :
    codeHeaders (nextWindow v code) base = false := by
  have h₂ : v[2] &&& 0x01f0 ≠ base + 0x10 := h 2 (Or.inl rfl)
  simp [codeHeaders, h₂]

theorem Clean.next {base code : Nat} {v : Vector Nat 5} (h : Clean base v)
    (hcode : code &&& 0x01f0 ≠ base + 0x10) : Clean base (nextWindow v code) := by
  have h₃ : v[3] &&& 0x01f0 ≠ base + 0x10 := h 3 (Or.inr rfl)
  rintro ⟨i, hi⟩ (rfl | rfl)
  · simpa using h₃
  · simpa using hcode

theorem clean_zero {base : Nat} : Clean base (Vector.replicate 5 0) := by
  intro i _
  simp

/-- The window after four lengths. -/
def window4 (v : Vector Nat 5) (c₀ c₁ c₂ c₃ : Nat) : Vector Nat 5 :=
  nextWindow (nextWindow (nextWindow (nextWindow v c₀) c₁) c₂) c₃

/-- Before the fourth length of a code none of the windows matches. -/
theorem third_headers {base c₀ c₁ c₂ : Nat} {v : Vector Nat 5} (h₀ : c₀ &&& 0x01f0 = base) :
    codeHeaders (nextWindow (nextWindow (nextWindow v c₀) c₁) c₂) base = false := by
  simp [codeHeaders, h₀]

theorem window4_headers {base c₀ c₁ c₂ c₃ : Nat} {v : Vector Nat 5}
    (h₀ : c₀ &&& 0x01f0 = base) (h₁ : c₁ &&& 0x01f0 = base + 0x10)
    (h₂ : c₂ &&& 0x01f0 = base + 0x20) (h₃ : c₃ &&& 0x01f0 = base + 0x30) :
    codeHeaders (window4 v c₀ c₁ c₂ c₃) base = true := by
  simp [codeHeaders, window4, h₀, h₁, h₂, h₃]

/-! ## The magic code -/

theorem airkissDispatch_srcLocked (hst : ak.airkissState = .srcLocked) (frame : Frame) :
    airkissDispatch ak frame =
      (airkissProcessMagicCode ak frame.length.toNat).map (·, .continue) := by
  rw [airkissDispatch, hst]
  cases airkissProcessMagicCode ak frame.length.toNat <;> rfl

theorem Locked.magicStep (h : Locked t ak) (hst : ak.airkissState = .srcLocked) {code : Nat}
    (hcode : code < 0x200) : StepsTo t ak code
      (if codeHeaders (nextWindow ak.magicCode code) 0x0000 then
        magicFound ak (nextWindow ak.magicCode code)
      else { ak with magicCode := nextWindow ak.magicCode code }) := by
  intro frame hs
  rw [h.signal hs hcode, airkissDispatch_srcLocked hst, airkissProcessMagicCode_eq, magicWindow,
    h.recordOf hs hcode]
  rfl

theorem Locked.magicMiss (h : Locked t ak) (hst : ak.airkissState = .srcLocked) {code : Nat}
    (hcode : code < 0x200) (hmiss : codeHeaders (nextWindow ak.magicCode code) 0x0000 = false) :
    StepsTo t ak code { ak with magicCode := nextWindow ak.magicCode code } := by
  have hstep := h.magicStep hst hcode
  rwa [hmiss, if_neg (by simp)] at hstep

theorem Locked.magicHit (h : Locked t ak) (hst : ak.airkissState = .srcLocked) {code : Nat}
    (hcode : code < 0x200) (hhit : codeHeaders (nextWindow ak.magicCode code) 0x0000 = true) :
    StepsTo t ak code (magicFound ak (nextWindow ak.magicCode code)) := by
  have hstep := h.magicStep hst hcode
  rwa [if_pos hhit] at hstep

theorem Locked.magicCode (h : Locked t ak) (v : Vector Nat 5) :
    Locked t { ak with magicCode := v } :=
  ⟨h.base, h.apSta, h.crc, h.state⟩

/-- Four lengths that make up a magic code are taken together. -/
theorem Locked.takesMagicWindow (h : Locked t ak) (hst : ak.airkissState = .srcLocked)
    (hclean : Clean 0 ak.magicCode) {c₀ c₁ c₂ c₃ : Nat} (h₀ : c₀ &&& 0x01f0 = 0)
    (h₁ : c₁ &&& 0x01f0 = 0x10) (h₂ : c₂ &&& 0x01f0 = 0x20) (h₃ : c₃ &&& 0x01f0 = 0x30)
    (hlt : c₀ < 0x200 ∧ c₁ < 0x200 ∧ c₂ < 0x200 ∧ c₃ < 0x200) :
    Takes t ak [c₀, c₁, c₂, c₃] (magicFound ak (window4 ak.magicCode c₀ c₁ c₂ c₃)) := by
  refine Takes.cons h (h.magicMiss hst hlt.1 (hclean.headers c₀)) ?_
  have hclean₁ : Clean 0 (nextWindow ak.magicCode c₀) := hclean.next (by simp [h₀])
  have l₁ := h.magicCode (nextWindow ak.magicCode c₀)
  have l₂ := l₁.magicCode (nextWindow (nextWindow ak.magicCode c₀) c₁)
  have l₃ := l₂.magicCode (nextWindow (nextWindow (nextWindow ak.magicCode c₀) c₁) c₂)
  refine Takes.cons l₁ (l₁.magicMiss hst hlt.2.1 (hclean₁.headers c₁)) ?_
  refine Takes.cons l₂ (l₂.magicMiss hst hlt.2.2.1 (third_headers h₀)) ?_
  exact Takes.cons l₃ (l₃.magicHit hst hlt.2.2.2 (window4_headers h₀ h₁ h₂ h₃)) Takes.nil

/-- The first run of the magic code sets the total length. -/
theorem Locked.takesMagic (h : Locked t ak) (hst : ak.airkissState = .srcLocked)
    (hclean : Clean 0 ak.magicCode) (ssidCrc : UInt8) :
    ∃ ak', Takes t ak (t.magicCodes ssidCrc) ak' ∧ Locked t ak' ∧
      ak'.airkissState = .magicCodeComplete ∧ ak'.totalLen = t.total ∧
      ak'.prefixCode = Vector.replicate _ 0 := by
  have htotal : t.total ≤ 63 := t.total_le
  have hcrc : ssidCrc.toNat < 256 := ssidCrc.toNat_lt
  have h₀ := header_and 0 (by simp) (t.total / 16) (by omega)
  have h₁ := header_and 0x10 (by simp) (t.total % 16) (by omega)
  have h₂ := header_and 0x20 (by simp) (ssidCrc.toNat / 16) (by omega)
  have h₃ := header_and 0x30 (by simp) (ssidCrc.toNat % 16) (by omega)
  rw [Nat.zero_add] at h₀
  have htakes := h.takesMagicWindow hst hclean h₀.1 h₁.1 h₂.1 h₃.1 (by omega)
  refine ⟨_, htakes, ⟨h.base, h.apSta, h.crc, by simp [magicFound, airkissResestData]⟩, rfl, ?_, rfl⟩
  have h7 : ∀ a < 4, a &&& 0x0007 = a := by decide
  simp only [magicFound, airkissResestData, window4, nextWindow_below, nextWindow_three,
    Nat.reduceAdd, Nat.reduceLT, h₁.2, h7 (t.total / 16) (by omega), Nat.shiftLeft_eq]
  omega

/-! ## The prefix code -/

theorem airkissDispatch_magicCodeComplete (hst : ak.airkissState = .magicCodeComplete)
    (frame : Frame) : airkissDispatch ak frame =
      (airkissProcessPrefixCode ak frame.length.toNat).map (·, .continue) := by
  rw [airkissDispatch, hst]
  cases airkissProcessPrefixCode ak frame.length.toNat <;> rfl

theorem Locked.prefixCode (h : Locked t ak) (v : Vector Nat 5) :
    Locked t { ak with prefixCode := v } :=
  ⟨h.base, h.apSta, h.crc, h.state⟩

theorem Locked.prefixMiss (h : Locked t ak) (hst : ak.airkissState = .magicCodeComplete)
    {code : Nat} (hcode : code < 0x200)
    (hmiss : codeHeaders (nextWindow ak.prefixCode code) 0x0040 = false) :
    StepsTo t ak code { ak with prefixCode := nextWindow ak.prefixCode code } := by
  intro frame hs
  rw [h.signal hs hcode, airkissDispatch_magicCodeComplete hst, airkissProcessPrefixCode_eq,
    prefixWindow, h.recordOf hs hcode, hmiss, if_neg (by simp)]
  rfl

theorem Locked.prefixHit (h : Locked t ak) (hst : ak.airkissState = .magicCodeComplete)
    (htotal : ak.totalLen ≤ 124) {code : Nat} (hcode : code < 0x200)
    (hhit : codeHeaders (nextWindow ak.prefixCode code) 0x0040 = true)
    (hcrc : prefixCrcOk (nextWindow ak.prefixCode code) = true) :
    StepsTo t ak code (prefixFound ak (nextWindow ak.prefixCode code)
      (1 <<< ((ak.totalLen + 3) / 4))) := by
  intro frame hs
  rw [h.signal hs hcode, airkissDispatch_magicCodeComplete hst, airkissProcessPrefixCode_eq,
    prefixWindow, h.recordOf hs hcode, if_pos hhit, if_pos hcrc, shl_eq (by omega)]
  rfl

/-- Codes without the second header of the prefix code leave the decoder waiting for it. -/
theorem Locked.takesClean (h : Locked t ak) (hst : ak.airkissState = .magicCodeComplete)
    (hclean : Clean 0x40 ak.prefixCode) {codes : List Nat}
    (hcodes : ∀ c ∈ codes, c < 0x200 ∧ c &&& 0x01f0 ≠ 0x50) :
    ∃ v, Takes t ak codes { ak with prefixCode := v } ∧ Clean 0x40 v := by
  induction codes generalizing ak with
  | nil => exact ⟨ak.prefixCode, Takes.nil, hclean⟩
  | cons c codes ih =>
    obtain ⟨hlt, hhead⟩ := hcodes c (by simp)
    have hnext : Clean 0x40 (nextWindow ak.prefixCode c) := hclean.next hhead
    obtain ⟨v, htakes, hv⟩ := ih (h.prefixCode (nextWindow ak.prefixCode c)) hst hnext
      fun c' hc' => hcodes c' (by simp [hc'])
    exact ⟨v, Takes.cons h (h.prefixMiss hst hlt (hclean.headers c)) htakes, hv⟩

/-- Four lengths that make up a prefix code with a right checksum are taken together. -/
theorem Locked.takesPrefixWindow (h : Locked t ak) (hst : ak.airkissState = .magicCodeComplete)
    (htotal : ak.totalLen ≤ 124) (hclean : Clean 0x40 ak.prefixCode) {c₀ c₁ c₂ c₃ : Nat}
    (h₀ : c₀ &&& 0x01f0 = 0x40) (h₁ : c₁ &&& 0x01f0 = 0x50) (h₂ : c₂ &&& 0x01f0 = 0x60)
    (h₃ : c₃ &&& 0x01f0 = 0x70)
    (hlt : c₀ < 0x200 ∧ c₁ < 0x200 ∧ c₂ < 0x200 ∧ c₃ < 0x200)
    (hcrc : prefixCrcOk (window4 ak.prefixCode c₀ c₁ c₂ c₃) = true) :
    Takes t ak [c₀, c₁, c₂, c₃] (prefixFound ak (window4 ak.prefixCode c₀ c₁ c₂ c₃)
      (1 <<< ((ak.totalLen + 3) / 4))) := by
  refine Takes.cons h (h.prefixMiss hst hlt.1 (hclean.headers c₀)) ?_
  have hclean₁ : Clean 0x40 (nextWindow ak.prefixCode c₀) := hclean.next (by simp [h₀])
  have l₁ := h.prefixCode (nextWindow ak.prefixCode c₀)
  have l₂ := l₁.prefixCode (nextWindow (nextWindow ak.prefixCode c₀) c₁)
  have l₃ := l₂.prefixCode (nextWindow (nextWindow (nextWindow ak.prefixCode c₀) c₁) c₂)
  have hhit := l₃.prefixHit hst htotal hlt.2.2.2 (window4_headers h₀ h₁ h₂ h₃) hcrc
  refine Takes.cons l₁ (l₁.prefixMiss hst hlt.2.1 (hclean₁.headers c₁)) ?_
  refine Takes.cons l₂ (l₂.prefixMiss hst hlt.2.2.1 (third_headers h₀)) ?_
  exact Takes.cons l₃ hhit Takes.nil

/-- The first run of the prefix code sets the length of the password. -/
theorem Locked.takesPrefix (h : Locked t ak) (hst : ak.airkissState = .magicCodeComplete)
    (htotal : ak.totalLen = t.total) (hclean : Clean 0x40 ak.prefixCode) :
    ∃ ak', Takes t ak t.prefixCodes ak' ∧ Locked t ak' ∧
      ak'.airkissState = .prefixCodeComplete ∧ ak'.totalLen = t.total ∧
      ak'.pswdLen = t.pwd.length := by
  have h63 : t.total ≤ 63 := t.total_le
  have hpwd := t.pwd_le
  have hcrc : (calcrc1byte (UInt8.ofNat t.pwd.length)).toNat < 256 := UInt8.toNat_lt _
  generalize hval : (calcrc1byte (UInt8.ofNat t.pwd.length)).toNat = crc at hcrc
  have h₀ := header_and 0x40 (by simp) (t.pwd.length / 16) (by omega)
  have h₁ := header_and 0x50 (by simp) (t.pwd.length % 16) (by omega)
  have h₂ := header_and 0x60 (by simp) (crc / 16) (by omega)
  have h₃ := header_and 0x70 (by simp) (crc % 16) (by omega)
  generalize hw : window4 ak.prefixCode (0x40 + t.pwd.length / 16) (0x50 + t.pwd.length % 16)
    (0x60 + crc / 16) (0x70 + crc % 16) = w
  have hlen : prefixPswdLen w = t.pwd.length := by
    subst hw
    simp only [prefixPswdLen, window4, nextWindow_below, nextWindow_three, Nat.reduceAdd,
      Nat.reduceLT, h₀.2, h₁.2, Nat.shiftLeft_eq]
    have h32 : passwordMaxLen = 32 := rfl
    split <;> omega
  have hok : prefixCrcOk w = true := by
    rw [prefixCrcOk, hlen, hval, prefixPswdLencrc]
    subst hw
    simp only [window4, nextWindow_below, nextWindow_three, Nat.reduceAdd, Nat.reduceLT, h₂.2,
      h₃.2, Nat.shiftLeft_eq, decide_eq_true_eq]
    omega
  have htakes := h.takesPrefixWindow hst (by omega) hclean h₀.1 h₁.1 h₂.1 h₃.1 (by omega)
    (by rw [hw]; exact hok)
  rw [hw] at htakes
  have hl : Locked t (prefixFound ak w (1 <<< ((ak.totalLen + 3) / 4))) :=
    ⟨h.base, h.apSta, h.crc, by simp [prefixFound, airkissResestData]⟩
  refine ⟨_, ?_, hl, rfl, htotal, hlen⟩
  rw [Sender.prefixCodes, hval]
  exact htakes

/-! ## The groups -/

/-- Once the prefix code was taken the two lengths are fixed: whatever is received, the lengths
of the result are computed from them. -/
theorem decode_lengths {frames : List Frame} {ak' : LocalContext}
    (hst : ak.airkissState = .prefixCodeComplete)
    (h : decode ak frames = some (ak', .complete)) :
    ak'.pswdLen = ak.pswdLen ∧ ak'.ssidLen = (ak.totalLen + 256 - ak.pswdLen) % 256 := by
  induction frames generalizing ak with
  | nil => cases h
  | cons frame frames ih =>
    rw [decode] at h
    obtain ⟨⟨ak₁, status⟩, hrecv, h⟩ := Option.bind_eq_some_iff.mp h
    rw [airkissRecv, if_pos (by rw [hst]; decide)] at hrecv
    obtain ⟨pass, -, hrecv⟩ := Option.bind_eq_some_iff.mp hrecv
    split at hrecv
    · rw [airkissDispatch, hst] at hrecv
      obtain ⟨ak₂, hseq, hrecv⟩ := Option.bind_eq_some_iff.mp hrecv
      cases hrecv
      obtain ⟨-, htotal, hpswd, hfields⟩ := airkissProcessSequence_fields hseq
      rcases hfields with hsame | ⟨hdone, hssid⟩
      · rw [hst] at hsame
        simp only [hsame] at h
        rw [← htotal, ← hpswd]
        exact ih hsame h
      · simp only [hdone, if_true] at h
        cases h
        exact ⟨hpswd, hssid⟩
    · cases hrecv
      exact ih hst h

/-! ## The guide -/

/-- The decoder has seen the guide lengths up to the `k`-th, and no other source. -/
structure Guided (t : Sender) (ak : LocalContext) (k : Nat) (frame : Frame) : Prop where
  state : ak.airkissState = .idle
  srcNum : ak.srcNum = 1
  crc : ak.srcInfo[0].crc = t.macCrc
  apSta : ak.srcInfo[0].apSta = t.apSta
  len : ak.srcInfo[0].len = t.baseLen + k
  seq : ak.srcInfo[0].seq = frame.hdr.seq.toNat >>> 4
  seqCnt : ak.srcInfo[0].seqCnt + 1 = k

theorem idle_noise (hst : ak.airkissState = .idle) {frame : Frame}
    (hd : airkissDiscoverFilter frame = false) :
    airkissRecv ak frame = some (ak, .continue) := by
  rw [airkissRecv, if_neg (by simp [hst]), airkissDispatch, hst]
  simp only [hd]
  rfl

/-- A frame of the sender reaches the table of sources. -/
theorem idle_signal (hst : ak.airkissState = .idle) {frame : Frame} {code : Nat}
    (hs : t.Sends code frame) (hcode : code < 0x200) :
    airkissRecv ak frame = (airkissAddSrcMacinfo ak t.macCrc t.apSta (t.baseLen + code)
      (frame.hdr.seq.toNat >>> 4)).map fun r =>
        if r.2 then (airkissResestData { r.1 with airkissState := .srcLocked }, .channelLocked)
        else (r.1, .continue) := by
  obtain ⟨hdata, hsrc, hlen⟩ := hs
  have hge := t.baseLen_ge
  have hle := t.baseLen_le
  have hd : airkissDiscoverFilter frame = true := by
    rw [airkissDiscoverFilter, if_neg (not_not.mpr hdata), if_neg (by omega)]
  rw [airkissRecv, if_neg (by simp [hst]), airkissDispatch, hst]
  simp only [hd, if_true, airkissRecvDiscover, hsrc, calcrcMac, hlen, Option.map_some,
    Option.bind_eq_bind, Option.bind_some]
  rw [Sender.macCrc]
  cases airkissAddSrcMacinfo ak (calcrcBytes t.mac.toList) t.apSta (t.baseLen + code)
    (frame.hdr.seq.toNat >>> 4) with
  | none => rfl
  | some r =>
    obtain ⟨ak', locked⟩ := r
    cases locked <;> rfl

theorem idle_continue {ak' : LocalContext} (hst : ak.airkissState = .idle) {frame : Frame}
    {code : Nat} (hs : t.Sends code frame) (hcode : code < 0x200)
    (hadd : airkissAddSrcMacinfo ak t.macCrc t.apSta (t.baseLen + code)
      (frame.hdr.seq.toNat >>> 4) = some (ak', false)) :
    airkissRecv ak frame = some (ak', .continue) := by
  rw [idle_signal hst hs hcode, hadd]
  rfl

theorem idle_locked {ak' : LocalContext} (hst : ak.airkissState = .idle) {frame : Frame}
    {code : Nat} (hs : t.Sends code frame) (hcode : code < 0x200)
    (hadd : airkissAddSrcMacinfo ak t.macCrc t.apSta (t.baseLen + code)
      (frame.hdr.seq.toNat >>> 4) = some (ak', true)) :
    airkissRecv ak frame =
      some (airkissResestData { ak' with airkissState := .srcLocked }, .channelLocked) := by
  rw [idle_signal hst hs hcode, hadd]
  rfl

/-- The first guide length enters the sender into the table. -/
theorem Idle.first (hi : Idle ak) {frame : Frame} (hs : t.Sends 1 frame) :
    ∃ ak', airkissRecv ak frame = some (ak', .continue) ∧ Guided t ak' 1 frame := by
  obtain ⟨hst, hnum⟩ := hi
  have hidx : newSrcIdx ak = some 0 := by
    rw [newSrcIdx, if_neg (by rw [hnum]; decide), hnum]
  have hadd : airkissAddSrcMacinfo ak t.macCrc t.apSta (t.baseLen + 1)
      (frame.hdr.seq.toNat >>> 4) = some ({ ak with
        srcInfo := ak.srcInfo.set 0 ⟨t.macCrc, 1, t.apSta, 0, t.baseLen + 1,
          frame.hdr.seq.toNat >>> 4⟩
        srcNum := (ak.srcNum + 1) % 256 }, false) := by
    have hfind : findSrc ak.srcInfo t.macCrc t.apSta 0 ak.srcNum = some none := by
      rw [hnum]
      rfl
    rw [airkissAddSrcMacinfo, hfind]
    simp only [newSrc, hidx, Option.bind_eq_bind, Option.bind_some, write_eq (Nat.succ_pos 9)]
    rfl
  refine ⟨_, idle_continue hst hs (by omega) hadd, hst, ?_, ?_, ?_, ?_, ?_, ?_⟩ <;> simp [hnum]

/-- The update of the sender's entry by the next guide length. -/
theorem Guided.knownSrc {frame next : Frame} {k : Nat} (h : Guided t ak k frame) (hk : k < 255)
    (hseq : frame.hdr.seq.toNat >>> 4 ≠ next.hdr.seq.toNat >>> 4) :
    ∃ info : SrcInfo, info.crc = t.macCrc ∧ info.apSta = t.apSta ∧
      info.len = t.baseLen + (k + 1) ∧ info.seq = next.hdr.seq.toNat >>> 4 ∧
      info.seqCnt = k ∧
      airkissAddSrcMacinfo ak t.macCrc t.apSta (t.baseLen + (k + 1))
        (next.hdr.seq.toNat >>> 4) =
        some (if k = 3 then ({ ak with
            srcInfo := ak.srcInfo.set 0 info
            baseLen := (t.baseLen + (k + 1) + 252) % 256
            srcApSta := t.apSta
            srcMacCrc := t.macCrc }, true)
          else ({ ak with srcInfo := ak.srcInfo.set 0 info }, false)) := by
  have hread : read ak.srcInfo 0 = some ak.srcInfo[0] := read_eq (Nat.succ_pos 9)
  have hfind : findSrc ak.srcInfo t.macCrc t.apSta 0 ak.srcNum = some (some 0) := by
    rw [h.srcNum, findSrc, hread]
    simp only [Option.bind_eq_bind, Option.bind_some, h.crc, h.apSta, and_self, if_true]
    rfl
  have hcnt : (ak.srcInfo[0].received (t.baseLen + (k + 1))
      (next.hdr.seq.toNat >>> 4)).seqCnt = k := by
    have hlen := h.len
    have hcnt := h.seqCnt
    simp only [SrcInfo.received, if_pos (show t.baseLen + (k + 1) = ak.srcInfo[0].len + 1 by omega)]
    omega
  refine ⟨ak.srcInfo[0].received (t.baseLen + (k + 1)) (next.hdr.seq.toNat >>> 4), h.crc, h.apSta,
    rfl, rfl, hcnt, ?_⟩
  rw [airkissAddSrcMacinfo, hfind]
  simp only [Option.bind_eq_bind, Option.bind_some, Airkiss.knownSrc, hread, h.seq, if_neg hseq,
    write_eq (Nat.succ_pos 9), hcnt]
  rw [← h.crc, ← h.apSta]
  split <;> rfl

theorem Guided.next {frame next : Frame} {k : Nat} (h : Guided t ak k frame) (hk : k < 3)
    (hs : t.Sends (k + 1) next)
    (hseq : frame.hdr.seq.toNat >>> 4 ≠ next.hdr.seq.toNat >>> 4) :
    ∃ ak', airkissRecv ak next = some (ak', .continue) ∧ Guided t ak' (k + 1) next := by
  obtain ⟨info, hcrc, hap, hlen, hinfo, hcnt, hadd⟩ := h.knownSrc (by omega) hseq
  rw [if_neg (by omega)] at hadd
  refine ⟨_, idle_continue h.state hs (by omega) hadd, h.state, h.srcNum, ?_, ?_, ?_, ?_, ?_⟩ <;>
    simp [*]

/-- The fourth guide length locks the decoder on the sender. -/
theorem Guided.last {frame next : Frame} (h : Guided t ak 3 frame) (hs : t.Sends 4 next)
    (hseq : frame.hdr.seq.toNat >>> 4 ≠ next.hdr.seq.toNat >>> 4) :
    ∃ ak', airkissRecv ak next = some (ak', .channelLocked) ∧ Locked t ak' ∧
      ak'.airkissState = .srcLocked ∧ ak'.magicCode = Vector.replicate _ 0 := by
  obtain ⟨info, -, -, -, -, -, hadd⟩ := h.knownSrc (by omega) hseq
  rw [if_pos rfl] at hadd
  have hle := t.baseLen_le
  refine ⟨_, idle_locked h.state hs (by omega) hadd, ⟨?_, rfl, rfl, ?_⟩, rfl, rfl⟩
  · change (t.baseLen + (3 + 1) + 252) % 256 = t.baseLen
    omega
  · simp [airkissResestData]

/-- A frame that the discovery filter rejects is rejected by the filter of a locked decoder. -/
theorem Locked.undiscovered (h : Locked t ak) {frame : Frame}
    (hd : airkissDiscoverFilter frame = false) :
    airkissRecv ak frame = some (ak, .continue) := by
  have hge := t.baseLen_ge
  have hle := t.baseLen_le
  have hbase := h.base
  have hf : airkissFilter ak frame = some false := by
    rw [airkissDiscoverFilter] at hd
    rw [airkissFilter]
    by_cases hdata : macFctrlDataT ≠ frame.hdr.fctl &&& macFctrlTypeMask
    · simp only [if_pos hdata]
    · rw [if_neg hdata] at hd
      simp only [if_neg hdata]
      split at hd
      · rw [if_pos (by omega)]
      · cases hd
  rw [airkissRecv, if_pos h.state, hf]
  rfl

/-- The guide frames lock the decoder on the sender. -/
theorem Idle.guide (hi : Idle ak) {guide frames : List Frame} (rest : List Frame)
    (hint : Interleaved (fun frame => airkissDiscoverFilter frame = false) guide frames)
    (hsend : List.Forall₂ t.Sends Sender.guideCodes guide)
    (hseq : guide.IsChain (fun f g => f.hdr.seq.toNat >>> 4 ≠ g.hdr.seq.toNat >>> 4)) :
    ∃ ak', decode ak (frames ++ rest) = decode ak' rest ∧ Locked t ak' ∧
      ak'.airkissState = .srcLocked ∧ ak'.magicCode = Vector.replicate _ 0 := by
  obtain ⟨f₁, guide₁, h₁, hsend₁, rfl⟩ := List.forall₂_cons_left_iff.mp hsend
  obtain ⟨f₂, guide₂, h₂, hsend₂, rfl⟩ := List.forall₂_cons_left_iff.mp hsend₁
  obtain ⟨f₃, guide₃, h₃, hsend₃, rfl⟩ := List.forall₂_cons_left_iff.mp hsend₂
  obtain ⟨f₄, guide₄, h₄, hsend₄, rfl⟩ := List.forall₂_cons_left_iff.mp hsend₃
  cases hsend₄
  simp only [List.isChain_cons_cons] at hseq
  obtain ⟨hne₁, hne₂, hne₃, -⟩ := hseq
  obtain ⟨ak₁, hr₁, hg₁⟩ := hi.first h₁
  obtain ⟨ak₂, hr₂, hg₂⟩ := hg₁.next (by omega) h₂ hne₁
  obtain ⟨ak₃, hr₃, hg₃⟩ := hg₂.next (by omega) h₃ hne₂
  obtain ⟨ak₄, hr₄, hl, hst, hmagic⟩ := hg₃.last h₄ hne₃
  obtain ⟨frames₁, hint, heq₁⟩ := decode_signal rest (fun _ hf => idle_noise hi.1 hf) hint
  obtain ⟨frames₂, hint, heq₂⟩ :=
    decode_signal rest (fun _ hf => idle_noise hg₁.state hf) hint
  obtain ⟨frames₃, hint, heq₃⟩ :=
    decode_signal rest (fun _ hf => idle_noise hg₂.state hf) hint
  obtain ⟨frames₄, hint, heq₄⟩ :=
    decode_signal rest (fun _ hf => idle_noise hg₃.state hf) hint
  refine ⟨ak₄, ?_, hl, hst, hmagic⟩
  calc decode ak (frames ++ rest)
      = decode ak (f₁ :: frames₁ ++ rest) := heq₁
    _ = decode ak₁ (f₂ :: frames₂ ++ rest) := (decode_continue hr₁ (by decide)).trans heq₂
    _ = decode ak₂ (f₃ :: frames₃ ++ rest) := (decode_continue hr₂ (by decide)).trans heq₃
    _ = decode ak₃ (f₄ :: frames₄ ++ rest) := (decode_continue hr₃ (by decide)).trans heq₄
    _ = decode ak₄ (frames₄ ++ rest) := decode_continue hr₄ (by decide)
    _ = decode ak₄ rest := decode_noise (fun _ hf => hl.undiscovered hf) hint

/-! ## The whole transmission -/

theorem magicCodes_clean (ssidCrc : UInt8) {c : Nat} (hc : c ∈ t.magicCodes ssidCrc) :
    c < 0x200 ∧ c &&& 0x01f0 ≠ 0x50 := by
  have htotal : t.total ≤ 63 := t.total_le
  have hcrc : ssidCrc.toNat < 256 := ssidCrc.toNat_lt
  have h₀ := header_and 0 (by simp) (t.total / 16) (by omega)
  have h₁ := header_and 0x10 (by simp) (t.total % 16) (by omega)
  have h₂ := header_and 0x20 (by simp) (ssidCrc.toNat / 16) (by omega)
  have h₃ := header_and 0x30 (by simp) (ssidCrc.toNat % 16) (by omega)
  rw [Nat.zero_add] at h₀
  simp only [Sender.magicCodes, List.mem_cons, List.not_mem_nil, or_false] at hc
  rcases hc with rfl | rfl | rfl | rfl
  · exact ⟨by omega, by rw [h₀.1]; decide⟩
  · exact ⟨by omega, by rw [h₁.1]; decide⟩
  · exact ⟨by omega, by rw [h₂.1]; decide⟩
  · exact ⟨by omega, by rw [h₃.1]; decide⟩

/-- A transmission that completes the decoding gives the length of the password, but counts the
random byte into the length of the SSID. -/
theorem decode_transmits {ak' : LocalContext} {frames : List Frame} (hi : Idle ak)
    (ht : t.Transmits frames) (h : decode ak frames = some (ak', .complete)) :
    ak'.pswdLen = t.pwd.length ∧ ak'.ssidLen = t.ssid.length + 1 := by
  obtain ⟨guide, guideFrames, body, bodyFrames, rfl, hguide, hsend, hseq, hbody, ssidCrc,
    magicRuns, prefixRuns, order, hmagic, hprefix, -, hcodes⟩ := ht
  obtain ⟨magicRuns, rfl⟩ := Nat.exists_eq_succ_of_ne_zero hmagic.ne'
  obtain ⟨prefixRuns, rfl⟩ := Nat.exists_eq_succ_of_ne_zero hprefix.ne'
  obtain ⟨ak₁, hdec, hl₁, hst₁, hm₁⟩ := hi.guide bodyFrames hguide hsend hseq
  rw [hdec] at h
  obtain ⟨ak₂, htakes₂, hl₂, hst₂, htotal₂, hp₂⟩ :=
    hl₁.takesMagic hst₁ (by rw [hm₁]; exact clean_zero) ssidCrc
  have hclean₂ : Clean 0x40 ak₂.prefixCode := by
    rw [hp₂]
    exact clean_zero
  have hleft : ∀ c ∈ (List.replicate magicRuns (t.magicCodes ssidCrc)).flatten,
      c < 0x200 ∧ c &&& 0x01f0 ≠ 0x50 := by
    intro c hc
    obtain ⟨run, hrun, hc⟩ := List.mem_flatten.mp hc
    rw [List.eq_of_mem_replicate hrun] at hc
    exact magicCodes_clean ssidCrc hc
  obtain ⟨v, htakes₃, hclean₃⟩ := hl₂.takesClean hst₂ hclean₂ hleft
  obtain ⟨ak₄, htakes₄, hl₄, hst₄, htotal₄, hpswd₄⟩ :=
    (hl₂.prefixCode v).takesPrefix hst₂ htotal₂ hclean₃
  have htakes := (htakes₂.append htakes₃).append htakes₄
  simp only [Sender.bodyCodes, List.replicate_succ, List.flatten_cons, List.append_assoc] at hcodes
  rw [← List.append_assoc, ← List.append_assoc] at hcodes
  obtain ⟨body', frames', -, -, heq⟩ := htakes _ body bodyFrames hbody hcodes
  rw [heq] at h
  obtain ⟨hpswd, hssid⟩ := decode_lengths hst₄ h
  have htotal : t.total = t.pwd.length + 1 + t.ssid.length := rfl
  have h63 : t.total ≤ 63 := t.total_le
  rw [htotal₄, hpswd₄] at hssid
  rw [hpswd₄] at hpswd
  exact ⟨hpswd, by omega⟩

/-- No transmission is told: whatever the password, the random byte, the SSID, the base length
and the frames in between, the length of the SSID in the result is not that of the SSID. -/
theorem not_told_of_transmits (t : Sender) (ak : LocalContext) (frames : List Frame)
    (hi : Idle ak) (ht : t.Transmits frames) :
    ¬∃ ak', decode ak frames = some (ak', .complete) ∧ t.Told ak' := by
  rintro ⟨ak', hdec, pwd, ssid, -, -, -, hlen, -⟩
  have hssid : ak'.ssidLen = t.ssid.length := hlen
  have := (decode_transmits hi ht hdec).2
  omega

/-- A station that tells the password `lamp2468`, the byte `0x5A` and the SSID `kitchen`. -/
def kitchen : Sender where
  mac := adHocFrame.hdr.addr2
  apSta := 2
  baseLen := 90
  pwd := [0x6C, 0x61, 0x6D, 0x70, 0x32, 0x34, 0x36, 0x38]
  random := 0x5A
  ssid := [0x6B, 0x69, 0x74, 0x63, 0x68, 0x65, 0x6E]
  apSta_eq := Or.inr rfl
  baseLen_ge := by decide
  baseLen_le := by decide
  pwd_le := by decide
  ssid_pos := by decide
  ssid_le := by decide
  total_ge := by decide
  total_le := by decide

def kitchenFrames : List Frame := kitchen.transmission (calcrcBytes kitchen.ssid) 1 1 [2, 0, 3, 1, 0]

def afterInit : LocalContext := { LocalContext.zero with airkissState := .idle }

/-- The decoding completes, with everything right but the length of the SSID. -/
theorem decode_kitchen : (decode afterInit kitchenFrames).any (fun r =>
    decide (r.2 = .complete ∧ airkissGetResult r.1 = ⟨some 0, some 9, 8, 8, 0x5A,
      (calcrcBytes kitchen.ssid).toNat⟩)) = true := by
  decide +kernel

theorem kitchenFrames_transmits : kitchen.Transmits kitchenFrames := by
  refine kitchen.transmits_transmission _ (by decide) (by decide) fun i => ?_
  have hg : kitchen.groups = 4 := by decide
  rw [hg]
  simp only [List.mem_cons, List.not_mem_nil, or_false]
  omega

theorem not_told_kitchen :
    (∃ ak', decode afterInit kitchenFrames = some (ak', .complete)) ∧
      ¬∃ ak', decode afterInit kitchenFrames = some (ak', .complete) ∧ kitchen.Told ak' := by
  refine ⟨?_, not_told_of_transmits kitchen afterInit kitchenFrames ⟨rfl, rfl⟩
    kitchenFrames_transmits⟩
  obtain ⟨⟨ak', status⟩, hdec, hr⟩ := (Option.any_eq_true _ _).mp decode_kitchen
  obtain ⟨rfl, -⟩ := of_decide_eq_true hr
  exact ⟨ak', hdec⟩

/-- The result of the transmission reports an SSID of eight bytes in place of seven. -/
theorem not_forall_transmits_told :
    ¬∀ (t : Sender) (ak : LocalContext) (frames : List Frame), Idle ak → t.Transmits frames →
      ∃ ak', decode ak frames = some (ak', .complete) ∧ t.Told ak' := by
  intro h
  obtain ⟨ak', hdec, pwd, ssid, -, -, -, hlen, -⟩ :=
    h kitchen afterInit kitchenFrames ⟨rfl, rfl⟩ kitchenFrames_transmits
  obtain ⟨r, hdec', hr⟩ := (Option.any_eq_true _ _).mp decode_kitchen
  cases hdec.symm.trans hdec'
  have hres := (of_decide_eq_true hr).2
  rw [hres] at hlen
  exact absurd hlen (by decide)

end TuyaSdk.Airkiss
