import TuyaSdk.DhcpServer.Verdict

/-!
# Bytes beyond the received message

The receive buffer is reused, so behind the `len` bytes of a message lie those of earlier
ones. `optionReads` lists the bytes that the option loop reads; what the server does depends
on nothing else of the options (`process_congr`). All of them have been received if and only
if the list of options is complete (`OptionsComplete`).
-/

namespace TuyaSdk.DhcpServer
open TuyaSdk.Lib

variable {msg msg' : Mem} {off rem len : Nat}

/-- The bytes that a pass of the option loop reads: type and length of the option, the type
of the message, and the requested address. -/
def passReads (msg : Mem) (off : Nat) : List Nat :=
  [off, off + 1] ++
  (if msg off = bootpOptionDhcpMessage ∧ msg (off + 1) = 1 then [off + 2] else []) ++
  (if IsRequestedIp msg off then [off + 2, off + 3, off + 4, off + 5] else [])

/-- The bytes that the option loop reads from `off` on, with `rem` bytes of the message left. -/
def optionReads (msg : Mem) (off rem : Nat) : List Nat :=
  if rem = 0 then []
  else if msg off = bootpEndOption then [off]
  else passReads msg off ++ optionReads msg (off + consumed msg off) (rem - consumed msg off)
termination_by rem
decreasing_by
  have hpos := consumed_pos msg off
  omega

/-- Every byte that the option loop reads has been received. -/
def ReadsReceived (msg : Mem) (len : Nat) : Prop :=
  HeaderOk msg len → ∀ i ∈ optionReads msg bootpHeaderSize (len - bootpHeaderSize), i < len

/-- What the server replies and what it caches. -/
def Outcome.decision (o : Outcome) : Int × Option (Byte × Ip) × List ClientMacCache :=
  (o.ret, o.response.map fun r => (r.type, r.yiaddr), o.server.leases)

/-- The bytes of the buffer behind the received ones do not matter. -/
def DependsOnReceived (s : DhcpServerData) (msg : Mem) (len : Nat) : Prop :=
  ∀ msg' : Mem, (∀ i < len, msg' i = msg i) →
    (processDhcpMessage s msg' len).map Outcome.decision =
      (processDhcpMessage s msg len).map Outcome.decision

/-- A list of options up to its end option, or to its last byte, that breaks off before no
byte that the server wants: the type or the length of an option, the type of the message, or
the requested address. -/
def OptionsComplete : List Byte → Prop
  | [] => True
  | [type] => type = bootpEndOption
  | type :: length :: rest =>
    type = bootpEndOption ∨
      (type = bootpOptionDhcpMessage → length = 1 → rest ≠ []) ∧
      (type = bootpOptionRequestedIp → length = 4 → 4 ≤ rest.length) ∧
      OptionsComplete (rest.drop length.toNat)
termination_by bytes => bytes.length
decreasing_by
  rw [List.length_drop, List.length_cons, List.length_cons]
  omega

theorem optionReads_zero : optionReads msg off 0 = [] := by rw [optionReads, if_pos rfl]

theorem optionReads_end (hrem : rem ≠ 0) (hend : msg off = bootpEndOption) :
    optionReads msg off rem = [off] := by
  rw [optionReads, if_neg hrem, if_pos hend]

theorem optionReads_cons (hrem : rem ≠ 0) (hend : msg off ≠ bootpEndOption) :
    optionReads msg off rem =
      passReads msg off ++ optionReads msg (off + consumed msg off) (rem - consumed msg off) := by
  rw [optionReads, if_neg hrem, if_neg hend]

/-! ## What the reads decide -/

theorem mem_passReads {i : Nat} : i ∈ passReads msg off ↔ i = off ∨ i = off + 1 ∨
    ((msg off = bootpOptionDhcpMessage ∧ msg (off + 1) = 1) ∧ i = off + 2) ∨
    (IsRequestedIp msg off ∧ off + 2 ≤ i ∧ i < off + 6) := by
  rw [passReads, List.mem_append, List.mem_append]
  by_cases hm : msg off = bootpOptionDhcpMessage ∧ msg (off + 1) = 1
  · rw [if_pos hm]
    by_cases hi : IsRequestedIp msg off
    · rw [if_pos hi]
      simp only [List.mem_cons, List.not_mem_nil, or_false, hm, hi, and_self, true_and]
      omega
    · rw [if_neg hi]
      simp only [List.mem_cons, List.not_mem_nil, or_false, hm, hi, and_self, true_and, false_and]
      omega
  · rw [if_neg hm]
    by_cases hi : IsRequestedIp msg off
    · rw [if_pos hi]
      simp only [List.mem_cons, List.not_mem_nil, or_false, hm, hi, true_and, false_and, false_or]
      omega
    · rw [if_neg hi]
      simp only [List.mem_cons, List.not_mem_nil, or_false, hm, hi, false_and]

theorem isMessage_congr (h : ∀ i ∈ passReads msg off, msg' i = msg i) (type : Byte) :
    IsMessage type msg' off ↔ IsMessage type msg off := by
  have h0 : msg' off = msg off := h _ (mem_passReads.mpr (.inl rfl))
  have h1 : msg' (off + 1) = msg (off + 1) := h _ (mem_passReads.mpr (.inr (.inl rfl)))
  rw [IsMessage, IsMessage, h0, h1]
  apply and_congr_right
  intro hm
  rw [h _ (mem_passReads.mpr (.inr (.inr (.inl ⟨hm, rfl⟩))))]

theorem givenBy_congr (h : ∀ i ∈ passReads msg off, msg' i = msg i)
    (hc : ciaddr msg' = ciaddr msg) : givenBy msg' off = givenBy msg off := by
  have h0 : msg' off = msg off := h _ (mem_passReads.mpr (.inl rfl))
  have h1 : msg' (off + 1) = msg (off + 1) := h _ (mem_passReads.mpr (.inr (.inl rfl)))
  have hi : IsRequestedIp msg' off ↔ IsRequestedIp msg off := by
    rw [IsRequestedIp, IsRequestedIp, h0, h1]
  have hm := isMessage_congr h dhcpMessageRequest
  by_cases hr : IsRequestedIp msg off
  · rw [givenBy_requestedIp hr, givenBy_requestedIp (hi.mpr hr), readIp, readIp, read32_congr]
    intro i ⟨hle, hlt⟩
    exact h _ (mem_passReads.mpr (.inr (.inr (.inr ⟨hr, hle, hlt⟩))))
  · by_cases hq : IsMessage dhcpMessageRequest msg off ∧ ciaddr msg ≠ 0
    · rw [givenBy_ciaddr hr hq.1 hq.2, givenBy_ciaddr (mt hi.mp hr) (hm.mpr hq.1) (hc ▸ hq.2), hc]
    · rw [givenBy_nil hr hq, givenBy_nil (mt hi.mp hr)]
      rw [hm, hc]
      exact hq

/-- The reads decide which options there are, and each option is among them. -/
theorem optionsAt_congr (h : ∀ i ∈ optionReads msg off rem, msg' i = msg i) :
    optionsAt msg' off rem = optionsAt msg off rem ∧
      ∀ o ∈ optionsAt msg off rem, ∀ i ∈ passReads msg o, msg' i = msg i := by
  induction rem using Nat.strong_induction_on generalizing off with
  | _ rem ih =>
    by_cases hrem : rem = 0
    · rw [optionsAt_nil (.inl hrem), optionsAt_nil (.inl hrem)]
      exact ⟨rfl, fun o ho => absurd ho List.not_mem_nil⟩
    by_cases hend : msg off = bootpEndOption
    · rw [optionReads_end hrem hend] at h
      have hend' : msg' off = bootpEndOption := (h off (List.mem_singleton.mpr rfl)).trans hend
      rw [optionsAt_nil (.inr hend), optionsAt_nil (.inr hend')]
      exact ⟨rfl, fun o ho => absurd ho List.not_mem_nil⟩
    · rw [optionReads_cons hrem hend] at h
      have hpass : ∀ i ∈ passReads msg off, msg' i = msg i :=
        fun i hi => h i (List.mem_append_left _ hi)
      have h0 : msg' off = msg off := hpass _ (mem_passReads.mpr (.inl rfl))
      have hcons : consumed msg' off = consumed msg off := by
        rw [consumed, consumed, hpass _ (mem_passReads.mpr (.inr (.inl rfl)))]
      have hpos := consumed_pos msg off
      obtain ⟨heq, hmem⟩ := ih (rem - consumed msg off) (by omega)
        fun i hi => h i (List.mem_append_right _ hi)
      rw [optionsAt_cons (not_or.mpr ⟨hrem, hend⟩), optionsAt_cons (not_or.mpr ⟨hrem, h0 ▸ hend⟩),
        hcons, heq]
      refine ⟨rfl, fun o ho => ?_⟩
      rcases List.mem_cons.mp ho with rfl | ho
      · exact hpass
      · exact hmem o ho

/-- The decision on a message depends on its header and on the bytes that the option loop
reads. -/
theorem process_congr (s : DhcpServerData) (hh : HeaderOk msg len)
    (h240 : ∀ i < bootpHeaderSize, msg' i = msg i)
    (h : ∀ i ∈ optionReads msg bootpHeaderSize (len - bootpHeaderSize), msg' i = msg i) :
    (processDhcpMessage s msg' len).map Outcome.decision =
      (processDhcpMessage s msg len).map Outcome.decision := by
  have hh' : HeaderOk msg' len := by
    obtain ⟨hlen, hop, htype, hhlen⟩ := hh
    refine ⟨hlen, ?_, ?_, ?_⟩
    · rw [h240 0 (by decide)]
      exact hop
    · rw [h240 1 (by decide)]
      exact htype
    · rw [h240 2 (by decide)]
      exact hhlen
  have hmac : chaddr msg' = chaddr msg :=
    readBytes_congr fun i hi => h240 i (Nat.lt_of_lt_of_le hi.2 (by decide))
  have hc : ciaddr msg' = ciaddr msg := by
    rw [ciaddr, ciaddr, readIp, readIp, read32_congr]
    exact fun i hi => h240 i (Nat.lt_of_lt_of_le hi.2 (by decide))
  obtain ⟨hopts, hpass⟩ := optionsAt_congr h
  have hopts' : messageOptions msg' len = messageOptions msg len := hopts
  have hhas : ∀ type, HasMessage type msg' (messageOptions msg' len) ↔
      HasMessage type msg (messageOptions msg len) := by
    intro type
    rw [hopts', HasMessage, HasMessage]
    constructor
    · rintro ⟨o, ho, hm⟩
      exact ⟨o, ho, (isMessage_congr (hpass o ho) type).mp hm⟩
    · rintro ⟨o, ho, hm⟩
      exact ⟨o, ho, (isMessage_congr (hpass o ho) type).mpr hm⟩
  have hreq : IsRequest msg' len ↔ IsRequest msg len := hhas dhcpMessageRequest
  have hdis : IsDiscover msg' len ↔ IsDiscover msg len := hhas dhcpMessageDiscover
  have hjudge : judgeMessage s msg' len = judgeMessage s msg len := by
    have hgiven : requestedIps msg' len = requestedIps msg len := by
      rw [requestedIps, requestedIps, hopts', givenIps, givenIps]
      exact List.flatMap_congr fun o ho => givenBy_congr (hpass o ho) hc
    rw [judgeMessage, judgeMessage, hmac, hgiven]
  rw [processDhcpMessage_eq hh, processDhcpMessage_eq hh', hjudge]
  generalize judgeMessage s msg len = r
  by_cases hq : IsRequest msg len
  · rw [if_pos hq, if_pos (hreq.mpr hq)]
    obtain ⟨sent, hr⟩ := reply_verdict r.1 msg r.2
    obtain ⟨sent', hr'⟩ := reply_verdict r.1 msg' r.2
    rw [hr, hr']
    rfl
  rw [if_neg hq, if_neg (mt hreq.mp hq)]
  by_cases hd : IsDiscover msg len
  · rw [if_pos hd, if_pos (hdis.mpr hd)]
    rcases reply_offer r.1 msg with ⟨hn, hr⟩ | ⟨s₁, ip, sent, hn, hr⟩
    · rcases reply_offer r.1 msg' with ⟨hn', hr'⟩ | ⟨s₁', ip', sent', hn', hr'⟩
      · rw [hr, hr']
      · rw [hmac, hn] at hn'
        cases hn'
    · rcases reply_offer r.1 msg' with ⟨hn', hr'⟩ | ⟨s₁', ip', sent', hn', hr'⟩
      · rw [hmac, hn] at hn'
        cases hn'
      · rw [hmac, hn] at hn'
        cases hn'
        rw [hr, hr']
        rfl
  · rw [if_neg hd, if_neg (mt hdis.mp hd)]

/-! ## Complete options -/

theorem drop_readBytes (m : Mem) (a n k : Nat) :
    (readBytes m a n).drop k = readBytes m (a + k) (n - k) := by
  by_cases h : k ≤ n
  · obtain ⟨j, rfl⟩ := Nat.exists_eq_add_of_le h
    rw [readBytes_add, List.drop_append_of_le_length (by simp), List.drop_of_length_le (by simp),
      Nat.add_sub_cancel_left, List.nil_append]
  · rw [List.drop_of_length_le (by simp; omega), Nat.sub_eq_zero_of_le (by omega)]
    rfl

/-- The reads of one pass stay below `off + rem` exactly when the option is complete as far
as the server wants it. -/
theorem passReads_lt_iff : (∀ i ∈ passReads msg off, i < off + rem + 2) ↔
    (msg off = bootpOptionDhcpMessage → msg (off + 1) = 1 → 1 ≤ rem) ∧
    (msg off = bootpOptionRequestedIp → msg (off + 1) = 4 → 4 ≤ rem) := by
  simp only [mem_passReads]
  constructor
  · intro h
    refine ⟨fun ht hl => ?_, fun ht hl => ?_⟩
    · have := h (off + 2) (.inr (.inr (.inl ⟨⟨ht, hl⟩, rfl⟩)))
      omega
    · have := h (off + 5) (.inr (.inr (.inr ⟨⟨ht, hl⟩, by omega, by omega⟩)))
      omega
  · intro ⟨h1, h2⟩ i hi
    rcases hi with rfl | rfl | ⟨⟨ht, hl⟩, rfl⟩ | ⟨⟨ht, hl⟩, _, hlt⟩
    · omega
    · omega
    · have := h1 ht hl
      omega
    · have := h2 ht hl
      omega

/-- The loop stays within the received bytes exactly when they hold complete options. -/
theorem optionReads_lt_iff : (∀ i ∈ optionReads msg off rem, i < off + rem) ↔
    OptionsComplete (readBytes msg off rem) := by
  induction rem using Nat.strong_induction_on generalizing off with
  | _ rem ih =>
    cases rem with
    | zero =>
      rw [optionReads_zero, readBytes, List.range_zero, List.map_nil, OptionsComplete]
      simp
    | succ rem =>
      by_cases hend : msg off = bootpEndOption
      · -- the end option needs no length
        have hcomplete : OptionsComplete (readBytes msg off (rem + 1)) := by
          rw [readBytes_succ]
          cases rem with
          | zero => exact (by rw [OptionsComplete]; exact hend : OptionsComplete [msg off])
          | succ rem =>
            rw [readBytes_succ, OptionsComplete]
            exact .inl hend
        rw [optionReads_end (Nat.succ_ne_zero rem) hend]
        simp [hcomplete]
      rw [optionReads_cons (Nat.succ_ne_zero rem) hend]
      cases rem with
      | zero =>
        -- the length of the option is not there
        have hincomplete : ¬ OptionsComplete (readBytes msg off 1) := by
          rw [readBytes_succ, readBytes, List.range_zero, List.map_nil, OptionsComplete]
          exact hend
        refine iff_of_false (fun h => ?_) hincomplete
        have := h (off + 1) (List.mem_append_left _ (mem_passReads.mpr (.inr (.inl rfl))))
        omega
      | succ rem =>
        have hdrop : (readBytes msg (off + 1 + 1) rem).drop (msg (off + 1)).toNat =
            readBytes msg (off + consumed msg off) (rem + 1 + 1 - consumed msg off) := by
          rw [drop_readBytes]
          unfold consumed bootpOptionSize
          congr 1
          · omega
          · omega
        have hrest := @ih (rem + 1 + 1 - consumed msg off)
          (Nat.sub_lt (by omega) (consumed_pos msg off)) (off + consumed msg off)
        have htail : (∀ i ∈ optionReads msg (off + consumed msg off)
              (rem + 1 + 1 - consumed msg off), i < off + (rem + 1 + 1)) ↔
            OptionsComplete (readBytes msg (off + consumed msg off)
              (rem + 1 + 1 - consumed msg off)) := by
          rw [← hrest]
          by_cases hle : consumed msg off ≤ rem + 1 + 1
          · rw [Nat.add_assoc off, Nat.add_sub_cancel' hle]
          · rw [Nat.sub_eq_zero_of_le (Nat.le_of_not_le hle), optionReads_zero]
            simp
        rw [readBytes_succ, readBytes_succ, OptionsComplete, hdrop, ← htail, or_iff_right hend,
          ← and_assoc]
        simp only [List.mem_append, or_imp, forall_and]
        have hpass := @passReads_lt_iff msg off rem
        rw [Nat.add_assoc] at hpass
        rw [hpass]
        simp only [ne_eq, length_readBytes, ← List.length_eq_zero_iff]
        rw [Nat.one_le_iff_ne_zero]

theorem readsReceived_iff : ReadsReceived msg len ↔
    (HeaderOk msg len →
      OptionsComplete (readBytes msg bootpHeaderSize (len - bootpHeaderSize))) := by
  apply imp_congr_right
  intro hh
  have hlen : bootpHeaderSize ≤ len := Nat.le_trans (by decide) hh.1
  rw [← optionReads_lt_iff, Nat.add_sub_cancel' hlen]

/-- What has been read has been received: then the rest of the buffer does not matter. -/
theorem ReadsReceived.depends (h : ReadsReceived msg len) (s : DhcpServerData) :
    DependsOnReceived s msg len := by
  intro msg' hagree
  by_cases hh : HeaderOk msg len
  · have hlen : bootpHeaderSize ≤ len := Nat.le_trans (by decide) hh.1
    exact process_congr s hh (fun i hi => hagree i (Nat.lt_of_lt_of_le hi hlen))
      fun i hi => hagree i (h hh i hi)
  · have hh' : ¬ HeaderOk msg' len := by
      intro ⟨hlen, hop, htype, hhlen⟩
      have hlt : ∀ i < 3, i < len := fun i hi =>
        Nat.lt_of_lt_of_le hi (Nat.le_trans (by decide) hlen)
      rw [hagree 0 (hlt 0 (by decide))] at hop
      rw [hagree 1 (hlt 1 (by decide))] at htype
      rw [hagree 2 (hlt 2 (by decide))] at hhlen
      exact hh ⟨hlen, hop, htype, hhlen⟩
    rw [processDhcpMessage, processDhcpMessage, if_neg hh, if_neg hh']

/-- The server reads nothing of a message but what it has received, and decides on nothing
else, if and only if the message has no answered header or complete options. -/
theorem parsing_received_iff (s : DhcpServerData) (msg : Mem) (len : Nat) :
    (ReadsReceived msg len ∧ DependsOnReceived s msg len) ↔
      (HeaderOk msg len →
        OptionsComplete (readBytes msg bootpHeaderSize (len - bootpHeaderSize))) := by
  rw [← readsReceived_iff]
  exact ⟨And.left, fun h => ⟨h, h.depends s⟩⟩

theorem storeBytes_append {m : Mem} {bs cs : List Byte} {i : Nat} (h : i < bs.length) :
    storeBytes m (bs ++ cs) i = storeBytes m bs i := by
  have hle : i < (bs ++ cs).length := by
    rw [List.length_append]
    exact Nat.lt_add_right _ h
  rw [storeBytes_of_lt h, storeBytes_of_lt hle, List.getElem_append_left h]

/-- The bytes in front of the end of the options do not depend on it. -/
theorem bootpMessage_append (mac : Mac) (options rest : List Byte) (before : Mem) {i : Nat}
    (h : i < 234 + mac.length + options.length) :
    bootpMessage mac (options ++ rest) before i = bootpMessage mac options before i := by
  unfold bootpMessage
  rw [← List.append_assoc]
  apply storeBytes_append
  simp only [List.length_append, List.length_replicate, List.length_cons, List.length_nil]
  omega

/-- The message type of a datagram that breaks off after its length is read from the message
received before: the 243 bytes end with an option of length 0 and the type of a message
option, and whether the client is offered an address depends on the next two bytes. -/
theorem stale_message_type :
    ¬ ∀ (s : DhcpServerData) (msg : Mem) (len : Nat), DependsOnReceived s msg len := by
  intro h
  have hagree : ∀ i < 243, bootpMessage [2, 0, 0, 0, 0, 1] [12, 0, 53, 1, 1, 255] (fun _ => 0) i =
      bootpMessage [2, 0, 0, 0, 0, 1] [12, 0, 53] (fun _ => 0) i := fun i hi =>
    bootpMessage_append [2, 0, 0, 0, 0, 1] [12, 0, 53] [1, 1, 255] (fun _ => 0) hi
  have heq := h (dhcpServerInit 0x01b0a8c0 0x00ffffff 0x01b0a8c0 3600 false)
    (bootpMessage [2, 0, 0, 0, 0, 1] [12, 0, 53] fun _ => 0) 243 _ hagree
  have hoffer : ((processDhcpMessage (dhcpServerInit 0x01b0a8c0 0x00ffffff 0x01b0a8c0 3600 false)
      (bootpMessage [2, 0, 0, 0, 0, 1] [12, 0, 53, 1, 1, 255] fun _ => 0) 243).map
      Outcome.decision).any (fun d => d.2.1.isSome) = true := by decide +kernel
  have hnone : ((processDhcpMessage (dhcpServerInit 0x01b0a8c0 0x00ffffff 0x01b0a8c0 3600 false)
      (bootpMessage [2, 0, 0, 0, 0, 1] [12, 0, 53] fun _ => 0) 243).map
      Outcome.decision).any (fun d => d.2.1.isSome) = false := by decide +kernel
  rw [heq, hnone] at hoffer
  cases hoffer

end TuyaSdk.DhcpServer
