import TuyaSdk.DhcpServer.Cache

/-!
# The options of a DHCP message

The option loop of `process_dhcp_message` against the list of the options it passes over.
What an option asks for is `IsMessage` and `givenBy`; the loop comes to the judgement of
all given addresses in order (`judgeAll`), and answers a request by the last verdict
(`run_optionPass`).
-/

namespace TuyaSdk.DhcpServer
open TuyaSdk.Lib

/-- The bytes that the option at `off` takes up. -/
def consumed (msg : Mem) (off : Nat) : Nat := bootpOptionSize + (msg (off + 1)).toNat

theorem consumed_pos (msg : Mem) (off : Nat) : 0 < consumed msg off :=
  Nat.lt_of_lt_of_le (by decide) (Nat.le_add_right bootpOptionSize _)

/-- The offsets of the options from `off` on, with `rem` bytes of the message left: up to
an end option, or until the lengths have used up the bytes. -/
def optionsAt (msg : Mem) (off rem : Nat) : List Nat :=
  if rem = 0 ∨ msg off = bootpEndOption then []
  else off :: optionsAt msg (off + consumed msg off) (rem - consumed msg off)
termination_by rem
decreasing_by
  rename_i h
  have hpos := consumed_pos msg off
  omega

theorem optionsAt_nil {msg : Mem} {off rem : Nat} (h : rem = 0 ∨ msg off = bootpEndOption) :
    optionsAt msg off rem = [] := by
  rw [optionsAt, if_pos h]

theorem optionsAt_cons {msg : Mem} {off rem : Nat} (h : ¬ (rem = 0 ∨ msg off = bootpEndOption)) :
    optionsAt msg off rem =
      off :: optionsAt msg (off + consumed msg off) (rem - consumed msg off) := by
  rw [optionsAt, if_neg h]

/-- The options of a message of `len` bytes. -/
def messageOptions (msg : Mem) (len : Nat) : List Nat :=
  optionsAt msg bootpHeaderSize (len - bootpHeaderSize)

/-- The option at `off` says that the message is of the type `type`. -/
def IsMessage (type : Byte) (msg : Mem) (off : Nat) : Prop :=
  (msg off = bootpOptionDhcpMessage ∧ msg (off + 1) = 1) ∧ msg (off + 2) = type

instance (type : Byte) (msg : Mem) (off : Nat) : Decidable (IsMessage type msg off) :=
  inferInstanceAs (Decidable (_ ∧ _))

/-- One of the options says that the message is of the type `type`. -/
def HasMessage (type : Byte) (msg : Mem) (offs : List Nat) : Prop :=
  ∃ o ∈ offs, IsMessage type msg o

instance (type : Byte) (msg : Mem) (offs : List Nat) : Decidable (HasMessage type msg offs) :=
  inferInstanceAs (Decidable (∃ o ∈ offs, _))

theorem not_hasMessage_nil (type : Byte) (msg : Mem) : ¬ HasMessage type msg [] := by
  intro ⟨o, ho, _⟩
  exact List.not_mem_nil ho

theorem hasMessage_cons {type : Byte} {msg : Mem} {o : Nat} {offs : List Nat} :
    HasMessage type msg (o :: offs) ↔ IsMessage type msg o ∨ HasMessage type msg offs := by
  simp only [HasMessage, List.mem_cons, exists_eq_or_imp]

/-- The option at `off` holds a requested address. -/
def IsRequestedIp (msg : Mem) (off : Nat) : Prop :=
  msg off = bootpOptionRequestedIp ∧ msg (off + 1) = 4

instance (msg : Mem) (off : Nat) : Decidable (IsRequestedIp msg off) :=
  inferInstanceAs (Decidable (_ ∧ _))

/-- The address that comes with the option at `off`: that of the header with a request, or
the requested one. -/
def givenBy (msg : Mem) (off : Nat) : List Ip :=
  if IsRequestedIp msg off then [readIp msg (off + 2)]
  else if IsMessage dhcpMessageRequest msg off ∧ ciaddr msg ≠ 0 then [ciaddr msg]
  else []

/-- The addresses given by the options in order. -/
def givenIps (msg : Mem) (offs : List Nat) : List Ip := offs.flatMap (givenBy msg)

/-- The addresses that a message gives. -/
def requestedIps (msg : Mem) (len : Nat) : List Ip := givenIps msg (messageOptions msg len)

/-- The server asked for the address `ip`. -/
def DhcpServerData.withClientIp (s : DhcpServerData) (ip : Ip) : DhcpServerData :=
  { s with clientIp := ip }

/-- The judgement of one address after another. -/
def judgeAll (mac : Mac) (r : DhcpServerData × Bool) (ips : List Ip) : DhcpServerData × Bool :=
  ips.foldl (fun r ip => judge mac (r.1.withClientIp ip) r.2) r

/-- The answer to a request. -/
def verdict (gotIp : Bool) : Byte := if gotIp then dhcpMessageAck else dhcpMessageNak

@[simp] theorem judgeAll_nil (mac : Mac) (r : DhcpServerData × Bool) : judgeAll mac r [] = r :=
  rfl

theorem judgeAll_append (mac : Mac) (r : DhcpServerData × Bool) (l l' : List Ip) :
    judgeAll mac r (l ++ l') = judgeAll mac (judgeAll mac r l) l' := List.foldl_append

/-! ## One option -/

variable {mac : Mac} {s : DhcpServerData} {g : Bool}

theorem judge_outside (h : ¬ InSubnet s s.clientIp) : judge mac s g = (s, g) := if_neg h

theorem judge_registered (h : InSubnet s s.clientIp)
    (hl : acLookupMac s mac ≠ clientIpNotFound) :
    judge mac s g = (s, decide (acLookupMac s mac = s.clientIp)) :=
  (if_pos h).trans (if_pos hl)

theorem judge_unfit (hl : acLookupMac s mac = clientIpNotFound) (h : ¬ Fits s s.clientIp) :
    judge mac s g = (s, g) := by
  by_cases hsub : InSubnet s s.clientIp
  · have hv : ¬ acValidIp s (ntohl s.clientIp) = true := fun hv => h ⟨hsub, hv⟩
    exact (if_pos hsub).trans ((if_neg (not_not_intro hl)).trans (if_neg hv))
  · exact judge_outside hsub

theorem judge_fits (hl : acLookupMac s mac = clientIpNotFound) (h : Fits s s.clientIp) :
    judge mac s g = (if acNotFull s then (acAdd s mac s.clientIp).1 else s, true) :=
  (if_pos h.1).trans ((if_neg (not_not_intro hl)).trans (if_pos h.2))

/-- To judge an address a second time changes nothing. -/
theorem judge_idem (mac : Mac) (s : DhcpServerData) (g : Bool) :
    judge mac (judge mac s g).1 (judge mac s g).2 = judge mac s g := by
  by_cases hl : acLookupMac s mac = clientIpNotFound
  swap
  · by_cases hsub : InSubnet s s.clientIp
    · rw [judge_registered hsub hl, judge_registered hsub hl]
    · rw [judge_outside hsub, judge_outside hsub]
  by_cases hfit : Fits s s.clientIp
  swap
  · rw [judge_unfit hl hfit, judge_unfit hl hfit]
  rw [judge_fits hl hfit]
  cases hfull : acNotFull s with
  | false => exact judge_fits hl hfit |>.trans (by rw [hfull])
  | true =>
    -- the address is leased now, and the client is found with it, or not at all
    have hnet := acAdd_sameNet s mac s.clientIp
    have hip := acAdd_clientIp s mac s.clientIp
    have hleases := acAdd_leases hfull mac s.clientIp
    rw [if_pos rfl]
    generalize (acAdd s mac s.clientIp).1 = s' at hnet hip hleases ⊢
    have hsub : InSubnet s' s'.clientIp := by
      rw [hnet.inSubnet, hip]
      exact hfit.1
    have hunfit : ¬ Fits s' s'.clientIp := by
      rw [fits_iff]
      intro ⟨_, hun⟩
      exact hun ⟨mac, s.clientIp⟩ (by simp [hleases]) hip.symm
    by_cases hl' : acLookupMac s' mac = clientIpNotFound
    · exact judge_unfit hl' hunfit
    · have hfound : acLookupMac s' mac = s'.clientIp := by
        cases hf : s.leases.find? (fun e => decide (e.clientMac = mac)) with
        | none =>
          rw [acLookupMac, hleases, List.find?_append, hf, hip]
          simp
        | some e =>
          have heq : acLookupMac s' mac = acLookupMac s mac := by
            rw [acLookupMac, acLookupMac, hleases, List.find?_append, hf]
            rfl
          exact absurd (heq.trans hl) hl'
      rw [judge_registered hsub hl', decide_eq_true hfound]

/-- What the loop has come to after an option: the address is judged, and a request is
answered by the verdict. -/
structure Settled (mac : Mac) (v : ParseVars) : Prop where
  judged : v.gotClientIp = true → judge mac v.server v.gotIp = (v.server, v.gotIp)
  decided : v.needIp = true → v.responseType = verdict v.gotIp

theorem givenBy_requestedIp {msg : Mem} {off : Nat} (h : IsRequestedIp msg off) :
    givenBy msg off = [readIp msg (off + 2)] := if_pos h

theorem givenBy_ciaddr {msg : Mem} {off : Nat} (hn : ¬ IsRequestedIp msg off)
    (h : IsMessage dhcpMessageRequest msg off) (hc : ciaddr msg ≠ 0) :
    givenBy msg off = [ciaddr msg] := (if_neg hn).trans (if_pos ⟨h, hc⟩)

theorem givenBy_nil {msg : Mem} {off : Nat} (hn : ¬ IsRequestedIp msg off)
    (h : ¬ (IsMessage dhcpMessageRequest msg off ∧ ciaddr msg ≠ 0)) :
    givenBy msg off = [] := (if_neg hn).trans (if_neg h)

/-- The variables after the two branches on the type of the option. -/
theorem takeBranches_spec (msg : Mem) (v : ParseVars) :
    ∃ v', v' = takeRequestedIp msg (takeMessageType msg v) ∧
      v'.opt = v.opt ∧ v'.len = v.len ∧ v'.gotIp = v.gotIp ∧
      v'.needIp = (v.needIp || decide (IsMessage dhcpMessageRequest msg v.opt)) ∧
      v'.responseType = (if IsMessage dhcpMessageDiscover msg v.opt then dhcpMessageOffer
        else v.responseType) ∧
      ((givenBy msg v.opt = [] ∧ v'.server = v.server ∧ v'.gotClientIp = v.gotClientIp) ∨
        ∃ ip, givenBy msg v.opt = [ip] ∧ v'.server = v.server.withClientIp ip ∧
          v'.gotClientIp = true) := by
  refine ⟨_, rfl, ?_⟩
  by_cases hm : msg v.opt = bootpOptionDhcpMessage ∧ msg (v.opt + 1) = 1
  · have hn : ¬ IsRequestedIp msg v.opt := by
      intro ⟨h, _⟩
      rw [hm.1] at h
      exact absurd h (by decide)
    have hr : ∀ w : ParseVars, w.opt = v.opt → takeRequestedIp msg w = w := by
      intro w hw
      apply if_neg
      rw [hw]
      exact hn
    by_cases hd : msg (v.opt + 2) = dhcpMessageDiscover
    · have hQ : ¬ IsMessage dhcpMessageRequest msg v.opt := by
        intro ⟨_, h⟩
        rw [hd] at h
        exact absurd h (by decide)
      have hD : IsMessage dhcpMessageDiscover msg v.opt := ⟨hm, hd⟩
      have ht : takeMessageType msg v = { v with responseType := dhcpMessageOffer } := by
        rw [takeMessageType, if_pos hm, if_pos hd]
      rw [ht, hr { v with responseType := dhcpMessageOffer } rfl, if_pos hD,
        decide_eq_false hQ, Bool.or_false]
      exact ⟨rfl, rfl, rfl, rfl, rfl, .inl ⟨givenBy_nil hn fun h => hQ h.1, rfl, rfl⟩⟩
    have hD : ¬ IsMessage dhcpMessageDiscover msg v.opt := fun h => hd h.2
    rw [if_neg hD]
    by_cases hq : msg (v.opt + 2) = dhcpMessageRequest
    · have hQ : IsMessage dhcpMessageRequest msg v.opt := ⟨hm, hq⟩
      have ht : takeMessageType msg v = if ciaddr msg ≠ 0 then
          ({ v with needIp := true } : ParseVars).giveClientIp (ciaddr msg)
          else { v with needIp := true } := by
        rw [takeMessageType, if_pos hm, if_neg hd, if_pos hq]
      rw [ht, decide_eq_true hQ, Bool.or_true]
      by_cases hc : ciaddr msg ≠ 0
      · rw [if_pos hc,
          hr (({ v with needIp := true } : ParseVars).giveClientIp (ciaddr msg)) rfl]
        exact ⟨rfl, rfl, rfl, rfl, rfl, .inr ⟨_, givenBy_ciaddr hn hQ hc, rfl, rfl⟩⟩
      · rw [if_neg hc, hr { v with needIp := true } rfl]
        exact ⟨rfl, rfl, rfl, rfl, rfl, .inl ⟨givenBy_nil hn fun h => hc h.2, rfl, rfl⟩⟩
    · have hQ : ¬ IsMessage dhcpMessageRequest msg v.opt := fun h => hq h.2
      have ht : takeMessageType msg v = v := by
        rw [takeMessageType, if_pos hm, if_neg hd, if_neg hq]
      rw [ht, hr v rfl, decide_eq_false hQ, Bool.or_false]
      exact ⟨rfl, rfl, rfl, rfl, rfl, .inl ⟨givenBy_nil hn fun h => hQ h.1, rfl, rfl⟩⟩
  · have ht : takeMessageType msg v = v := if_neg hm
    have hD : ¬ IsMessage dhcpMessageDiscover msg v.opt := fun h => hm h.1
    have hQ : ¬ IsMessage dhcpMessageRequest msg v.opt := fun h => hm h.1
    rw [ht, if_neg hD, decide_eq_false hQ, Bool.or_false]
    by_cases hi : IsRequestedIp msg v.opt
    · have hr : takeRequestedIp msg v = v.giveClientIp (readIp msg (v.opt + 2)) := if_pos hi
      rw [hr]
      exact ⟨rfl, rfl, rfl, rfl, rfl, .inr ⟨_, givenBy_requestedIp hi, rfl, rfl⟩⟩
    · have hr : takeRequestedIp msg v = v := if_neg hi
      rw [hr]
      exact ⟨rfl, rfl, rfl, rfl, rfl, .inl ⟨givenBy_nil hi fun h => hQ h.1, rfl, rfl⟩⟩

/-- One pass over an option. -/
def takeOption (msg : Mem) (v : ParseVars) : ParseVars :=
  nextOption msg (judgeClientIp msg (takeRequestedIp msg (takeMessageType msg v)))

/-- What one option does. -/
theorem takeOption_spec {msg : Mem} {v : ParseVars} (h : Settled (chaddr msg) v) :
    ∃ v', v' = takeOption msg v ∧ Settled (chaddr msg) v' ∧
      v'.opt = v.opt + consumed msg v.opt ∧ v'.len = v.len - consumed msg v.opt ∧
      (v'.server, v'.gotIp) = judgeAll (chaddr msg) (v.server, v.gotIp) (givenBy msg v.opt) ∧
      v'.needIp = (v.needIp || decide (IsMessage dhcpMessageRequest msg v.opt)) ∧
      v'.responseType = (if v'.needIp then verdict v'.gotIp
        else if IsMessage dhcpMessageDiscover msg v.opt then dhcpMessageOffer
        else v.responseType) := by
  obtain ⟨w, hw, hopt, hlen, hgot, hneed, htype, hgiven⟩ := takeBranches_spec msg v
  refine ⟨_, rfl, ?_⟩
  rw [takeOption, ← hw]
  -- the judgement settles the address, whether it is new or not
  obtain ⟨u, hu, huopt, hulen, huneed, hutype, hujudged, husettled⟩ :
      ∃ u, u = judgeClientIp msg w ∧ u.opt = w.opt ∧ u.len = w.len ∧ u.needIp = w.needIp ∧
        u.responseType = w.responseType ∧
        (u.server, u.gotIp) = judgeAll (chaddr msg) (v.server, v.gotIp) (givenBy msg v.opt) ∧
        (u.gotClientIp = true →
          judge (chaddr msg) u.server u.gotIp = (u.server, u.gotIp)) := by
    refine ⟨_, rfl, ?_⟩
    rcases hgiven with ⟨hg, hserver, hclient⟩ | ⟨ip, hg, hserver, hclient⟩
    · by_cases hc : v.gotClientIp = true
      · have hj : judge (chaddr msg) w.server w.gotIp = (w.server, w.gotIp) := by
          rw [hserver, hgot]
          exact h.judged hc
        have hid : judgeClientIp msg w = w := by
          rw [judgeClientIp, if_pos (hclient.trans hc), hj]
        rw [hid, hg, judgeAll_nil, hserver, hgot]
        exact ⟨rfl, rfl, rfl, rfl, rfl, fun _ => h.judged hc⟩
      · have hid : judgeClientIp msg w = w := if_neg (by rwa [hclient])
        rw [hid, hg, judgeAll_nil, hserver, hgot, hclient]
        exact ⟨rfl, rfl, rfl, rfl, rfl, fun hc' => absurd hc' hc⟩
    · rw [judgeClientIp, if_pos hclient, hg, hserver, hgot]
      exact ⟨rfl, rfl, rfl, rfl, rfl, fun _ => judge_idem _ _ _⟩
  rw [← hu]
  refine ⟨⟨husettled, ?_⟩, ?_, ?_, hujudged, ?_, ?_⟩
  · intro hn
    exact if_pos hn
  · simp only [nextOption, consumed, huopt, hopt]
  · simp only [nextOption, consumed, huopt, hopt, hulen, hlen]
  · exact huneed.trans hneed
  · simp only [nextOption, verdict, hutype, htype]

/-! ## All options -/

/-- What the options do from a settled state. -/
theorem run_optionPass {msg : Mem} {rem fuel : Nat} {v : ParseVars}
    (h : Settled (chaddr msg) v) (hrem : v.len.toNat = rem) (hfuel : rem < fuel) :
    ∃ v', Loop.run (optionPass msg) fuel v = some v' ∧
      (v'.server, v'.gotIp) =
        judgeAll (chaddr msg) (v.server, v.gotIp) (givenIps msg (optionsAt msg v.opt rem)) ∧
      (v'.needIp = true ↔
        v.needIp = true ∨ HasMessage dhcpMessageRequest msg (optionsAt msg v.opt rem)) ∧
      v'.responseType = (if v'.needIp then verdict v'.gotIp
        else if HasMessage dhcpMessageDiscover msg (optionsAt msg v.opt rem) then
          dhcpMessageOffer
        else v.responseType) := by
  induction rem using Nat.strong_induction_on generalizing fuel v with
  | _ rem ih =>
    obtain ⟨fuel, rfl⟩ : ∃ k, fuel = k + 1 := ⟨fuel - 1, by omega⟩
    by_cases hend : rem = 0 ∨ msg v.opt = bootpEndOption
    · have hexit : optionPass msg v = .exit v := by
        rw [optionPass, if_neg]
        intro ⟨hpos, hne⟩
        rcases hend with hend | hend
        · omega
        · exact hne hend
      rw [Loop.run_exit hexit, optionsAt_nil hend,
        if_neg (not_hasMessage_nil dhcpMessageDiscover msg)]
      refine ⟨v, rfl, rfl, ?_, ?_⟩
      · exact ⟨Or.inl, fun hn => hn.resolve_right (not_hasMessage_nil _ msg)⟩
      · split
        next hn => exact h.decided hn
        next => rfl
    · obtain ⟨hpos, hne⟩ := not_or.mp hend
      have hagain : optionPass msg v = .again (takeOption msg v) := if_pos ⟨by omega, hne⟩
      obtain ⟨w, hw, hws, hwopt, hwlen, hwjudge, hwneed, hwtype⟩ := takeOption_spec h
      have hcons := consumed_pos msg v.opt
      rw [Loop.run_again hagain, ← hw]
      have hlt : rem - consumed msg v.opt < fuel := by omega
      obtain ⟨v', hrun, hjudge, hneed, htype⟩ :=
        ih (rem - consumed msg v.opt) (by omega) hws (by omega) hlt
      rw [optionsAt_cons hend, ← hwopt]
      refine ⟨v', hrun, ?_, ?_, ?_⟩
      · rw [hjudge, hwjudge, givenIps, givenIps, List.flatMap_cons, judgeAll_append]
      · rw [hneed, hwneed, hasMessage_cons, Bool.or_eq_true, decide_eq_true_eq, or_assoc]
      · rw [htype]
        split
        next => rfl
        next hn =>
          have hwn : ¬ w.needIp = true := fun hw => hn (hneed.mpr (.inl hw))
          rw [hwtype, if_neg hwn]
          simp only [hasMessage_cons]
          by_cases hd : IsMessage dhcpMessageDiscover msg v.opt
          · rw [if_pos hd, ite_self, if_pos (Or.inl hd)]
          · rw [if_neg hd]
            simp only [hd, false_or]

end TuyaSdk.DhcpServer
