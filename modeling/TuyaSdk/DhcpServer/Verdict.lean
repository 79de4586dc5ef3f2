import TuyaSdk.DhcpServer.Options

/-!
# What the server does with a message

The four outcomes of `process_dhcp_message` (`process_cases`): the message is dropped, it
asks for nothing, it is a request that is acknowledged or refused by the judgement of its
addresses, or it is a discovery that is offered the next address. `Accepted` says on the
addresses and the cache when a request is acknowledged. No message breaks the invariant of
the cache (`process_cacheOk`), which therefore holds in every state the server reaches.
-/

namespace TuyaSdk.DhcpServer
open TuyaSdk.Lib

variable {s s' : DhcpServerData} {mac : Mac} {a ip : Ip}

/-! ## Judging addresses in order -/

/-- A request that gives the addresses `ips` is acknowledged: a client with a lease when
the last of them in the subnet is its lease, a new client when there is a free one, and
when that one has been leased to it, none in the subnet follows but itself. -/
def Accepted (s : DhcpServerData) (mac : Mac) (ips : List Ip) : Prop :=
  if acLookupMac s mac ≠ clientIpNotFound then
    (ips.filter fun a => InSubnet s a).getLast? = some (acLookupMac s mac)
  else if acNotFull s then
    ∃ a, ips.find? (fun a => Fits s a) = some a ∧
      (ips.filter fun a => InSubnet s a).getLast? = some a
  else ∃ a ∈ ips, Fits s a

/-- The lease that the judgement of the addresses `ips` adds: the first free one, for a new
client while there is room. -/
def newLease (s : DhcpServerData) (mac : Mac) (ips : List Ip) : List ClientMacCache :=
  if acLookupMac s mac = clientIpNotFound ∧ acNotFull s = true then
    ((ips.find? fun a => Fits s a).map fun a => ⟨mac, a⟩).toList
  else []

section Cases

variable {ips : List Ip}

theorem accepted_registered (hl : acLookupMac s mac ≠ clientIpNotFound) : Accepted s mac ips ↔
    (ips.filter fun a => InSubnet s a).getLast? = some (acLookupMac s mac) := by
  rw [Accepted, if_pos hl]

theorem accepted_room (hl : acLookupMac s mac = clientIpNotFound) (hr : acNotFull s = true) :
    Accepted s mac ips ↔ ∃ a, ips.find? (fun a => Fits s a) = some a ∧
      (ips.filter fun a => InSubnet s a).getLast? = some a := by
  rw [Accepted, if_neg (not_not_intro hl), if_pos hr]

theorem accepted_full (hl : acLookupMac s mac = clientIpNotFound) (hr : ¬ acNotFull s = true) :
    Accepted s mac ips ↔ ∃ a ∈ ips, Fits s a := by
  rw [Accepted, if_neg (not_not_intro hl), if_neg hr]

theorem newLease_registered (hl : acLookupMac s mac ≠ clientIpNotFound) :
    newLease s mac ips = [] := if_neg fun h => hl h.1

theorem newLease_full (hr : ¬ acNotFull s = true) : newLease s mac ips = [] :=
  if_neg fun h => hr h.2

theorem newLease_room (hl : acLookupMac s mac = clientIpNotFound) (hr : acNotFull s = true) :
    newLease s mac ips = ((ips.find? fun a => Fits s a).map fun a => ⟨mac, a⟩).toList :=
  if_pos ⟨hl, hr⟩

end Cases

theorem fits_congr (hn : SameNet s s') (hl : s'.leases = s.leases) : Fits s' a ↔ Fits s a := by
  rw [fits_iff, fits_iff, hn.assignable, Unleased.congr hl]

theorem acNotFull_congr (hl : s'.leases = s.leases) : acNotFull s' = acNotFull s := by
  rw [acNotFull, acNotFull, hl]

/-- A verdict leaves the server as it is, or leases a free address to a new client. -/
theorem judge_server (mac : Mac) (s : DhcpServerData) (g : Bool) :
    (judge mac s g).1 = s ∨ (acLookupMac s mac = clientIpNotFound ∧ Fits s s.clientIp ∧
      (judge mac s g).1 = (acAdd s mac s.clientIp).1) := by
  by_cases hl : acLookupMac s mac = clientIpNotFound
  · by_cases hfit : Fits s s.clientIp
    · rw [judge_fits hl hfit]
      split
      · exact .inr ⟨hl, hfit, rfl⟩
      · exact .inl rfl
    · rw [judge_unfit hl hfit]
      exact .inl rfl
  · by_cases hsub : InSubnet s s.clientIp
    · rw [judge_registered hsub hl]
      exact .inl rfl
    · rw [judge_outside hsub]
      exact .inl rfl

/-- The last address judged is the one the server goes on with. -/
theorem judge_clientIp (mac : Mac) (s : DhcpServerData) (g : Bool) :
    (judge mac s g).1.clientIp = s.clientIp := by
  rcases judge_server mac s g with hs | ⟨_, _, hs⟩
  · rw [hs]
  · rw [hs, acAdd_clientIp]

theorem judgeAll_concat (mac : Mac) (r : DhcpServerData × Bool) (ips : List Ip) (a : Ip) :
    judgeAll mac r (ips ++ [a]) =
      judge mac ((judgeAll mac r ips).1.withClientIp a) (judgeAll mac r ips).2 := by
  rw [judgeAll_append]
  rfl

theorem judgeAll_clientIp (mac : Mac) (r : DhcpServerData × Bool) (ips : List Ip) :
    (judgeAll mac r ips).1.clientIp = ips.getLast?.getD r.1.clientIp := by
  induction ips using List.reverseRecOn with
  | nil => rfl
  | append_singleton ips a _ =>
    rw [judgeAll_concat, judge_clientIp, List.getLast?_concat]
    rfl

theorem getLast?_filter_concat (p : Ip → Prop) [DecidablePred p] (ips : List Ip) (a : Ip) :
    ((ips ++ [a]).filter fun a => p a).getLast? =
      if p a then some a else (ips.filter fun a => p a).getLast? := by
  rw [List.filter_append]
  by_cases h : p a
  · simp [h]
  · simp [h]

theorem find?_concat (p : Ip → Prop) [DecidablePred p] (ips : List Ip) (a : Ip) :
    (ips ++ [a]).find? (fun a => p a) =
      (ips.find? fun a => p a).or (if p a then some a else none) := by
  rw [List.find?_append]
  congr 1
  by_cases h : p a
  · simp [h]
  · simp [h]

/-- What the judgement of the addresses `ips` comes to: the lease that is added, and the
verdict. -/
structure Judged (s : DhcpServerData) (mac : Mac) (ips : List Ip) (r : DhcpServerData × Bool) :
    Prop where
  sameNet : SameNet s r.1
  leases : r.1.leases = s.leases ++ newLease s mac ips
  gotIp : r.2 = true ↔ Accepted s mac ips

/-- A client with a lease: the cache stays, the last address in the subnet decides. -/
theorem Judged.concat_registered {ips : List Ip} {r : DhcpServerData × Bool}
    (h : Judged s mac ips r) (hl : acLookupMac s mac ≠ clientIpNotFound) (a : Ip) :
    Judged s mac (ips ++ [a]) (judge mac (r.1.withClientIp a) r.2) := by
  obtain ⟨hnet, hleases, hgot⟩ := h
  have hnet' : SameNet s (r.1.withClientIp a) := ⟨hnet.netmask, hnet.myIp⟩
  rw [newLease_registered hl, List.append_nil] at hleases
  rw [accepted_registered hl] at hgot
  have hlook : acLookupMac (r.1.withClientIp a) mac = acLookupMac s mac :=
    acLookupMac_congr hleases mac
  by_cases hsub : InSubnet s a
  · rw [judge_registered (hnet'.inSubnet.mpr hsub) (hlook ▸ hl)]
    refine ⟨hnet', ?_, ?_⟩
    · rw [newLease_registered hl, List.append_nil]
      exact hleases
    · rw [accepted_registered hl, getLast?_filter_concat, if_pos hsub, decide_eq_true_eq, hlook,
        Option.some.injEq]
      exact eq_comm
  · rw [judge_outside fun h => hsub (hnet'.inSubnet.mp h)]
    refine ⟨hnet', ?_, ?_⟩
    · rw [newLease_registered hl, List.append_nil]
      exact hleases
    · rw [accepted_registered hl, getLast?_filter_concat, if_neg hsub]
      exact hgot

/-- A new client and no room: the cache stays, one free address is enough. -/
theorem Judged.concat_full {ips : List Ip} {r : DhcpServerData × Bool}
    (h : Judged s mac ips r) (hl : acLookupMac s mac = clientIpNotFound)
    (hr : ¬ acNotFull s = true) (a : Ip) :
    Judged s mac (ips ++ [a]) (judge mac (r.1.withClientIp a) r.2) := by
  obtain ⟨hnet, hleases, hgot⟩ := h
  have hnet' : SameNet s (r.1.withClientIp a) := ⟨hnet.netmask, hnet.myIp⟩
  rw [newLease_full hr, List.append_nil] at hleases
  have hleases' : (r.1.withClientIp a).leases = s.leases := hleases
  rw [accepted_full hl hr] at hgot
  have hlook : acLookupMac (r.1.withClientIp a) mac = clientIpNotFound :=
    (acLookupMac_congr hleases' mac).trans hl
  have hfull : ¬ acNotFull (r.1.withClientIp a) = true := by
    rw [acNotFull_congr hleases']
    exact hr
  by_cases hfit : Fits s a
  · rw [judge_fits hlook ((fits_congr hnet' hleases').mpr hfit), if_neg hfull]
    refine ⟨hnet', ?_, ?_⟩
    · rw [newLease_full hr, List.append_nil]
      exact hleases
    · rw [accepted_full hl hr]
      exact ⟨fun _ => ⟨a, by simp, hfit⟩, fun _ => rfl⟩
  · rw [judge_unfit hlook fun h => hfit ((fits_congr hnet' hleases').mp h)]
    refine ⟨hnet', ?_, ?_⟩
    · rw [newLease_full hr, List.append_nil]
      exact hleases
    · rw [accepted_full hl hr, hgot]
      constructor
      · intro ⟨b, hb, hfb⟩
        exact ⟨b, List.mem_append_left _ hb, hfb⟩
      · intro ⟨b, hb, hfb⟩
        rcases List.mem_append.mp hb with hb | hb
        · exact ⟨b, hb, hfb⟩
        · rw [List.mem_singleton.mp hb] at hfb
          exact absurd hfb hfit

/-- A new client while there is room: the first free address becomes its lease, and from
then on the last address in the subnet decides. -/
theorem Judged.concat_room {ips : List Ip} {r : DhcpServerData × Bool}
    (h : Judged s mac ips r) (hok : CacheOk s) (hl : acLookupMac s mac = clientIpNotFound)
    (hr : acNotFull s = true) (a : Ip) :
    Judged s mac (ips ++ [a]) (judge mac (r.1.withClientIp a) r.2) := by
  obtain ⟨hnet, hleases, hgot⟩ := h
  have hnet' : SameNet s (r.1.withClientIp a) := ⟨hnet.netmask, hnet.myIp⟩
  have hfind := find?_concat (Fits s) ips a
  rw [newLease_room hl hr] at hleases
  rw [accepted_room hl hr] at hgot
  cases hf : ips.find? (fun a => Fits s a) with
  | none =>
    rw [hf, Option.none_or] at hfind
    rw [hf, Option.map_none, Option.toList_none, List.append_nil] at hleases
    have hleases' : (r.1.withClientIp a).leases = s.leases := hleases
    have hlook : acLookupMac (r.1.withClientIp a) mac = clientIpNotFound :=
      (acLookupMac_congr hleases' mac).trans hl
    have hroom : acNotFull (r.1.withClientIp a) = true := (acNotFull_congr hleases').trans hr
    by_cases hfit : Fits s a
    · rw [if_pos hfit] at hfind
      rw [judge_fits hlook ((fits_congr hnet' hleases').mpr hfit), if_pos hroom]
      refine ⟨hnet'.trans (acAdd_sameNet _ _ _), ?_, ?_⟩
      · rw [acAdd_leases hroom, newLease_room hl hr, hfind, hleases']
        rfl
      · rw [accepted_room hl hr, hfind, getLast?_filter_concat, if_pos hfit.1]
        exact ⟨fun _ => ⟨a, rfl, rfl⟩, fun _ => rfl⟩
    · rw [if_neg hfit] at hfind
      rw [judge_unfit hlook fun h => hfit ((fits_congr hnet' hleases').mp h)]
      refine ⟨hnet', ?_, ?_⟩
      · rw [newLease_room hl hr, hfind, Option.map_none, Option.toList_none, List.append_nil]
        exact hleases
      · rw [accepted_room hl hr, hgot, hf, hfind]
        simp
  | some b =>
    rw [hf, Option.some_or] at hfind
    rw [hf] at hleases
    have hfitb : Fits s b := by simpa using List.find?_some hf
    have hlook : acLookupMac (r.1.withClientIp a) mac = b := by
      have hnone : s.leases.find? (fun e => decide (e.clientMac = mac)) = none := by
        rw [List.find?_eq_none]
        intro e he
        simpa using hok.no_lease hl e he
      have hleases' : (r.1.withClientIp a).leases = s.leases ++ [⟨mac, b⟩] := hleases
      rw [acLookupMac, hleases', List.find?_append, hnone]
      simp
    have hb : acLookupMac (r.1.withClientIp a) mac ≠ clientIpNotFound := by
      rw [hlook]
      exact (fits_iff.mp hfitb).1.ne_zero
    by_cases hsub : InSubnet s a
    · rw [judge_registered (hnet'.inSubnet.mpr hsub) hb]
      refine ⟨hnet', ?_, ?_⟩
      · rw [newLease_room hl hr, hfind]
        exact hleases
      · rw [accepted_room hl hr, hfind, getLast?_filter_concat, if_pos hsub, decide_eq_true_eq,
          hlook]
        constructor
        · intro h
          exact ⟨b, rfl, congrArg some h.symm⟩
        · rintro ⟨c, hc, hca⟩
          cases hc
          exact (Option.some.inj hca).symm
    · rw [judge_outside fun h => hsub (hnet'.inSubnet.mp h)]
      refine ⟨hnet', ?_, ?_⟩
      · rw [newLease_room hl hr, hfind]
        exact hleases
      · rw [accepted_room hl hr, hfind, getLast?_filter_concat, if_neg hsub, ← hf]
        exact hgot

theorem judgeAll_judged (h : CacheOk s) (mac : Mac) (ips : List Ip) :
    Judged s mac ips (judgeAll mac (s, false) ips) := by
  induction ips using List.reverseRecOn with
  | nil =>
    refine ⟨SameNet.refl s, ?_, ?_⟩
    · simp [newLease]
    · simp [Accepted]
  | append_singleton ips a ih =>
    rw [judgeAll_concat]
    by_cases hl : acLookupMac s mac = clientIpNotFound
    · by_cases hr : acNotFull s = true
      · exact ih.concat_room h hl hr a
      · exact ih.concat_full hl hr a
    · exact ih.concat_registered hl a

/-- The judgement keeps the invariant of the cache. -/
theorem judge_cacheOk (h : CacheOk s) (mac : Mac) (g : Bool) : CacheOk (judge mac s g).1 := by
  rcases judge_server mac s g with hs | ⟨hl, hfit, hs⟩
  · rw [hs]
    exact h
  · rw [hs]
    exact h.acAdd hl hfit

theorem judgeAll_cacheOk (h : CacheOk s) (mac : Mac) (g : Bool) (ips : List Ip) :
    CacheOk (judgeAll mac (s, g) ips).1 := by
  induction ips using List.reverseRecOn with
  | nil => exact h
  | append_singleton ips a ih =>
    rw [judgeAll_concat]
    apply judge_cacheOk
    exact ih.congr ⟨rfl, rfl⟩ rfl

/-! ## The reply -/

/-- The response of type `type` to a message. -/
def reply (s : DhcpServerData) (msg : Mem) (type : Byte) : Option Outcome :=
  (makeResponse s msg type).map fun (s, msg, yiaddr, n) =>
    ⟨0, s, some ⟨type, yiaddr, sendResponses msg yiaddr n⟩⟩

theorem reply_verdict (s : DhcpServerData) (msg : Mem) (g : Bool) :
    ∃ sent, reply s msg (verdict g) =
      some ⟨0, s, some ⟨verdict g, if g then s.clientIp else 0, sent⟩⟩ := by
  cases g
  · exact ⟨_, rfl⟩
  · exact ⟨_, rfl⟩

theorem reply_offer (s : DhcpServerData) (msg : Mem) :
    (nextYiaddr s (chaddr msg) = none ∧ reply s msg dhcpMessageOffer = none) ∨
    ∃ s' ip sent, nextYiaddr s (chaddr msg) = some (s', ip) ∧
      reply s msg dhcpMessageOffer = some ⟨0, s', some ⟨dhcpMessageOffer, ip, sent⟩⟩ := by
  cases h : nextYiaddr s (chaddr msg) with
  | none =>
    refine .inl ⟨rfl, ?_⟩
    rw [reply, makeResponse, if_pos rfl, h]
    rfl
  | some r =>
    obtain ⟨m, n, hm⟩ :
        ∃ m n, makeResponse s msg dhcpMessageOffer = some (r.1, m, r.2, n) := by
      rw [makeResponse, if_pos rfl, h]
      exact ⟨_, _, rfl⟩
    refine .inr ⟨r.1, r.2, sendResponses m r.2 n, rfl, ?_⟩
    rw [reply, hm]
    rfl

/-- The judgement of the addresses that a message gives. -/
def judgeMessage (s : DhcpServerData) (msg : Mem) (len : Nat) : DhcpServerData × Bool :=
  judgeAll (chaddr msg) (s, false) (requestedIps msg len)

/-- A message that is answered as a request. -/
def IsRequest (msg : Mem) (len : Nat) : Prop :=
  HasMessage dhcpMessageRequest msg (messageOptions msg len)

/-- A message that is answered as a discovery, when it is no request. -/
def IsDiscover (msg : Mem) (len : Nat) : Prop :=
  HasMessage dhcpMessageDiscover msg (messageOptions msg len)

instance (msg : Mem) (len : Nat) : Decidable (IsRequest msg len) :=
  inferInstanceAs (Decidable (HasMessage _ _ _))

instance (msg : Mem) (len : Nat) : Decidable (IsDiscover msg len) :=
  inferInstanceAs (Decidable (HasMessage _ _ _))

/-- `process_dhcp_message` after the option loop. -/
theorem processDhcpMessage_eq {msg : Mem} {len : Nat} (h : HeaderOk msg len) :
    processDhcpMessage s msg len =
      if IsRequest msg len then
        reply (judgeMessage s msg len).1 msg (verdict (judgeMessage s msg len).2)
      else if IsDiscover msg len then reply (judgeMessage s msg len).1 msg dhcpMessageOffer
      else some ⟨0, (judgeMessage s msg len).1, none⟩ := by
  have hlen : 240 ≤ len := Nat.le_trans (by decide) h.1
  have hsettled : Settled (chaddr msg) (startParse s len) :=
    ⟨fun h => (Bool.false_ne_true h).elim, fun h => (Bool.false_ne_true h).elim⟩
  have hrem : (startParse s len).len.toNat = len - bootpHeaderSize := by
    simp only [startParse]
    omega
  obtain ⟨v, hrun, hjudge, hneed, htype⟩ :=
    run_optionPass hsettled hrem (Nat.sub_lt (by omega) (by decide) : len - bootpHeaderSize < len)
  have hj : (v.server, v.gotIp) = judgeMessage s msg len := hjudge
  have hserver : v.server = (judgeMessage s msg len).1 := congrArg Prod.fst hj
  have hgot : v.gotIp = (judgeMessage s msg len).2 := congrArg Prod.snd hj
  have hneed' : v.needIp = true ↔ IsRequest msg len := by
    rw [hneed]
    exact or_iff_right Bool.false_ne_true
  rw [processDhcpMessage, if_pos h, hrun]
  by_cases hq : IsRequest msg len
  · rw [if_pos (hneed'.mpr hq)] at htype
    have hne : v.responseType ≠ dhcpNoResponse := by
      rw [htype]
      cases v.gotIp <;> decide
    rw [if_pos hq, ← hserver, ← hgot, ← htype]
    exact if_pos hne
  · rw [if_neg fun h => hq (hneed'.mp h)] at htype
    rw [if_neg hq, ← hserver]
    by_cases hd : IsDiscover msg len
    · have ht : v.responseType = dhcpMessageOffer := htype.trans (if_pos hd)
      rw [if_pos hd, ← ht]
      exact if_pos (by rw [ht]; decide)
    · have ht : v.responseType = dhcpNoResponse := htype.trans (if_neg hd)
      rw [if_neg hd]
      exact if_neg (not_not_intro ht)

/-- What a message that is processed comes to. -/
theorem process_cases {msg : Mem} {len : Nat} {o : Outcome}
    (h : processDhcpMessage s msg len = some o) :
    (¬ HeaderOk msg len ∧ o.server = s ∧ o.response = none) ∨
    (HeaderOk msg len ∧ IsRequest msg len ∧ o.server = (judgeMessage s msg len).1 ∧
      ∃ sent, o.response = some ⟨verdict (judgeMessage s msg len).2,
        if (judgeMessage s msg len).2 then (judgeMessage s msg len).1.clientIp else 0, sent⟩) ∨
    (HeaderOk msg len ∧ ¬ IsRequest msg len ∧ IsDiscover msg len ∧
      ∃ ip sent, nextYiaddr (judgeMessage s msg len).1 (chaddr msg) = some (o.server, ip) ∧
        o.response = some ⟨dhcpMessageOffer, ip, sent⟩) ∨
    (HeaderOk msg len ∧ ¬ IsRequest msg len ∧ ¬ IsDiscover msg len ∧
      o.server = (judgeMessage s msg len).1 ∧ o.response = none) := by
  by_cases hh : HeaderOk msg len
  swap
  · rw [processDhcpMessage, if_neg hh] at h
    cases h
    exact .inl ⟨hh, rfl, rfl⟩
  rw [processDhcpMessage_eq hh] at h
  by_cases hq : IsRequest msg len
  · obtain ⟨sent, hr⟩ := reply_verdict (judgeMessage s msg len).1 msg (judgeMessage s msg len).2
    rw [if_pos hq, hr] at h
    cases h
    exact .inr (.inl ⟨hh, hq, rfl, sent, rfl⟩)
  rw [if_neg hq] at h
  by_cases hd : IsDiscover msg len
  · rw [if_pos hd] at h
    rcases reply_offer (judgeMessage s msg len).1 msg with ⟨_, hr⟩ | ⟨s', ip, sent, hn, hr⟩
    · rw [hr] at h
      cases h
    · rw [hr] at h
      cases h
      exact .inr (.inr (.inl ⟨hh, hq, hd, ip, sent, hn, rfl⟩))
  · rw [if_neg hd] at h
    cases h
    exact .inr (.inr (.inr ⟨hh, hq, hd, rfl, rfl⟩))

/-! ## The states of the server -/

theorem nextYiaddr_cacheOk (h : CacheOk s) (hn : nextYiaddr s mac = some (s', ip)) :
    CacheOk s' := by
  rcases nextYiaddr_cases hn with ⟨_, _, rfl⟩ | ⟨hl, hfit, current, rfl⟩
  · exact h
  · have hok : CacheOk { s with currentIp := current } := h.congr ⟨rfl, rfl⟩ rfl
    have hfit' : Fits { s with currentIp := current } ip :=
      (fits_congr ⟨rfl, rfl⟩ rfl).mpr hfit
    exact hok.acAdd hl hfit'

/-- A message keeps the invariant of the cache. -/
theorem process_cacheOk (h : CacheOk s) {msg : Mem} {len : Nat} {o : Outcome}
    (hp : processDhcpMessage s msg len = some o) : CacheOk o.server := by
  have hj : CacheOk (judgeMessage s msg len).1 := judgeAll_cacheOk h _ _ _
  rcases process_cases hp with ⟨_, hs, _⟩ | ⟨_, _, hs, _⟩ | ⟨_, _, _, ip, _, hn, _⟩ |
    ⟨_, _, _, hs, _⟩
  · exact hs ▸ h
  · exact hs ▸ hj
  · exact nextYiaddr_cacheOk hj hn
  · exact hs ▸ hj

/-- The states of a server that has been started by `dhcp_server_init` and has processed any
messages, of which `len` bytes were received into any buffer. The lease time and the handler
of DNS queries may be set at any time. -/
inductive Reachable : DhcpServerData → Prop
  | init (myIp netmask routerIp : Ip) (timeout : BitVec 32) (nack : Bool) :
      Reachable (dhcpServerInit myIp netmask routerIp timeout nack)
  | settings {s : DhcpServerData} (timeout : BitVec 32) (nack : Bool) :
      Reachable s → Reachable { s with dhcpAddressTimeout := timeout, nackDnsServer := nack }
  | message {s : DhcpServerData} {o : Outcome} (msg : Mem) (len : Nat) :
      Reachable s → processDhcpMessage s msg len = some o → Reachable o.server

theorem init_cacheOk (myIp netmask routerIp : Ip) (timeout : BitVec 32) (nack : Bool) :
    CacheOk (dhcpServerInit myIp netmask routerIp timeout nack) :=
  ⟨fun _ he => absurd he List.not_mem_nil, List.nodup_nil, List.nodup_nil⟩

theorem Reachable.cacheOk (h : Reachable s) : CacheOk s := by
  induction h with
  | init myIp netmask routerIp timeout nack => exact init_cacheOk _ _ _ _ _
  | settings timeout nack _ ih => exact ih.congr ⟨rfl, rfl⟩ rfl
  | message msg len _ hp ih => exact process_cacheOk ih hp

end TuyaSdk.DhcpServer
