import TuyaSdk.Lib.MaskedCounter
import TuyaSdk.Lib.Search
import TuyaSdk.DhcpServer.Verdict

/-!
# The end of the search for an address

The search of `next_yiaddr` moves `current_ip` through the subnet until `ac_valid_ip` takes
it, and has no other way out. `current_ip` is a counter under the host mask, so it comes to
the addresses that agree with it in the bits its carry does not reach, which for a contiguous
netmask is the whole subnet (`within_of_contiguous`). The search ends when one of these is
free, and goes on forever otherwise.
-/

namespace TuyaSdk.DhcpServer
open TuyaSdk.Lib

variable {s s' : DhcpServerData} {mac : Mac} {a ip : Ip}

/-! ## The counter -/

/-- The network part of the addresses, in host order. -/
def networkBits (s : DhcpServerData) : BitVec 32 := ntohl (s.myIp &&& s.netmask)

/-- The bits of an address that the netmask leaves to the hosts, in host order. -/
def hostMask (s : DhcpServerData) : BitVec 32 := ntohl (~~~s.netmask)

theorem succIp_eq (s : DhcpServerData) :
    succIp s = MaskedCounter.step (networkBits s) (hostMask s) := rfl

theorem nextIpPass_eq (s : DhcpServerData) :
    nextIpPass s = Loop.searchPass (acValidIp s) (succIp s) := rfl

theorem ntohl_not (x : BitVec 32) : ntohl (~~~x) = ~~~ntohl x := by
  apply BitVec.eq_of_getLsbD_eq
  intro i hi
  have hj : 8 * (3 - i / 8) + i % 8 < 32 := by omega
  simp only [getLsbD_ntohl, BitVec.getLsbD_not, decide_eq_true hi, decide_eq_true hj,
    Bool.true_and]

theorem inSubnet_iff_isValue :
    InSubnet s a ↔ MaskedCounter.IsValue (networkBits s) (hostMask s) (ntohl a) := by
  rw [InSubnet, MaskedCounter.IsValue, networkBits, hostMask, ntohl_not, BitVec.not_not,
    ← ntohl_and, ntohl_inj]

theorem networkBits_and_hostMask (s : DhcpServerData) : networkBits s &&& hostMask s = 0 := by
  rw [networkBits, hostMask, ← ntohl_and, BitVec.and_assoc, BitVec.and_not_self]
  exact congrArg ntohl BitVec.and_zero

/-- The counter can come to `a`: they agree in the bits that no carry of the counter
reaches. -/
def Within (s : DhcpServerData) (a : Ip) : Prop :=
  MaskedCounter.SameAbove (networkBits s) (hostMask s) s.currentIp (ntohl a)

/-- With a contiguous netmask the counter comes to every address of the subnet. -/
theorem within_of_contiguous
    (hmask : ∀ i l, l ≤ i → (hostMask s).getLsbD i = true → (hostMask s).getLsbD l = true)
    (hcur : InSubnet s (htonl s.currentIp)) (ha : InSubnet s a) : Within s a := by
  have hcur := inSubnet_iff_isValue.mp hcur
  rw [htonl, ntohl_ntohl] at hcur
  have ha := inSubnet_iff_isValue.mp ha
  intro i hi
  by_cases hbit : (hostMask s).getLsbD i = true
  · refine absurd ⟨hbit, fun l hl => ?_⟩ hi
    rw [BitVec.getLsbD_or, hmask i l (Nat.le_of_lt hl) hbit, Bool.or_true]
  · have hlt : ∀ x : BitVec 32, (x &&& ~~~hostMask s).getLsbD i = x.getLsbD i := by
      intro x
      by_cases h32 : i < 32
      · rw [BitVec.getLsbD_and, BitVec.getLsbD_not, decide_eq_true h32, eq_false_of_ne_true hbit,
          Bool.not_false, Bool.and_true, Bool.and_true]
      · rw [BitVec.getLsbD_of_ge _ _ (Nat.le_of_not_lt h32),
          BitVec.getLsbD_of_ge _ _ (Nat.le_of_not_lt h32)]
    have hsame : s.currentIp &&& ~~~hostMask s = ntohl a &&& ~~~hostMask s := hcur.trans ha.symm
    rw [← hlt s.currentIp, hsame, hlt]

/-! ## The counter of a running server -/

theorem acAdd_currentIp (s : DhcpServerData) (mac : Mac) (ip : Ip) :
    (acAdd s mac ip).1.currentIp = s.currentIp := by
  rw [acAdd]
  split <;> rfl

/-- The counter is in the subnet. -/
def CounterOk (s : DhcpServerData) : Prop := InSubnet s (htonl s.currentIp)

theorem CounterOk.congr (h : CounterOk s) (hn : SameNet s s')
    (hc : s'.currentIp = s.currentIp) : CounterOk s' := by
  rw [CounterOk, hc]
  exact hn.inSubnet.mpr h

theorem CounterOk.acAdd (h : CounterOk s) (mac : Mac) (ip : Ip) :
    CounterOk (acAdd s mac ip).1 :=
  h.congr (acAdd_sameNet s mac ip) (acAdd_currentIp s mac ip)

theorem judge_counterOk (h : CounterOk s) (mac : Mac) (g : Bool) :
    CounterOk (judge mac s g).1 := by
  rcases judge_server mac s g with hs | ⟨_, _, hs⟩
  · rw [hs]
    exact h
  · rw [hs]
    exact h.acAdd mac s.clientIp

theorem judgeAll_counterOk (h : CounterOk s) (mac : Mac) (g : Bool) (ips : List Ip) :
    CounterOk (judgeAll mac (s, g) ips).1 := by
  induction ips using List.reverseRecOn with
  | nil => exact h
  | append_singleton ips a ih =>
    rw [judgeAll_concat]
    apply judge_counterOk
    exact ih.congr ⟨rfl, rfl⟩ rfl

theorem nextYiaddr_counterOk (h : CounterOk s) (hn : nextYiaddr s mac = some (s', ip)) :
    CounterOk s' := by
  simp only [nextYiaddr] at hn
  split at hn
  next =>
    obtain ⟨r, hr, heq⟩ := Option.map_eq_some_iff.mp hn
    cases heq
    have hfit : Fits s (htonl r) := nextIpPass_fits (inSubnet_succIp s _) hr
    have hr : CounterOk { s with currentIp := r } := hfit.1
    exact hr.acAdd mac (htonl r)
  next =>
    cases hn
    exact h

theorem process_counterOk (h : CounterOk s) {msg : Mem} {len : Nat} {o : Outcome}
    (hp : processDhcpMessage s msg len = some o) : CounterOk o.server := by
  have hj : CounterOk (judgeMessage s msg len).1 := judgeAll_counterOk h _ _ _
  rcases process_cases hp with ⟨_, hs, _⟩ | ⟨_, _, hs, _⟩ | ⟨_, _, _, ip, _, hn, _⟩ |
    ⟨_, _, _, hs, _⟩
  · exact hs ▸ h
  · exact hs ▸ hj
  · exact nextYiaddr_counterOk hj hn
  · exact hs ▸ hj

theorem Reachable.counterOk (h : Reachable s) : CounterOk s := by
  induction h with
  | init myIp netmask routerIp timeout nack =>
    rw [CounterOk, inSubnet_iff_isValue, htonl, ntohl_ntohl]
    exact MaskedCounter.isValue_or_and (networkBits_and_hostMask _) 99
  | settings timeout nack _ ih => exact ih.congr ⟨rfl, rfl⟩ rfl
  | message msg len _ hp ih => exact process_counterOk ih hp

/-! ## The answer to a client -/

/-- The server without the leases of the client `mac`. -/
def withoutClient (s : DhcpServerData) (mac : Mac) : DhcpServerData :=
  { s with
    ipMacMapping := ⟨s.leases.filter fun e => e.clientMac ≠ mac,
      (List.length_filter_le _ _).trans s.ipMacMapping.bounded⟩ }

/-- An address that may be offered to the client `mac`: `ac_valid_ip` takes it, the client's
own lease apart, and it is not the lease of another client. -/
def Offerable (s : DhcpServerData) (mac : Mac) (a : Ip) : Prop :=
  acValidIp (withoutClient s mac) (ntohl a) = true ∧
    ∀ e ∈ s.leases, e.clientIp = a → e.clientMac = mac

/-- `next_yiaddr` returns, with an address for the client or with a failure when the subnet
has none. -/
def Answers (s : DhcpServerData) (mac : Mac) : Prop :=
  ∃ s' ip, nextYiaddr s mac = some (s', ip) ∧
    (Offerable s mac ip ∨
      (ip = clientIpNotFound ∧ ∀ a, InSubnet s a → ¬ Offerable s mac a))

/-- The client has a lease, or the counter can come to a free address. -/
def Findable (s : DhcpServerData) (mac : Mac) : Prop :=
  acLookupMac s mac ≠ clientIpNotFound ∨ ∃ a, Fits s a ∧ Within s a

theorem mem_withoutClient {e : ClientMacCache} :
    e ∈ (withoutClient s mac).leases ↔ e ∈ s.leases ∧ e.clientMac ≠ mac := by
  rw [DhcpServerData.leases, withoutClient, List.mem_filter, decide_eq_true_iff]

/-- `Offerable` in terms of the leases. -/
theorem offerable_iff : Offerable s mac a ↔
    (a ≠ s.myIp ∧ a ≠ networkIp s ∧ a ≠ broadcastIp s) ∧
      ∀ e ∈ s.leases, e.clientIp = a → e.clientMac = mac := by
  rw [Offerable, acValidIp_iff]
  constructor
  · rintro ⟨⟨h1, h2, h3, _⟩, hown⟩
    exact ⟨⟨h1, h2, h3⟩, hown⟩
  · rintro ⟨⟨h1, h2, h3⟩, hown⟩
    refine ⟨⟨h1, h2, h3, ?_⟩, hown⟩
    intro e he hip
    obtain ⟨hmem, hmac⟩ := mem_withoutClient.mp he
    exact hmac (hown e hmem hip)

theorem Fits.offerable (h : Fits s a) (mac : Mac) : Offerable s mac a := by
  obtain ⟨hassign, hun⟩ := fits_iff.mp h
  exact offerable_iff.mpr ⟨⟨hassign.ne_myIp, hassign.ne_network, hassign.ne_broadcast⟩,
    fun e he hip => absurd hip (hun e he)⟩

/-- The lease of a client may be offered to it. -/
theorem CacheOk.offerable (h : CacheOk s) (hl : acLookupMac s mac ≠ clientIpNotFound) :
    Offerable s mac (acLookupMac s mac) := by
  have hmem := lookup_mem hl
  have hassign := h.assignable _ hmem
  refine offerable_iff.mpr ⟨⟨hassign.ne_myIp, hassign.ne_network, hassign.ne_broadcast⟩, ?_⟩
  intro e he hip
  have he' : ⟨e.clientMac, acLookupMac s mac⟩ ∈ s.leases := hip ▸ he
  exact h.same_client he' hmem

/-- A search ends just when the counter can come to a free address from where it starts. -/
theorem search_iff {x : BitVec 32}
    (hx : MaskedCounter.IsValue (networkBits s) (hostMask s) x) :
    (∃ r, Loop.run (nextIpPass s) (2 ^ 32) x = some r) ↔
      ∃ a, Fits s a ∧ MaskedCounter.SameAbove (networkBits s) (hostMask s) x (ntohl a) := by
  rw [nextIpPass_eq, succIp_eq]
  constructor
  · rintro ⟨r, hr⟩
    obtain ⟨k, _, hhit, rfl⟩ := Loop.exists_of_run_searchPass hr
    refine ⟨ntohl _, ⟨?_, by rw [ntohl_ntohl]; exact hhit.hit⟩, ?_⟩
    · rw [inSubnet_iff_isValue, ntohl_ntohl]
      exact hx.iterate k
    · intro i hi
      rw [ntohl_ntohl, hx.sameAbove_iterate k i hi]
  · rintro ⟨a, ⟨hsub, hvalid⟩, hsame⟩
    obtain ⟨k, hk, hka⟩ := hx.exists_iterate (inSubnet_iff_isValue.mp hsub) hsame
    have hhere : acValidIp s
        ((MaskedCounter.step (networkBits s) (hostMask s))^[k] x) = true := by rwa [hka]
    obtain ⟨j, hj, hhit⟩ := Loop.exists_firstHit hhere
    exact ⟨_, hhit.run (Nat.lt_of_le_of_lt hj hk)⟩

/-- The search of `next_yiaddr` ends just when the counter can come to a free address. -/
theorem search_ends_iff (h : CounterOk s) :
    (∃ r, Loop.run (nextIpPass s) (2 ^ 32) (succIp s s.currentIp) = some r) ↔
      ∃ a, Fits s a ∧ Within s a := by
  have hcur := inSubnet_iff_isValue.mp h
  rw [htonl, ntohl_ntohl] at hcur
  have habove := hcur.sameAbove_step
  rw [succIp_eq, search_iff hcur.step]
  constructor
  · rintro ⟨a, hfit, hsame⟩
    refine ⟨a, hfit, fun i hi => ?_⟩
    rw [← habove i hi, hsame i hi]
  · rintro ⟨a, hfit, hwithin⟩
    refine ⟨a, hfit, fun i hi => ?_⟩
    rw [habove i hi, hwithin i hi]

/-- `next_yiaddr` answers a client in a state of the server just when the client has a lease
or the counter can come to a free address. -/
theorem answers_iff (h : Reachable s) (mac : Mac) : Answers s mac ↔ Findable s mac := by
  have hends := search_ends_iff h.counterOk
  constructor
  · rintro ⟨s', ip, hn, _⟩
    by_cases hl : acLookupMac s mac = clientIpNotFound
    · rw [nextYiaddr] at hn
      simp only [if_pos hl] at hn
      obtain ⟨r, hr, _⟩ := Option.map_eq_some_iff.mp hn
      exact .inr (hends.mp ⟨r, hr⟩)
    · exact .inl hl
  · intro hfind
    by_cases hl : acLookupMac s mac = clientIpNotFound
    · obtain ⟨r, hr⟩ := hends.mpr (hfind.resolve_left (not_not_intro hl))
      have hfit : Fits s (htonl r) := nextIpPass_fits (inSubnet_succIp s _) hr
      refine ⟨(acAdd { s with currentIp := r } mac (htonl r)).1, htonl r, ?_,
        .inl (hfit.offerable mac)⟩
      rw [nextYiaddr]
      simp only [if_pos hl, hr]
      rfl
    · refine ⟨s, acLookupMac s mac, ?_, .inl (h.cacheOk.offerable hl)⟩
      rw [nextYiaddr]
      simp only [if_neg hl]

/-- With a contiguous netmask a client without a lease needs any free address of the
subnet. -/
theorem findable_of_contiguous (h : CounterOk s)
    (hmask : ∀ i l, l ≤ i → (hostMask s).getLsbD i = true → (hostMask s).getLsbD l = true) :
    Findable s mac ↔ acLookupMac s mac ≠ clientIpNotFound ∨ ∃ a, Fits s a := by
  constructor
  · rintro (hl | ⟨a, hfit, _⟩)
    · exact .inl hl
    · exact .inr ⟨a, hfit⟩
  · rintro (hl | ⟨a, hfit⟩)
    · exact .inl hl
    · exact .inr ⟨a, hfit, within_of_contiguous hmask h hfit.1⟩

/-- The first client of a server with 253 addresses. -/
theorem answers_first_client :
    Answers (dhcpServerInit 0x01b0a8c0 0x00ffffff 0x01b0a8c0 3600 false) [2, 0, 0, 0, 0, 1] := by
  refine (answers_iff (.init 0x01b0a8c0 0x00ffffff 0x01b0a8c0 3600 false) _).mpr (.inr ?_)
  refine ⟨0x63b0a8c0, by decide, fun i _ => ?_⟩
  have hcur : (dhcpServerInit 0x01b0a8c0 0x00ffffff 0x01b0a8c0 3600 false).currentIp =
      ntohl 0x63b0a8c0 := by decide
  rw [hcur]

/-- The host-order addresses of the subnet 192.168.176.0/30. -/
def fourAddresses : List (BitVec 32) := [0xc0a8b000, 0xc0a8b001, 0xc0a8b002, 0xc0a8b003]

/-- In a subnet of four addresses the first client has the only one that is free, and the
search for a second client never ends. -/
theorem not_answers_second_client :
    ¬ ∀ (s : DhcpServerData) (mac : Mac), Reachable s → Answers s mac := by
  intro h
  have hfirst : (processDhcpMessage (dhcpServerInit 0x01b0a8c0 0xfcffffff 0x01b0a8c0 3600 false)
      (bootpMessage [2, 0, 0, 0, 0, 1] [53, 1, 1, 255] fun _ => 0) 244).any (fun o => decide (
        o.server.leases = [⟨[2, 0, 0, 0, 0, 1], 0x02b0a8c0⟩] ∧ o.server.myIp = 0x01b0a8c0 ∧
        o.server.netmask = 0xfcffffff ∧ o.server.currentIp = 0xc0a8b002)) = true := by
    decide +kernel
  obtain ⟨o, hp, hfacts⟩ := (Option.any_eq_true _ _).mp hfirst
  obtain ⟨hleases, hmyIp, hnetmask, hcur⟩ := of_decide_eq_true hfacts
  have hl : acLookupMac o.server [2, 0, 0, 0, 0, 2] = clientIpNotFound := by
    rw [acLookupMac, hleases]
    decide
  have hvalid : ∀ c ∈ fourAddresses, acValidIp o.server c = false := by
    have hall : (fourAddresses.all fun c => !acValidIp o.server c) = true := by
      simp only [acValidIp, acLookupIp, hleases, hmyIp, hnetmask]
      decide +kernel
    intro c hc
    exact (Bool.not_eq_eq_eq_not.mp (List.all_eq_true.mp hall c hc)).trans rfl
  have hsucc : ∀ c ∈ fourAddresses, succIp o.server c ∈ fourAddresses := by
    have hall : (fourAddresses.all fun c => succIp o.server c ∈ fourAddresses) = true := by
      simp only [succIp, hmyIp, hnetmask]
      decide +kernel
    intro c hc
    exact of_decide_eq_true (List.all_eq_true.mp hall c hc)
  obtain ⟨s', ip, hn, _⟩ := h o.server [2, 0, 0, 0, 0, 2] (.message _ _ (.init ..) hp)
  simp only [nextYiaddr, if_pos hl] at hn
  obtain ⟨r, hr, _⟩ := Option.map_eq_some_iff.mp hn
  have hstart : succIp o.server o.server.currentIp ∈ fourAddresses := by
    rw [hcur]
    exact hsucc _ (by decide)
  refine Loop.run_post (I := fun c => c ∈ fourAddresses) (Q := fun _ => False) ?_ ?_ hstart hr
  · intro c r hc hb
    rw [nextIpPass, hvalid c hc] at hb
    cases hb
  · intro c c' hc hb
    rw [nextIpPass, hvalid c hc] at hb
    cases hb
    exact hsucc c hc

end TuyaSdk.DhcpServer
