import TuyaSdk.DhcpServer.Verdict

/-!
# Acknowledged addresses

The verdict on a request is passed address by address, while the address sent back is the
last one given. `acksSoundly_iff` says when the two fit: an acknowledgement is sound unless
the addresses before the last one got the request accepted and the last one is not an
address that the client may have.
-/

namespace TuyaSdk.DhcpServer
open TuyaSdk.Lib

variable {s : DhcpServerData} {mac : Mac} {msg : Mem} {len : Nat} {a : Ip} {ips : List Ip}

/-- The client `mac` may use the address `a`: it is an address for clients in the subnet, and
it is cached for this client or for no other. -/
structure SoundFor (s : DhcpServerData) (mac : Mac) (a : Ip) : Prop where
  assignable : Assignable s a
  own : acLookupMac s mac = a ∨ ∀ e ∈ s.leases, e.clientIp = a → e.clientMac = mac

/-- Whenever the message is acknowledged, the client may use the address in the response. -/
def AcksSoundly (s : DhcpServerData) (msg : Mem) (len : Nat) : Prop :=
  ∀ o r, processDhcpMessage s msg len = some o → o.response = some r →
    r.type = dhcpMessageAck → SoundFor o.server (chaddr msg) r.yiaddr

/-- An accepted request ends with an address of the subnet, and with a free one from a new
client for which there is no room. -/
def LastFits (s : DhcpServerData) (msg : Mem) (len : Nat) : Prop :=
  HeaderOk msg len → IsRequest msg len → Accepted s (chaddr msg) (requestedIps msg len) →
    ∃ a, (requestedIps msg len).getLast? = some a ∧ InSubnet s a ∧
      (acLookupMac s (chaddr msg) = clientIpNotFound → acNotFull s = false → Fits s a)

theorem getLast?_filter_of_getLast? {p : Ip → Prop} [DecidablePred p]
    (h : ips.getLast? = some a) (ha : p a) : (ips.filter fun a => p a).getLast? = some a := by
  obtain ⟨l, rfl⟩ := List.getLast?_eq_some_iff.mp h
  rw [getLast?_filter_concat, if_pos ha]

theorem Accepted.ne_nil (h : Accepted s mac ips) : ips ≠ [] := by
  rintro rfl
  by_cases hl : acLookupMac s mac = clientIpNotFound
  · by_cases hr : acNotFull s = true
    · obtain ⟨_, h, _⟩ := (accepted_room hl hr).mp h
      cases h
    · obtain ⟨_, h, _⟩ := (accepted_full hl hr).mp h
      cases h
  · have h := (accepted_registered hl).mp h
    cases h

theorem Judged.room {r : DhcpServerData × Bool} (hj : Judged s mac ips r) (h : CacheOk s)
    (hl : acLookupMac s mac = clientIpNotFound) (hr : acNotFull s = true)
    (hf : ips.find? (fun a => Fits s a) = some a) : ⟨mac, a⟩ ∈ r.1.leases := by
  rw [hj.leases, newLease_room hl hr, hf]
  exact List.mem_append_right _ (List.mem_singleton.mpr rfl)

/-- After an accepted request whose last address is `a`, the client may use `a` exactly when
it is in the subnet and, from a new client for which there is no room, free. -/
theorem Judged.soundFor_iff {r : DhcpServerData × Bool} (hj : Judged s mac ips r)
    (h : CacheOk s) (h' : CacheOk r.1) (hacc : Accepted s mac ips)
    (hlast : ips.getLast? = some a) :
    SoundFor r.1 mac a ↔ InSubnet s a ∧
      (acLookupMac s mac = clientIpNotFound → acNotFull s = false → Fits s a) := by
  by_cases hl : acLookupMac s mac = clientIpNotFound
  swap
  · -- a client with a lease: the last address in the subnet is its lease
    rw [accepted_registered hl] at hacc
    constructor
    · intro hs
      exact ⟨hj.sameNet.inSubnet.mp hs.assignable.inSubnet, fun hl' => absurd hl' hl⟩
    · intro ⟨hsub, _⟩
      rw [getLast?_filter_of_getLast? hlast hsub, Option.some.injEq] at hacc
      have hmem : ⟨mac, a⟩ ∈ r.1.leases := by
        rw [hj.leases, hacc]
        exact List.mem_append_left _ (lookup_mem hl)
      exact ⟨h'.assignable _ hmem, .inl (h'.lookup_of_mem hmem)⟩
  by_cases hr : acNotFull s = true
  · -- the client has got a lease, which is the last address in the subnet
    obtain ⟨b, hfind, hb⟩ := (accepted_room hl hr).mp hacc
    have hmem := hj.room h hl hr hfind
    constructor
    · intro hs
      refine ⟨hj.sameNet.inSubnet.mp hs.assignable.inSubnet, fun _ hfull => ?_⟩
      rw [hr] at hfull
      cases hfull
    · intro ⟨hsub, _⟩
      rw [getLast?_filter_of_getLast? hlast hsub, Option.some.injEq] at hb
      rw [hb]
      exact ⟨h'.assignable _ hmem, .inl (h'.lookup_of_mem hmem)⟩
  · -- the client stays without a lease
    have hcache : r.1.leases = s.leases := by
      rw [hj.leases, newLease_full hr, List.append_nil]
    have hlook : acLookupMac r.1 mac = clientIpNotFound :=
      (acLookupMac_congr hcache mac).trans hl
    constructor
    · intro hs
      refine ⟨hj.sameNet.inSubnet.mp hs.assignable.inSubnet, fun _ _ => fits_iff.mpr ?_⟩
      refine ⟨hj.sameNet.assignable.mp hs.assignable, ?_⟩
      intro e he hip
      rcases hs.own with hown | hown
      · exact hs.assignable.ne_zero (hown.symm.trans hlook)
      · exact h.no_lease hl e he (hown e (hcache ▸ he) hip)
    · intro ⟨_, hfit⟩
      have hfit := fits_iff.mp (hfit hl (by simpa using hr))
      refine ⟨hj.sameNet.assignable.mpr hfit.1, .inr fun e he hip => ?_⟩
      exact absurd hip (hfit.2 e (hcache ▸ he))

/-- In every state of the server a message is acknowledged soundly if and only if its last
address fits. -/
theorem acksSoundly_iff (h : Reachable s) (msg : Mem) (len : Nat) :
    AcksSoundly s msg len ↔ LastFits s msg len := by
  have hok := h.cacheOk
  have hj : Judged s (chaddr msg) (requestedIps msg len) (judgeMessage s msg len) :=
    judgeAll_judged hok _ _
  have hok' : CacheOk (judgeMessage s msg len).1 := judgeAll_cacheOk hok _ _ _
  have hclient : ∀ a, (requestedIps msg len).getLast? = some a →
      (judgeMessage s msg len).1.clientIp = a := by
    intro a ha
    have hc := judgeAll_clientIp (chaddr msg) (s, false) (requestedIps msg len)
    rw [ha] at hc
    exact hc
  constructor
  · intro hsound hh hq hacc
    obtain ⟨a, ha⟩ : ∃ a, (requestedIps msg len).getLast? = some a :=
      ⟨_, List.getLast?_eq_getLast_of_ne_nil hacc.ne_nil⟩
    have hgot := hj.gotIp.mpr hacc
    obtain ⟨sent, hr⟩ := reply_verdict (judgeMessage s msg len).1 msg (judgeMessage s msg len).2
    rw [hgot, if_pos rfl, hclient a ha] at hr
    have hp : processDhcpMessage s msg len = _ :=
      (processDhcpMessage_eq hh).trans ((if_pos hq).trans (hgot ▸ hr))
    have hs := hsound _ _ hp rfl (congrArg verdict hgot)
    exact ⟨a, ha, (hj.soundFor_iff hok hok' hacc ha).mp hs⟩
  · intro hfits o r hp hr htype
    rcases process_cases hp with ⟨_, _, hn⟩ | ⟨hh, hq, hs, sent, hresp⟩ |
      ⟨_, _, _, ip, sent, _, hresp⟩ | ⟨_, _, _, _, hn⟩
    · rw [hn] at hr
      cases hr
    · rw [hresp] at hr
      cases hr
      have hgot : (judgeMessage s msg len).2 = true := by
        cases hg : (judgeMessage s msg len).2 with
        | false =>
          rw [hg] at htype
          have hne : dhcpMessageNak = dhcpMessageAck := htype
          exact absurd hne (by decide)
        | true => rfl
      have hacc := hj.gotIp.mp hgot
      obtain ⟨a, ha, hfit⟩ := hfits hh hq hacc
      rw [hs, hgot, if_pos rfl, hclient a ha]
      exact (hj.soundFor_iff hok hok' hacc ha).mpr hfit
    · rw [hresp] at hr
      cases hr
      have hne : dhcpMessageOffer = dhcpMessageAck := htype
      exact absurd hne (by decide)
    · rw [hn] at hr
      cases hr

/-- A server at 192.168.176.1 with the mask 255.255.255.0. -/
def softApServer : DhcpServerData :=
  dhcpServerInit 0x01b0a8c0 0x00ffffff 0x01b0a8c0 3600 false

/-- A request for 192.168.176.100 is acknowledged soundly. -/
theorem request_acked_soundly :
    AcksSoundly softApServer (bootpMessage [2, 0, 0, 0, 0, 1]
      [53, 1, 3, 50, 4, 192, 168, 176, 100, 255] fun _ => 0) 250 :=
  (acksSoundly_iff (.init _ _ _ _ _) _ _).mpr fun _ _ _ =>
    ⟨0x64b0a8c0, by decide +kernel, by decide +kernel, by decide +kernel⟩

/-- A request that gives 192.168.176.100 first and 10.0.0.1 then is acknowledged with
10.0.0.1. -/
theorem foreign_address_acked :
    ¬ ∀ (s : DhcpServerData) (msg : Mem) (len : Nat), Reachable s → AcksSoundly s msg len := by
  intro h
  have hrun : (processDhcpMessage softApServer (bootpMessage [2, 0, 0, 0, 0, 1]
      [53, 1, 3, 50, 4, 192, 168, 176, 100, 50, 4, 10, 0, 0, 1, 255] fun _ => 0) 256).any
      (fun o => decide (o.server.netmask = 0x00ffffff ∧ o.server.myIp = 0x01b0a8c0) &&
        o.response.any fun r => decide (r.type = dhcpMessageAck ∧ r.yiaddr = 0x0100000a)) =
      true := by decide +kernel
  obtain ⟨o, ho, hprop⟩ := (Option.any_eq_true _ _).mp hrun
  obtain ⟨hnet, hresp⟩ := Bool.and_eq_true_iff.mp hprop
  obtain ⟨r, hr, hack⟩ := (Option.any_eq_true _ _).mp hresp
  obtain ⟨hmask, hip⟩ := of_decide_eq_true hnet
  obtain ⟨htype, hyiaddr⟩ := of_decide_eq_true hack
  have hsub := (h softApServer _ _ (.init _ _ _ _ _) o r ho hr htype).assignable.inSubnet
  rw [InSubnet, hmask, hip, hyiaddr] at hsub
  exact absurd hsub (by decide)

end TuyaSdk.DhcpServer
