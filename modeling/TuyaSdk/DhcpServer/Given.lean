import TuyaSdk.DhcpServer.Received
import TuyaSdk.Lib.Machine

/-!
# One address, one client

Runs of the server over well-formed messages. An address is given to a client by an
acknowledgement, or by an offer that is in the cache. As long as no new client has its
request accepted when the cache is full, everything that has been given is in the cache,
where an address belongs to one client (`given_once`).
-/

namespace TuyaSdk.DhcpServer
open TuyaSdk.Lib

/-- A message in the receive buffer. -/
structure Received where
  msg : Mem
  len : Nat

/-- The option at `off` is a message type. -/
def IsMessageType (msg : Mem) (off : Nat) : Prop :=
  msg off = bootpOptionDhcpMessage ∧ msg (off + 1) = 1

instance (msg : Mem) (off : Nat) : Decidable (IsMessageType msg off) :=
  inferInstanceAs (Decidable (_ ∧ _))

/-- The addresses that the message gives. -/
def Received.ips (i : Received) : List Ip := requestedIps i.msg i.len

/-- A well-formed DISCOVER or REQUEST: a request of BOOTP with complete options, one message
type, and one address at most, be it in the header or in an option. -/
structure WellFormed (i : Received) : Prop where
  header : HeaderOk i.msg i.len
  op : i.msg 0 = bootpOpRequest
  complete : OptionsComplete (readBytes i.msg bootpHeaderSize (i.len - bootpHeaderSize))
  one_type : ((messageOptions i.msg i.len).filter fun o => IsMessageType i.msg o).length = 1
  type : IsDiscover i.msg i.len ∨ IsRequest i.msg i.len
  one_ip : i.ips.length ≤ 1

instance (i : Received) : Decidable (WellFormed i) :=
  decidable_of_iff (HeaderOk i.msg i.len ∧ i.msg 0 = bootpOpRequest ∧
    (∀ j ∈ optionReads i.msg bootpHeaderSize (i.len - bootpHeaderSize),
      j < bootpHeaderSize + (i.len - bootpHeaderSize)) ∧
    ((messageOptions i.msg i.len).filter fun o => IsMessageType i.msg o).length = 1 ∧
    (IsDiscover i.msg i.len ∨ IsRequest i.msg i.len) ∧ i.ips.length ≤ 1)
    ⟨fun ⟨h1, h2, h3, h4, h5, h6⟩ => ⟨h1, h2, optionReads_lt_iff.mp h3, h4, h5, h6⟩,
      fun ⟨h1, h2, h3, h4, h5, h6⟩ => ⟨h1, h2, optionReads_lt_iff.mpr h3, h4, h5, h6⟩⟩

/-- What the server gives to the client of the message: the address acknowledged, or the
address offered that is in the cache. -/
def givenTo (msg : Mem) (o : Outcome) : Option (Mac × Ip) :=
  match o.response with
  | none => none
  | some r =>
    if r.type = dhcpMessageAck ∨
        (r.type = dhcpMessageOffer ∧ ⟨chaddr msg, r.yiaddr⟩ ∈ o.server.leases) then
      some (chaddr msg, r.yiaddr)
    else none

/-- The server, as a machine from messages to what it gives. -/
def serve : Machine DhcpServerData Received (Option (Mac × Ip)) := fun s i =>
  (processDhcpMessage s i.msg i.len).map fun o => (o.server, givenTo i.msg o)

/-- The message is not a request of a new client for a free address when the cache is full. -/
def RoomFor (s : DhcpServerData) (i : Received) : Prop :=
  IsRequest i.msg i.len → acLookupMac s (chaddr i.msg) = clientIpNotFound →
    acNotFull s = false → ∀ a ∈ i.ips, ¬ Fits s a

instance (s : DhcpServerData) (i : Received) : Decidable (RoomFor s i) :=
  inferInstanceAs (Decidable (_ → _ → _ → ∀ a ∈ _, _))

/-- Everything given so far is leased. -/
structure GivenLeased (s : DhcpServerData) (given : List (Option (Mac × Ip))) : Prop where
  cacheOk : CacheOk s
  leased : ∀ mac ip, some (mac, ip) ∈ given → ⟨mac, ip⟩ ∈ s.leases

variable {s s' : DhcpServerData} {i : Received} {g : Option (Mac × Ip)}

theorem judgeMessage_leases (h : CacheOk s) (msg : Mem) (len : Nat) :
    ∀ e ∈ s.leases, e ∈ (judgeMessage s msg len).1.leases := by
  intro e he
  have hj : Judged s (chaddr msg) _ (judgeMessage s msg len) := judgeAll_judged h _ _
  rw [hj.leases]
  exact List.mem_append_left _ he

theorem nextYiaddr_leases {mac : Mac} {ip : Ip} (h : nextYiaddr s mac = some (s', ip)) :
    ∀ e ∈ s.leases, e ∈ s'.leases := by
  intro e he
  rcases nextYiaddr_cases h with ⟨_, _, rfl⟩ | ⟨_, _, current, rfl⟩
  · exact he
  · cases hr : acNotFull { s with currentIp := current } with
    | false =>
      rw [acAdd_of_full hr]
      exact he
    | true =>
      rw [acAdd_leases hr]
      exact List.mem_append_left _ he

/-- No lease is lost. -/
theorem process_leases (h : CacheOk s) {msg : Mem} {len : Nat} {o : Outcome}
    (hp : processDhcpMessage s msg len = some o) : ∀ e ∈ s.leases, e ∈ o.server.leases := by
  intro e he
  have hj := judgeMessage_leases h msg len e he
  rcases process_cases hp with ⟨_, hs, _⟩ | ⟨_, _, hs, _⟩ | ⟨_, _, _, ip, _, hn, _⟩ |
    ⟨_, _, _, hs, _⟩
  · exact hs ▸ he
  · exact hs ▸ hj
  · exact nextYiaddr_leases hn e hj
  · exact hs ▸ hj

/-- An acknowledged address is leased to the client, if there was room. -/
theorem ack_leased (h : CacheOk s) {o : Outcome} (hip : i.ips.length ≤ 1) (hroom : RoomFor s i)
    (hp : processDhcpMessage s i.msg i.len = some o) {r : Response} (hr : o.response = some r)
    (htype : r.type = dhcpMessageAck) : ⟨chaddr i.msg, r.yiaddr⟩ ∈ o.server.leases := by
  have hj : Judged s (chaddr i.msg) i.ips (judgeMessage s i.msg i.len) :=
    judgeAll_judged h _ _
  rcases process_cases hp with ⟨_, _, hn⟩ | ⟨_, hq, hs, sent, hresp⟩ |
    ⟨_, _, _, ip, sent, _, hresp⟩ | ⟨_, _, _, _, hn⟩
  · rw [hn] at hr
    cases hr
  · rw [hresp] at hr
    cases hr
    have hgot : (judgeMessage s i.msg i.len).2 = true := by
      cases hg : (judgeMessage s i.msg i.len).2 with
      | false =>
        rw [hg] at htype
        have hne : dhcpMessageNak = dhcpMessageAck := htype
        exact absurd hne (by decide)
      | true => rfl
    have hacc := hj.gotIp.mp hgot
    -- the only address of the message is the one that was judged
    obtain ⟨a, ha⟩ : ∃ a, i.ips = [a] := by
      cases hl : i.ips with
      | nil =>
        rw [hl] at hacc
        simp [Accepted] at hacc
      | cons a l =>
        rw [hl] at hip
        cases l with
        | nil => exact ⟨a, rfl⟩
        | cons b l =>
          simp at hip
    have hclient : (judgeMessage s i.msg i.len).1.clientIp = a := by
      have hc := judgeAll_clientIp (chaddr i.msg) (s, false) i.ips
      rw [ha] at hc
      have hjudge : judgeMessage s i.msg i.len = judgeAll (chaddr i.msg) (s, false) [a] := by
        rw [← ha]
        rfl
      rw [hjudge]
      exact hc
    rw [hs, hgot, if_pos rfl, hclient, hj.leases, List.mem_append]
    rw [ha] at hacc ⊢
    by_cases hl : acLookupMac s (chaddr i.msg) = clientIpNotFound
    · by_cases hf : acNotFull s = true
      · obtain ⟨b, hfind, _⟩ := (accepted_room hl hf).mp hacc
        have hab : b = a := List.mem_singleton.mp (List.mem_of_find?_eq_some hfind)
        rw [newLease_room hl hf, hfind, hab]
        exact .inr (List.mem_singleton.mpr rfl)
      · obtain ⟨b, hb, hfit⟩ := (accepted_full hl hf).mp hacc
        exact absurd hfit (hroom hq hl (by simpa using hf) b (ha ▸ hb))
    · have hlast := (accepted_registered hl).mp hacc
      have hmem := List.mem_of_getLast? hlast
      have hab : acLookupMac s (chaddr i.msg) = a :=
        List.mem_singleton.mp (List.mem_of_mem_filter hmem)
      exact .inl (hab ▸ lookup_mem hl)
  · rw [hresp] at hr
    cases hr
    have hne : dhcpMessageOffer = dhcpMessageAck := htype
    exact absurd hne (by decide)
  · rw [hn] at hr
    cases hr

/-- One message: what it gives is leased, and what has been given stays leased. -/
theorem GivenLeased.step {given : List (Option (Mac × Ip))} (h : GivenLeased s given)
    (hok : RoomFor s i ∧ WellFormed i) (hs : serve s i = some (s', g)) :
    GivenLeased s' (given ++ [g]) := by
  obtain ⟨o, hp, heq⟩ := Option.map_eq_some_iff.mp hs
  cases heq
  refine ⟨process_cacheOk h.cacheOk hp, ?_⟩
  intro mac ip hmem
  rcases List.mem_append.mp hmem with hmem | hmem
  · exact process_leases h.cacheOk hp _ (h.leased mac ip hmem)
  · have hg := (List.mem_singleton.mp hmem).symm
    cases hr : o.response with
    | none =>
      simp only [givenTo, hr] at hg
      cases hg
    | some r =>
      simp only [givenTo, hr] at hg
      split at hg
      next hgiven =>
        cases hg
        rcases hgiven with htype | ⟨_, hleased⟩
        · exact ack_leased h.cacheOk hok.2.one_ip hok.1 hp hr htype
        · exact hleased
      next => cases hg

/-- In every run over well-formed messages in which no new client asks for a free address
when the cache is full, no address is given to two clients. -/
theorem given_once (myIp netmask routerIp : Ip) (timeout : BitVec 32) (nack : Bool)
    (is : List Received) (hwf : ∀ i ∈ is, WellFormed i)
    (hroom : Machine.Legal serve RoomFor (dhcpServerInit myIp netmask routerIp timeout nack) is)
    (s : DhcpServerData) (given : List (Option (Mac × Ip)))
    (hrun : Machine.run serve (dhcpServerInit myIp netmask routerIp timeout nack) is =
      some (s, given)) :
    ∀ mac mac' ip, some (mac, ip) ∈ given → some (mac', ip) ∈ given → mac = mac' := by
  have hinit : GivenLeased (dhcpServerInit myIp netmask routerIp timeout nack) [] :=
    ⟨init_cacheOk _ _ _ _ _, fun _ _ h => absurd h List.not_mem_nil⟩
  have hinv : GivenLeased s ([] ++ given) :=
    Machine.run_invariant (fun _ _ _ _ _ h hok hs => h.step hok hs) hinit
      (hroom.and_all hwf) hrun
  intro mac mac' ip h1 h2
  exact hinv.cacheOk.same_client (hinv.leased mac ip h1) (hinv.leased mac' ip h2)

/-- A discovery of the client `mac`. -/
def discoverFrom (mac : Mac) : Received :=
  ⟨bootpMessage mac [53, 1, 1, 255] fun _ => 0, 244⟩

/-- A request of the client `mac` for 192.168.176.`host`. -/
def requestFrom (mac : Mac) (host : Byte) : Received :=
  ⟨bootpMessage mac [53, 1, 3, 50, 4, 192, 168, 176, host, 255] fun _ => 0, 250⟩

/-- A discovery and a request of one client, and the same request of a second one, which is
refused. -/
theorem second_client_refused : ∃ s given,
    Machine.run serve (dhcpServerInit 0x01b0a8c0 0x00ffffff 0x01b0a8c0 3600 false)
      [discoverFrom [2, 0, 0, 0, 0, 1], requestFrom [2, 0, 0, 0, 0, 1] 100,
        requestFrom [2, 0, 0, 0, 0, 2] 100] = some (s, given) ∧
    given = [some ([2, 0, 0, 0, 0, 1], 0x64b0a8c0), some ([2, 0, 0, 0, 0, 1], 0x64b0a8c0), none] ∧
    ∀ mac mac' ip, some (mac, ip) ∈ given → some (mac', ip) ∈ given → mac = mac' := by
  have hrun : (Machine.run serve (dhcpServerInit 0x01b0a8c0 0x00ffffff 0x01b0a8c0 3600 false)
      [discoverFrom [2, 0, 0, 0, 0, 1], requestFrom [2, 0, 0, 0, 0, 1] 100,
        requestFrom [2, 0, 0, 0, 0, 2] 100]).any (fun r => decide (r.2 =
          [some ([2, 0, 0, 0, 0, 1], 0x64b0a8c0), some ([2, 0, 0, 0, 0, 1], 0x64b0a8c0), none])) =
      true := by decide +kernel
  obtain ⟨⟨s, given⟩, hr, hgiven⟩ := (Option.any_eq_true _ _).mp hrun
  refine ⟨s, given, hr, of_decide_eq_true hgiven, ?_⟩
  exact given_once 0x01b0a8c0 0x00ffffff 0x01b0a8c0 3600 false _ (by decide +kernel)
    (Machine.legal_of_check (by decide +kernel)) s given hr

/-- Eight clients fill the cache; two more ask for 192.168.176.200, and both get it. -/
theorem address_given_twice :
    ¬ ∀ (myIp netmask routerIp : Ip) (timeout : BitVec 32) (nack : Bool) (is : List Received)
      (s : DhcpServerData) (given : List (Option (Mac × Ip))), (∀ i ∈ is, WellFormed i) →
      Machine.run serve (dhcpServerInit myIp netmask routerIp timeout nack) is = some (s, given) →
      ∀ mac mac' ip, some (mac, ip) ∈ given → some (mac', ip) ∈ given → mac = mac' := by
  intro h
  have hrun : (Machine.run serve (dhcpServerInit 0x01b0a8c0 0x00ffffff 0x01b0a8c0 3600 false)
      ([1, 2, 3, 4, 5, 6, 7, 8].map (fun n => discoverFrom [2, 0, 0, 0, 0, n]) ++
        [requestFrom [2, 0, 0, 0, 0, 9] 200, requestFrom [2, 0, 0, 0, 0, 10] 200])).any
      (fun r => decide (some ([2, 0, 0, 0, 0, 9], 0xc8b0a8c0) ∈ r.2 ∧
        some ([2, 0, 0, 0, 0, 10], 0xc8b0a8c0) ∈ r.2)) = true := by decide +kernel
  obtain ⟨⟨s, given⟩, hr, hgiven⟩ := (Option.any_eq_true _ _).mp hrun
  obtain ⟨h9, h10⟩ := of_decide_eq_true hgiven
  have heq := h _ _ _ _ _ _ s given (by decide +kernel) hr _ _ _ h9 h10
  exact absurd heq (by decide)

end TuyaSdk.DhcpServer
