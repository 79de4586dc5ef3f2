import TuyaSdk.DhcpServer.Defs

/-!
# The lease cache of the DHCP server

`CacheOk` is what holds of the cache in every state of the server: each lease is an
address that a client may have, no address is leased twice, and no client has two leases.
Every way an entry gets into the cache keeps it (`CacheOk.acAdd`).
-/

namespace TuyaSdk.DhcpServer
open TuyaSdk.Lib

/-! ## Byte order -/

theorem getLsbD_ntohl (x : BitVec 32) (i : Nat) :
    (ntohl x).getLsbD i = (decide (i < 32) && x.getLsbD (8 * (3 - i / 8) + i % 8)) := by
  simp only [ntohl, BitVec.getLsbD_append, BitVec.getLsbD_extractLsb']
  grind

@[simp] theorem ntohl_ntohl (x : BitVec 32) : ntohl (ntohl x) = x := by
  apply BitVec.eq_of_getLsbD_eq
  intro i hi
  have hj : 8 * (3 - i / 8) + i % 8 < 32 := by omega
  rw [getLsbD_ntohl, getLsbD_ntohl, decide_eq_true hi, decide_eq_true hj, Bool.true_and,
    Bool.true_and]
  congr 1
  omega

theorem ntohl_inj {x y : BitVec 32} : ntohl x = ntohl y ↔ x = y := by
  constructor
  · intro h
    rw [← ntohl_ntohl x, h, ntohl_ntohl]
  · intro h
    rw [h]

theorem ntohl_and (x y : BitVec 32) : ntohl (x &&& y) = ntohl x &&& ntohl y := by
  apply BitVec.eq_of_getLsbD_eq
  intro i hi
  simp only [getLsbD_ntohl, BitVec.getLsbD_and, decide_eq_true hi, Bool.true_and]

theorem ntohl_or (x y : BitVec 32) : ntohl (x ||| y) = ntohl x ||| ntohl y := by
  apply BitVec.eq_of_getLsbD_eq
  intro i hi
  simp only [getLsbD_ntohl, BitVec.getLsbD_or, decide_eq_true hi, Bool.true_and]

/-! ## Addresses a client may have -/

variable {s s' : DhcpServerData} {mac : Mac} {a ip : Ip}

/-- The network address. -/
def networkIp (s : DhcpServerData) : Ip := s.myIp &&& s.netmask

/-- The broadcast address. -/
def broadcastIp (s : DhcpServerData) : Ip := s.myIp ||| (0xffffffff &&& ~~~s.netmask)

/-- `a` is in the subnet of the server. -/
def InSubnet (s : DhcpServerData) (a : Ip) : Prop := a &&& s.netmask = s.myIp &&& s.netmask

instance (s : DhcpServerData) (a : Ip) : Decidable (InSubnet s a) :=
  inferInstanceAs (Decidable (_ = _))

/-- `a` is an address of the subnet that can be a client's. -/
structure Assignable (s : DhcpServerData) (a : Ip) : Prop where
  inSubnet : InSubnet s a
  ne_myIp : a ≠ s.myIp
  ne_network : a ≠ networkIp s
  ne_broadcast : a ≠ broadcastIp s

theorem Assignable.ne_zero (h : Assignable s a) : a ≠ clientIpNotFound := by
  intro ha
  apply h.ne_network
  have hzero : clientIpNotFound &&& s.netmask = clientIpNotFound := BitVec.zero_and
  have hsub : a &&& s.netmask = s.myIp &&& s.netmask := h.inSubnet
  rw [ha, hzero] at hsub
  rw [ha, hsub, networkIp]

/-- The two addresses of the server that decide what it may give out are the same. -/
structure SameNet (s s' : DhcpServerData) : Prop where
  netmask : s'.netmask = s.netmask
  myIp : s'.myIp = s.myIp

theorem SameNet.refl (s : DhcpServerData) : SameNet s s := ⟨rfl, rfl⟩

theorem SameNet.trans {s₁ s₂ s₃ : DhcpServerData} (h : SameNet s₁ s₂) (h' : SameNet s₂ s₃) :
    SameNet s₁ s₃ := ⟨h'.netmask.trans h.netmask, h'.myIp.trans h.myIp⟩

theorem SameNet.inSubnet (h : SameNet s s') : InSubnet s' a ↔ InSubnet s a := by
  rw [InSubnet, InSubnet, h.netmask, h.myIp]

theorem SameNet.assignable (h : SameNet s s') : Assignable s' a ↔ Assignable s a := by
  constructor
  · intro ⟨h1, h2, h3, h4⟩
    rw [h.inSubnet] at h1
    rw [h.myIp] at h2
    rw [networkIp, h.myIp, h.netmask] at h3
    rw [broadcastIp, h.myIp, h.netmask] at h4
    exact ⟨h1, h2, h3, h4⟩
  · intro ⟨h1, h2, h3, h4⟩
    refine ⟨h.inSubnet.mpr h1, ?_, ?_, ?_⟩
    · rwa [h.myIp]
    · rwa [networkIp, h.myIp, h.netmask]
    · rwa [broadcastIp, h.myIp, h.netmask]

/-! ## Lookups -/

/-- No lease has the address `a`. -/
def Unleased (s : DhcpServerData) (a : Ip) : Prop := ∀ e ∈ s.leases, e.clientIp ≠ a

theorem acLookupIp_isSome : (acLookupIp s a).isSome ↔ ¬ Unleased s a := by
  simp [acLookupIp, Unleased, List.find?_isSome]

theorem acValidIp_iff : acValidIp s (ntohl a) = true ↔
    a ≠ s.myIp ∧ a ≠ networkIp s ∧ a ≠ broadcastIp s ∧ Unleased s a := by
  have hfound : (acLookupIp s (htonl (ntohl a))).isSome = true ↔ ¬ Unleased s a := by
    rw [htonl, ntohl_ntohl]
    exact acLookupIp_isSome
  simp only [acValidIp, ntohl_inj, hfound]
  by_cases h : a = s.myIp ∨ a = s.myIp &&& s.netmask ∨
    a = s.myIp ||| (0xffffffff &&& ~~~s.netmask)
  · rw [if_pos h]
    simp only [Bool.false_eq_true, false_iff]
    intro ⟨h1, h2, h3, _⟩
    rcases h with h | h | h
    · exact h1 h
    · exact h2 h
    · exact h3 h
  · rw [if_neg h]
    by_cases hu : Unleased s a
    · rw [if_neg fun hs => hfound.mp hs hu]
      simp only [not_or] at h
      exact ⟨fun _ => ⟨h.1, h.2.1, h.2.2, hu⟩, fun _ => rfl⟩
    · rw [if_pos (hfound.mpr hu)]
      exact ⟨fun h => (Bool.false_ne_true h).elim, fun h => (hu h.2.2.2).elim⟩

/-- An address of the subnet that the server takes for a new client. -/
def Fits (s : DhcpServerData) (a : Ip) : Prop := InSubnet s a ∧ acValidIp s (ntohl a) = true

instance (s : DhcpServerData) (a : Ip) : Decidable (Fits s a) :=
  inferInstanceAs (Decidable (_ ∧ _))

theorem fits_iff : Fits s a ↔ Assignable s a ∧ Unleased s a := by
  rw [Fits, acValidIp_iff]
  constructor
  · intro ⟨h1, h2, h3, h4, h5⟩
    exact ⟨⟨h1, h2, h3, h4⟩, h5⟩
  · intro ⟨⟨h1, h2, h3, h4⟩, h5⟩
    exact ⟨h1, h2, h3, h4, h5⟩

theorem Unleased.congr (h : s'.leases = s.leases) : Unleased s' a ↔ Unleased s a := by
  rw [Unleased, Unleased, h]

theorem acLookupMac_congr (h : s'.leases = s.leases) (mac : Mac) :
    acLookupMac s' mac = acLookupMac s mac := by
  rw [acLookupMac, acLookupMac, h]

/-! ## The invariant -/

/-- The invariant of the lease cache. -/
structure CacheOk (s : DhcpServerData) : Prop where
  assignable : ∀ e ∈ s.leases, Assignable s e.clientIp
  ips : (s.leases.map ClientMacCache.clientIp).Nodup
  macs : (s.leases.map ClientMacCache.clientMac).Nodup

theorem CacheOk.congr (h : CacheOk s) (hn : SameNet s s') (hl : s'.leases = s.leases) :
    CacheOk s' := by
  constructor
  · intro e he
    rw [hl] at he
    exact hn.assignable.mpr (h.assignable e he)
  · rw [hl]
    exact h.ips
  · rw [hl]
    exact h.macs

/-- The client of a lease is found by its hardware address. -/
theorem CacheOk.lookup_of_mem (h : CacheOk s) (he : ⟨mac, ip⟩ ∈ s.leases) :
    acLookupMac s mac = ip := by
  cases hf : s.leases.find? fun e => decide (e.clientMac = mac) with
  | none =>
    have hmac := List.find?_eq_none.mp hf _ he
    simp at hmac
  | some e =>
    have hmac : e.clientMac = mac := by simpa using List.find?_some hf
    have heq := List.inj_on_of_nodup_map h.macs (List.mem_of_find?_eq_some hf) he hmac
    rw [acLookupMac, hf, heq]

theorem lookup_mem (hl : acLookupMac s mac ≠ clientIpNotFound) :
    ⟨mac, acLookupMac s mac⟩ ∈ s.leases := by
  cases hf : s.leases.find? fun e => decide (e.clientMac = mac) with
  | none =>
    rw [acLookupMac, hf] at hl
    exact absurd rfl hl
  | some e =>
    have hmac : e.clientMac = mac := by simpa using List.find?_some hf
    rw [acLookupMac, hf, ← hmac]
    exact List.mem_of_find?_eq_some hf

/-- A client that is not found has no lease. -/
theorem CacheOk.no_lease (h : CacheOk s) (hl : acLookupMac s mac = clientIpNotFound) :
    ∀ e ∈ s.leases, e.clientMac ≠ mac := by
  intro e he hmac
  have hip : acLookupMac s mac = e.clientIp := h.lookup_of_mem (hmac ▸ he)
  exact (h.assignable e he).ne_zero (hip.symm.trans hl)

/-- A leased address belongs to one client. -/
theorem CacheOk.same_client (h : CacheOk s) {mac' : Mac} (h1 : ⟨mac, ip⟩ ∈ s.leases)
    (h2 : ⟨mac', ip⟩ ∈ s.leases) : mac = mac' :=
  congrArg ClientMacCache.clientMac (List.inj_on_of_nodup_map h.ips h1 h2 rfl)

/-! ## New leases -/

theorem acAdd_sameNet (s : DhcpServerData) (mac : Mac) (ip : Ip) :
    SameNet s (acAdd s mac ip).1 := by
  rw [acAdd]
  split
  · exact ⟨rfl, rfl⟩
  · exact SameNet.refl s

theorem acAdd_clientIp (s : DhcpServerData) (mac : Mac) (ip : Ip) :
    (acAdd s mac ip).1.clientIp = s.clientIp := by
  rw [acAdd]
  split <;> rfl

theorem acAdd_leases (h : acNotFull s = true) (mac : Mac) (ip : Ip) :
    (acAdd s mac ip).1.leases = s.leases ++ [⟨mac, ip⟩] := by
  rw [acAdd, dif_pos (of_decide_eq_true h)]
  rfl

theorem acAdd_of_full (h : acNotFull s = false) (mac : Mac) (ip : Ip) :
    (acAdd s mac ip).1 = s := by
  rw [acAdd, dif_neg (of_decide_eq_false h)]

/-- A free address may be leased to a client that has none. -/
theorem CacheOk.acAdd (h : CacheOk s) (hl : acLookupMac s mac = clientIpNotFound)
    (ha : Fits s ip) : CacheOk (acAdd s mac ip).1 := by
  cases hfull : acNotFull s with
  | false =>
    rw [acAdd_of_full hfull]
    exact h
  | true =>
    obtain ⟨hassign, hun⟩ := fits_iff.mp ha
    have hnet := acAdd_sameNet s mac ip
    have hleases := acAdd_leases hfull mac ip
    constructor
    · intro e he
      rw [hleases, List.mem_append, List.mem_singleton] at he
      rcases he with he | rfl
      · exact hnet.assignable.mpr (h.assignable e he)
      · exact hnet.assignable.mpr hassign
    · rw [hleases, List.map_append, List.map_singleton, List.nodup_append]
      refine ⟨h.ips, List.nodup_singleton _, ?_⟩
      intro x hx y hy
      obtain ⟨e, he, rfl⟩ := List.mem_map.mp hx
      rw [List.mem_singleton.mp hy]
      exact hun e he
    · rw [hleases, List.map_append, List.map_singleton, List.nodup_append]
      refine ⟨h.macs, List.nodup_singleton _, ?_⟩
      intro x hx y hy
      obtain ⟨e, he, rfl⟩ := List.mem_map.mp hx
      rw [List.mem_singleton.mp hy]
      exact h.no_lease hl e he

/-- The new client is found. -/
theorem lookup_acAdd (hfull : acNotFull s = true) (hl : ∀ e ∈ s.leases, e.clientMac ≠ mac) :
    acLookupMac (acAdd s mac ip).1 mac = ip := by
  have hnone : s.leases.find? (fun e => decide (e.clientMac = mac)) = none := by
    rw [List.find?_eq_none]
    intro e he
    simpa using hl e he
  rw [acLookupMac, acAdd_leases hfull, List.find?_append, hnone]
  simp

/-! ## The next address -/

theorem inSubnet_succIp (s : DhcpServerData) (current : BitVec 32) :
    InSubnet s (htonl (succIp s current)) := by
  rw [InSubnet, succIp, htonl, ntohl_or, ntohl_ntohl, ntohl_and, ntohl_ntohl]
  apply BitVec.eq_of_getLsbD_eq
  intro i hi
  simp only [BitVec.getLsbD_and, BitVec.getLsbD_or, BitVec.getLsbD_not, decide_eq_true hi,
    Bool.true_and]
  cases s.netmask.getLsbD i <;> simp

/-- An address that the search of `next_yiaddr` ends with is free. -/
theorem nextIpPass_fits {n : Nat} {current r : BitVec 32} (hs : InSubnet s (htonl current))
    (h : Loop.run (nextIpPass s) n current = some r) : Fits s (htonl r) := by
  refine Loop.run_post (I := fun c => InSubnet s (htonl c)) (Q := fun r => Fits s (htonl r))
    ?_ ?_ hs h
  · intro c r hc hb
    rw [nextIpPass] at hb
    split at hb
    next hv =>
      cases hb
      exact ⟨hc, by rwa [htonl, ntohl_ntohl]⟩
    next => cases hb
  · intro c c' _ hb
    rw [nextIpPass] at hb
    split at hb
    next => cases hb
    next =>
      cases hb
      exact inSubnet_succIp s c

/-- `next_yiaddr` gives the address of the client's lease, or a free one that it leases to
the client when there is room. -/
theorem nextYiaddr_cases (h : nextYiaddr s mac = some (s', ip)) :
    (acLookupMac s mac = ip ∧ ip ≠ clientIpNotFound ∧ s' = s) ∨
    (acLookupMac s mac = clientIpNotFound ∧ Fits s ip ∧
      ∃ current, s' = (acAdd { s with currentIp := current } mac ip).1) := by
  unfold nextYiaddr at h
  simp only at h
  split at h
  next hl =>
    obtain ⟨r, hr, heq⟩ := Option.map_eq_some_iff.mp h
    cases heq
    exact .inr ⟨hl, nextIpPass_fits (inSubnet_succIp s _) hr, r, rfl⟩
  next hl =>
    cases h
    exact .inl ⟨rfl, hl, rfl⟩

end TuyaSdk.DhcpServer
