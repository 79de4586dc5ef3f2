import TuyaSdk.Lib.Bytes
import TuyaSdk.Lib.Loop

/-!
# The DHCP server

`dhcp-server.c`: the lease cache `ip_mac_mapping`, the search for the next address, and
`process_dhcp_message` on the bytes of the receive buffer. A message is the whole buffer, of
which the first `len` bytes have been received. Addresses are words as a little-endian CPU
loads them from the message, so network order is the reverse of the order `ntohl` gives.

`none` is a call that does not return: the search of `next_yiaddr` over a subnet without a
valid address.
-/

namespace TuyaSdk.DhcpServer
open TuyaSdk.Lib

abbrev bootpOpRequest : Byte := 1
abbrev bootpOpResponse : Byte := 2

abbrev bootpOptionSubnetMask : Byte := 1
abbrev bootpOptionRouter : Byte := 3
abbrev bootpOptionNameserver : Byte := 6
abbrev bootpOptionRequestedIp : Byte := 50
abbrev bootpOptionAddressTime : Byte := 51
abbrev bootpOptionDhcpMessage : Byte := 53
abbrev bootpOptionDhcpServerId : Byte := 54
abbrev bootpEndOption : Byte := 0xFF

abbrev dhcpMessageDiscover : Byte := 1
abbrev dhcpMessageOffer : Byte := 2
abbrev dhcpMessageRequest : Byte := 3
abbrev dhcpMessageAck : Byte := 5
abbrev dhcpMessageNak : Byte := 6
abbrev dhcpNoResponse : Byte := 255

/-- `MAC_IP_CACHE_SIZE`. -/
abbrev macIpCacheSize : Nat := 8

/-- An IPv4 address in network order. -/
abbrev Ip := BitVec 32

/-- `CLIENT_IP_NOT_FOUND`. -/
abbrev clientIpNotFound : Ip := 0

/-- A hardware address, six bytes. -/
abbrev Mac := List Byte

/-- `ntohl`, which is also `htonl`: the four bytes in reverse order. -/
def ntohl (x : BitVec 32) : BitVec 32 :=
  x.extractLsb' 0 8 ++ x.extractLsb' 8 8 ++ x.extractLsb' 16 8 ++ x.extractLsb' 24 8

/-- `htonl`. -/
def htonl (x : BitVec 32) : BitVec 32 := ntohl x

/-! ## The lease cache -/

/-- `struct client_mac_cache`. -/
structure ClientMacCache where
  clientMac : Mac
  clientIp : Ip
  deriving DecidableEq, Repr

/-- `ip_mac_mapping` up to `count_clients`. -/
structure IpMacMapping where
  entries : List ClientMacCache
  bounded : entries.length ≤ macIpCacheSize

/-- `struct dhcp_server_data` without sockets and buffer, and the two statics that go into
a response. -/
structure DhcpServerData where
  ipMacMapping : IpMacMapping
  netmask : Ip
  myIp : Ip
  clientIp : Ip
  currentIp : BitVec 32
  routerIp : Ip
  dhcpAddressTimeout : BitVec 32
  nackDnsServer : Bool

/-- The entries of the cache. -/
def DhcpServerData.leases (s : DhcpServerData) : List ClientMacCache := s.ipMacMapping.entries

/-- `ac_not_full`. -/
def acNotFull (s : DhcpServerData) : Bool := decide (s.leases.length < macIpCacheSize)

/-- `ac_add`; the flag is set when there is no room. -/
def acAdd (s : DhcpServerData) (chaddr : Mac) (clientIp : Ip) : DhcpServerData × Bool :=
  if h : s.leases.length < macIpCacheSize then
    ({ s with
        ipMacMapping := ⟨s.leases ++ [⟨chaddr, clientIp⟩], by
          rw [List.length_append]
          exact h⟩ }, false)
  else (s, true)

/-- `ac_lookup_mac`. -/
def acLookupMac (s : DhcpServerData) (chaddr : Mac) : Ip :=
  match s.leases.find? fun e => e.clientMac = chaddr with
  | some e => e.clientIp
  | none => clientIpNotFound

/-- `ac_lookup_ip`; `none` is the NULL return. -/
def acLookupIp (s : DhcpServerData) (clientIp : Ip) : Option Mac :=
  (s.leases.find? fun e => e.clientIp = clientIp).map ClientMacCache.clientMac

/-- `ac_valid_ip`. -/
def acValidIp (s : DhcpServerData) (requestedIp : BitVec 32) : Bool :=
  if requestedIp = ntohl s.myIp ∨ requestedIp = ntohl (s.myIp &&& s.netmask) ∨
      requestedIp = ntohl (s.myIp ||| (0xffffffff &&& ~~~s.netmask)) then false
  else if (acLookupIp s (htonl requestedIp)).isSome then false
  else true

/-! ## The next address -/

/-- The address after `current` in the subnet, in host order. -/
def succIp (s : DhcpServerData) (current : BitVec 32) : BitVec 32 :=
  ntohl (s.myIp &&& s.netmask) ||| ((current + 1) &&& ntohl (~~~s.netmask))

/-- One pass of the search for a valid address, on `current_ip`. -/
def nextIpPass (s : DhcpServerData) (current : BitVec 32) : Pass (BitVec 32) (BitVec 32) :=
  if acValidIp s current then .exit current else .again (succIp s current)

/-- `next_yiaddr`. The loop depends on `current_ip` alone, so a search that has not ended
after `2 ^ 32` passes goes on forever. -/
def nextYiaddr (s : DhcpServerData) (chaddr : Mac) : Option (DhcpServerData × Ip) :=
  let newIp := acLookupMac s chaddr
  if newIp = clientIpNotFound then
    (Loop.run (nextIpPass s) (2 ^ 32) (succIp s s.currentIp)).map fun current =>
      ((acAdd { s with currentIp := current } chaddr (htonl current)).1, htonl current)
  else some (s, newIp)

/-! ## Messages -/

/-- `sizeof(struct bootp_header)`. -/
abbrev bootpHeaderSize : Nat := 240
/-- `sizeof(struct bootp_option)`, without the value. -/
abbrev bootpOptionSize : Nat := 2

/-- `hdr->chaddr`. -/
def chaddr (msg : Mem) : Mac := readBytes msg 28 6

/-- The address at offset `a`. -/
def readIp (msg : Mem) (a : Nat) : Ip := BitVec.ofNat 32 (read32 msg a)

/-- `hdr->ciaddr`. -/
def ciaddr (msg : Mem) : Ip := readIp msg 12

/-- `write_u32`, and a store to a `uint32_t` of the header. -/
def writeU32 (msg : Mem) (dest : Nat) (value : BitVec 32) : Mem := write32 msg dest value.toNat

/-- The four-byte option at offset `opt`. -/
def writeOption (msg : Mem) (opt : Nat) (type : Byte) (value : BitVec 32) : Mem :=
  write8 (writeU32 (write8 msg opt type) (opt + 2) value) (opt + 1) 4

/-- `make_response`: the message in the buffer is turned into the response, whose length is
returned. -/
def makeResponse (s : DhcpServerData) (msg : Mem) (type : Byte) :
    Option (DhcpServerData × Mem × Ip × Nat) :=
  let acked : Ip := if type = dhcpMessageAck then s.clientIp else 0
  (if type = dhcpMessageOffer then nextYiaddr s (chaddr msg) else some (s, acked)).map
    fun (s, yiaddr) =>
      let msg := write8 (write8 (write8 (write8 msg 0 bootpOpResponse) 1 1) 2 6) 3 0
      let msg := writeU32 (writeU32 msg 12 0) 16 yiaddr
      let msg := writeU32 (writeU32 msg 20 0) 24 0
      let msg := write8 (write8 (write8 msg 240 bootpOptionDhcpMessage) 242 type) 241 1
      if type = dhcpMessageNak then (s, msg, yiaddr, 243)
      else
        let msg := writeOption msg 243 bootpOptionSubnetMask s.netmask
        let msg := writeOption msg 249 bootpOptionAddressTime (htonl s.dhcpAddressTimeout)
        let msg := writeOption msg 255 bootpOptionDhcpServerId s.myIp
        let msg := writeOption msg 261 bootpOptionRouter s.routerIp
        let msg := writeOption msg 267 bootpOptionNameserver
          (if s.nackDnsServer then s.routerIp else 0)
        (s, write8 msg 273 bootpEndOption, yiaddr, 274)

/-- A datagram handed to the socket. -/
structure Datagram where
  dst : Ip
  payload : List Byte
  deriving DecidableEq, Repr

/-- The response to a message: its type, the address in it, and the datagrams that carry it. -/
structure Response where
  type : Byte
  yiaddr : Ip
  sent : List Datagram
  deriving DecidableEq, Repr

/-- The response goes to the address in it, when there is one, without the broadcast flag,
and three times to the broadcast address with it. -/
def sendResponses (msg : Mem) (yiaddr : Ip) (len : Nat) : List Datagram :=
  let unicast := if yiaddr ≠ 0 then write8 msg 10 (msg 10 &&& 0x7f) else msg
  let broadcast := write8 unicast 10 (unicast 10 ||| 0x80)
  (if yiaddr ≠ 0 then [⟨yiaddr, readBytes unicast 0 len⟩] else []) ++
    List.replicate 3 ⟨0xffffffff, readBytes broadcast 0 len⟩

/-! ## Parsing -/

/-- The variables of the option loop; `opt` is the offset of the option in the buffer. -/
structure ParseVars where
  server : DhcpServerData
  opt : Nat
  len : Int
  responseType : Byte
  needIp : Bool
  gotIp : Bool
  gotClientIp : Bool

/-- An address that the client asks for. -/
def ParseVars.giveClientIp (v : ParseVars) (ip : Ip) : ParseVars :=
  { v with server := { v.server with clientIp := ip }, gotClientIp := true }

/-- The `BOOTP_OPTION_DHCP_MESSAGE` branch. -/
def takeMessageType (msg : Mem) (v : ParseVars) : ParseVars :=
  if msg v.opt = bootpOptionDhcpMessage ∧ msg (v.opt + 1) = 1 then
    if msg (v.opt + 2) = dhcpMessageDiscover then { v with responseType := dhcpMessageOffer }
    else if msg (v.opt + 2) = dhcpMessageRequest then
      let v := { v with needIp := true }
      if ciaddr msg ≠ 0 then v.giveClientIp (ciaddr msg) else v
    else v
  else v

/-- The `BOOTP_OPTION_REQUESTED_IP` branch. -/
def takeRequestedIp (msg : Mem) (v : ParseVars) : ParseVars :=
  if msg v.opt = bootpOptionRequestedIp ∧ msg (v.opt + 1) = 4 then
    v.giveClientIp (readIp msg (v.opt + 2))
  else v

/-- The verdict on `dhcps.client_ip` for the client `mac`, with the lease it may add. An
address outside the subnet, or one that is not valid for a client without a lease, leaves
the verdict as it was. -/
def judge (mac : Mac) (server : DhcpServerData) (gotIp : Bool) : DhcpServerData × Bool :=
  if server.clientIp &&& server.netmask = server.myIp &&& server.netmask then
    let newIp := acLookupMac server mac
    if newIp ≠ clientIpNotFound then (server, decide (newIp = server.clientIp))
    else if acValidIp server (ntohl server.clientIp) then
      (if acNotFull server then (acAdd server mac server.clientIp).1 else server, true)
    else (server, gotIp)
  else (server, gotIp)

/-- The check of the requested address, made for every option once there is one. -/
def judgeClientIp (msg : Mem) (v : ParseVars) : ParseVars :=
  if v.gotClientIp then
    { v with
      server := (judge (chaddr msg) v.server v.gotIp).1
      gotIp := (judge (chaddr msg) v.server v.gotIp).2 }
  else v

/-- On to the next option. -/
def nextOption (msg : Mem) (v : ParseVars) : ParseVars :=
  let consumed := bootpOptionSize + (msg (v.opt + 1)).toNat
  { v with
    len := v.len - consumed
    opt := v.opt + consumed
    responseType :=
      if v.needIp then (if v.gotIp then dhcpMessageAck else dhcpMessageNak) else v.responseType }

/-- One pass of the option loop. -/
def optionPass (msg : Mem) (v : ParseVars) : Pass ParseVars ParseVars :=
  if v.len > 0 ∧ msg v.opt ≠ bootpEndOption then
    .again (nextOption msg (judgeClientIp msg (takeRequestedIp msg (takeMessageType msg v))))
  else .exit v

/-- The message has a complete header of a kind that is answered. -/
def HeaderOk (msg : Mem) (len : Nat) : Prop :=
  bootpHeaderSize + bootpOptionSize + 1 ≤ len ∧
    (msg 0 = bootpOpRequest ∨ msg 0 = bootpOpResponse) ∧ msg 1 = 1 ∧ msg 2 = 6

instance (msg : Mem) (len : Nat) : Decidable (HeaderOk msg len) :=
  inferInstanceAs (Decidable (_ ∧ _ ∧ _ ∧ _))

/-- The variables at the start of the option loop. -/
def startParse (s : DhcpServerData) (len : Nat) : ParseVars where
  server := s
  opt := bootpHeaderSize
  len := (len : Int) - bootpHeaderSize
  responseType := dhcpNoResponse
  needIp := false
  gotIp := false
  gotClientIp := false

/-- What `process_dhcp_message` returns, does and sends. -/
structure Outcome where
  ret : Int
  server : DhcpServerData
  response : Option Response

/-- `process_dhcp_message`. -/
def processDhcpMessage (s : DhcpServerData) (msg : Mem) (len : Nat) : Option Outcome :=
  if HeaderOk msg len then
    match Loop.run (optionPass msg) len (startParse s len) with
    | none => none
    | some v =>
      if v.responseType ≠ dhcpNoResponse then
        (makeResponse v.server msg v.responseType).map fun (s, msg, yiaddr, n) =>
          ⟨0, s, some ⟨v.responseType, yiaddr, sendResponses msg yiaddr n⟩⟩
      else some ⟨0, v.server, none⟩
  else some ⟨-1, s, none⟩

/-- `dhcp_server_init` on an interface with the address `myIp`. -/
def dhcpServerInit (myIp netmask routerIp : Ip) (timeout : BitVec 32) (nackDnsServer : Bool) :
    DhcpServerData where
  ipMacMapping := ⟨[], Nat.zero_le _⟩
  netmask := netmask
  myIp := myIp
  clientIp := 0
  currentIp := ntohl (myIp &&& netmask) ||| (99 &&& ntohl (~~~netmask))
  routerIp := routerIp
  dhcpAddressTimeout := timeout
  nackDnsServer := nackDnsServer

/-- A buffer that holds a request message of the client `mac` with the given options, without
an address in its header, in front of what the buffer held before. -/
def bootpMessage (mac : Mac) (options : List Byte) (before : Mem) : Mem :=
  storeBytes before ([bootpOpRequest, 1, 6, 0] ++ List.replicate 24 0 ++ mac ++
    List.replicate 206 0 ++ options)

end TuyaSdk.DhcpServer
