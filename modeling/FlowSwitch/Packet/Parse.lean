import FlowSwitch.Packet.Headers

/-!
# Reading headers from bytes

Only a frame too short for an Ethernet header is refused. Past that header a
layer that is cut short, malformed or unknown is left out, and so are the layers
above it. Each reader looks at the bytes from its own offset on, and no reader
above the network layer looks past the end of the IP datagram.
-/

namespace FlowSwitch

inductive ParseError
  | empty
  | truncated (actual : Nat)
  deriving DecidableEq, Repr

namespace ParseError

/-- The length of an Ethernet header. -/
def required : Nat := 14

def message : ParseError → String
  | empty => "empty frame"
  | truncated actual =>
    s!"truncated ethernet header: expected at least {required} bytes, got {actual}"

end ParseError

namespace Parse

/-- Where the walk over length fields, SNAP headers and VLAN tags ends. `payload` is absent
when the last VLAN tag is cut short. -/
structure EtherEnd where
  ethType : BitVec 16
  framing : Framing
  vlan : Option VlanTag
  payload : Option Nat
  deriving DecidableEq, Repr

/-- Walks from an ethertype `t` whose successor bytes `rest` start at `offset`. Only the first
VLAN tag is recorded. -/
def etherTags (t : BitVec 16) (offset : Nat) (framing : Framing) (vlan : Option VlanTag)
    (rest : Bytes) : EtherEnd :=
  if t ≤ EtherType.maxLength then
    let llc : EtherEnd :=
      ⟨EtherType.notEtherType, { framing with llc := true }, vlan, some offset⟩
    match rest with
    | dsap :: ssap :: _ :: oui0 :: oui1 :: oui2 :: hi :: lo :: tail =>
      if dsap = 0xaa ∧ ssap = 0xaa ∧ oui0 = 0 ∧ oui1 = 0 ∧ oui2 = 0 ∧ tail ≠ [] then
        etherTags (hi.toBitVec ++ lo.toBitVec) (offset + 8) { framing with snap := true } vlan tail
      else llc
    | _ => llc
  else
    let framing := { framing with ethernet2 := true }
    if EtherType.isVlan t then
      match rest with
      | tciHi :: tciLo :: hi :: lo :: tail =>
        let tag : VlanTag := ⟨offset - 2, t, tciHi.toBitVec ++ tciLo.toBitVec⟩
        etherTags (hi.toBitVec ++ lo.toBitVec) (offset + 4) framing (vlan.or (some tag)) tail
      | _ => ⟨t, framing, vlan, none⟩
    else ⟨t, framing, vlan, some offset⟩

def arp? (d : Bytes) (offset : Nat) : Option ArpHeader :=
  if d.length < offset + 28 then none else
    some {
      offset
      op := d.word 2 (offset + 6)
      senderMac := d.word 6 (offset + 8)
      senderIp := d.word 4 (offset + 14)
      targetMac := d.word 6 (offset + 18)
      targetIp := d.word 4 (offset + 24) }

/-- The offset after the label stack whose entries are the bytes `rest` from `offset` on, and
the bytes there. Absent if no entry has the bottom-of-stack bit. -/
def labelStackEnd (offset : Nat) : Bytes → Option (Nat × Bytes)
  | _ :: _ :: tcBos :: _ :: rest =>
    if tcBos &&& 1 != 0 then some (offset + 4, rest) else labelStackEnd (offset + 4) rest
  | _ => none

def icmpv6 (d : Bytes) (offset stop : Nat) : Icmpv6Header :=
  let type := d.byte offset
  let code := d.byte (offset + 1)
  let option := offset + 24
  let optionType : BitVec 8 := if type == Icmpv6Header.neighborSolicitation then 1 else 2
  if type == Icmpv6Header.neighborSolicitation || type == Icmpv6Header.neighborAdvertisement then
    { type, code
      target := if offset + 24 ≤ stop then d.word 16 (offset + 8) else 0
      linkLayer :=
        if offset + 32 ≤ stop && d.byte option == optionType && d.byte (option + 1) == 1 then
          d.word 6 (option + 2)
        else 0 }
  else { type, code, target := 0, linkLayer := 0 }

/-- The transport header of protocol `ip.proto` at `offset`, with its length. -/
def transportHeader? (d : Bytes) (ip : IpHeader) (offset : Nat) : Option (TransportHeader × Nat) :=
  let available := ip.stop - offset
  let src := d.word 2 offset
  let dst := d.word 2 (offset + 2)
  if ip.proto = IpProtocol.tcp then
    let length := (d.byte (offset + 12) >>> 4).toNat * 4
    if available < 20 || length < 20 || available < length then none
    else some (.tcp src dst, length)
  else if ip.proto = IpProtocol.udp then
    if available < 8 then none else some (.udp src dst, 8)
  else if ip.proto = IpProtocol.sctp then
    if available < 12 then none else some (.sctp src dst, 12)
  else if ip.proto = IpProtocol.icmp && ip.isV4 then
    if available < 4 then none else some (.icmpv4 (d.byte offset) (d.byte (offset + 1)), 4)
  else if ip.proto = IpProtocol.icmpv6 && ip.isV6 then
    if available < 4 then none else some (.icmpv6 (icmpv6 d offset ip.stop), 4)
  else none

def transport? (d : Bytes) (ip : IpHeader) (offset : Nat) : Option Transport :=
  (transportHeader? d ip offset).map fun (header, length) =>
    { offset, header
      payload := if offset + length < ip.stop then some (offset + length) else none }

/-- A header and where the next layer starts, if it can be read. -/
abbrev WithPayload (α : Type) := α × Option Nat

/-- An IPv4 header. A fragment other than the first has no next layer. -/
def ipv4? (d : Bytes) (offset : Nat) : Option (WithPayload IpHeader) :=
  let length := (d.byte offset &&& 0x0f).toNat * 4
  if d.length < offset + 20 || length < 20 || d.length < offset + length then none else
    let total := (d.word 2 (offset + 2)).toNat
    let tos := d.byte (offset + 1)
    let header : IpHeader := {
      offset
      stop := if length ≤ total then min (offset + total) d.length else d.length
      dscp := tos >>> 2
      ecn := tos &&& 3
      ttl := d.byte (offset + 8)
      proto := d.byte (offset + 9)
      version := .v4 (d.word 4 (offset + 12)) (d.word 4 (offset + 16)) }
    let fragment := d.word 2 (offset + 6) &&& 0x1fff
    some (header, if fragment = 0 then some (offset + length) else none)

/-- The extension headers that a header chain continues after. -/
inductive Extension
  | hop | dest | router | fragment | auth
  deriving DecidableEq, Repr

namespace Extension

def ofProtocol? (proto : BitVec 8) : Option Extension :=
  if proto = 0 then some hop
  else if proto = 60 then some dest
  else if proto = 43 then some router
  else if proto = 44 then some fragment
  else if proto = 51 then some auth
  else none

/-- The length in bytes of an extension header whose length field is `field`. -/
def length : Extension → BitVec 8 → Nat
  | fragment, _ => 8
  | auth, field => (field.toNat + 2) * 4
  | _, field => (field.toNat + 1) * 8

def mark (seen : Extensions) : Extension → Extensions
  | hop => { seen with hop := true, repeated := seen.repeated || seen.hop }
  | dest => { seen with dest := true }
  | router => { seen with router := true, repeated := seen.repeated || seen.router }
  | fragment => { seen with fragment := true, repeated := seen.repeated || seen.fragment }
  | auth => { seen with auth := true, repeated := seen.repeated || seen.auth }

theorem length_ge (e : Extension) (field : BitVec 8) : 8 ≤ e.length field := by
  cases e <;> simp only [length] <;> omega

end Extension

/-- Where a chain of extension headers ends: the headers met, the protocol number reached, and
the offset after the chain if the chain did not end early. -/
structure ChainEnd where
  seen : Extensions
  proto : BitVec 8
  payload : Option Nat
  deriving DecidableEq, Repr

/-- Walks the chain from protocol number `proto`, whose header is the bytes `rest` from `offset`
on. Encrypted payload, "no next header" and a cut header end the chain early. -/
def extensionChain (proto : BitVec 8) (offset : Nat) (seen : Extensions) (rest : Bytes) :
    ChainEnd :=
  if proto = 50 then ⟨{ seen with esp := true }, proto, none⟩
  else if proto = 59 then ⟨{ seen with noNext := true }, proto, none⟩
  else
    match Extension.ofProtocol? proto with
    | none => ⟨seen, proto, some offset⟩
    | some e =>
      match rest with
      | next :: field :: tail =>
        let length := e.length field.toBitVec
        extensionChain next.toBitVec (offset + length) (e.mark seen) (tail.drop (length - 2))
      | _ => ⟨e.mark seen, proto, none⟩
termination_by rest.length

def ipv6? (d : Bytes) (offset : Nat) : Option (WithPayload IpHeader) :=
  if d.length < offset + 40 then none else
    let control := d.word 4 offset
    let trafficClass : BitVec 8 := (control >>> 20).setWidth 8
    let chain := extensionChain (d.byte (offset + 6)) (offset + 40) {} (d.drop (offset + 40))
    let header : IpHeader := {
      offset
      stop := min (offset + 40 + (d.word 2 (offset + 4)).toNat) d.length
      dscp := trafficClass >>> 2
      ecn := trafficClass &&& 3
      ttl := d.byte (offset + 7)
      proto := chain.proto
      version := .v6 (d.word 16 (offset + 8)) (d.word 16 (offset + 24))
        (control &&& 0x000fffff) chain.seen }
    some (header, chain.payload)

/-- The layers above Ethernet. -/
structure Upper where
  mpls : Option MplsEntry := none
  pbb : Option PbbTag := none
  network : Option Network := none
  transport : Option Transport := none
  deriving DecidableEq, Repr

/-- An IP header together with the transport header it leads to. -/
def ipUpper (d : Bytes) : Option (WithPayload IpHeader) → Upper
  | none => {}
  | some (ip, next) =>
    { network := some (.ip ip), transport := next.bind (transport? d ip) }

/-- An MPLS stack. What follows its last entry is taken for IP by the first nibble. -/
def mplsUpper (d : Bytes) (offset : Nat) : Upper :=
  match d.word? 4 offset with
  | none => {}
  | some word =>
    let inner : Upper :=
      match labelStackEnd offset (d.drop offset) with
      | some (next, first :: _) =>
        if first >>> 4 = 4 then ipUpper d (ipv4? d next)
        else if first >>> 4 = 6 then ipUpper d (ipv6? d next)
        else {}
      | _ => {}
    { inner with mpls := some ⟨offset, word⟩ }

/-- The layers above Ethernet for ethertype `t`, starting at `offset`. -/
def upper (d : Bytes) (t : BitVec 16) (offset : Nat) : Upper :=
  if t = EtherType.arp then { network := (arp? d offset).map .arp }
  else if t = EtherType.ipv4 then ipUpper d (ipv4? d offset)
  else if t = EtherType.ipv6 then ipUpper d (ipv6? d offset)
  else if EtherType.isMpls t then mplsUpper d offset
  else if t = EtherType.pbb then
    { pbb := (d.word? 4 offset).map fun tci => ⟨offset, tci &&& 0x00ffffff⟩ }
  else {}

end Parse

namespace Headers

/-- The headers of the frame `d`. -/
def parse (d : Bytes) : Except ParseError Headers :=
  if d.length = 0 then .error .empty
  else if d.length < ParseError.required then .error (.truncated d.length)
  else
    let ether := Parse.etherTags (d.word 2 12) 14 {} none (d.drop 14)
    let payload := ether.payload.filter (· < d.length)
    let upper := (payload.map (Parse.upper d ether.ethType)).getD {}
    .ok {
      length := d.length
      ethDst := d.word 6 0
      ethSrc := d.word 6 6
      ethType := ether.ethType
      framing := ether.framing
      vlan := ether.vlan
      payload
      mpls := upper.mpls
      pbb := upper.pbb
      network := upper.network
      transport := upper.transport }

end Headers

end FlowSwitch
