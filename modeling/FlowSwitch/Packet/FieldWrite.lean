import FlowSwitch.Checksum
import FlowSwitch.Crc32c
import FlowSwitch.Match.Basic
import FlowSwitch.Packet.Frame

/-!
# Writing header fields

A field is set in place, at the offset its header was found at, and the length
of the frame never changes. Checksums of IPv4, TCP, UDP and ICMP follow word by
word; the one of SCTP is computed again. A UDP datagram without a checksum stays
without one. A field that the frame does not carry is left alone.

All fields of a match are set by the headers read before the first of them.
-/

namespace FlowSwitch

namespace Bytes

def toWords : Bytes → List (BitVec 16)
  | hi :: lo :: rest => (hi.toBitVec ++ lo.toBitVec) :: toWords rest
  | _ => []

end Bytes

namespace FieldWrite

/-- Lets the checksums at `sums` follow a word that changed from `old` to `new`. -/
def adjust (sums : List Nat) (old new : BitVec 16) (d : Bytes) : Bytes :=
  sums.foldl
    (fun d at_ =>
      match d.word? 2 at_ with
      | some sum => d.overwrite at_ (Bytes.ofWord 2 (Checksum.update sum old new))
      | none => d)
    d

/-- Replaces whole words at `offset` and adjusts the checksums at `sums` for each word that
changed. -/
def patch (offset : Nat) (new : Bytes) (sums : List Nat) (d : Bytes) : Bytes :=
  match d.slice? offset new.length with
  | none => d
  | some old =>
    (old.toWords.zip new.toWords).foldl
      (fun d (o, n) => if o = n then d else adjust sums o n d)
      (d.overwrite offset new)

/-- Replaces the high byte of the word at `offset`. -/
def patchHigh (offset : Nat) (value : BitVec 8) (sums : List Nat) (d : Bytes) : Bytes :=
  match d.word? 2 offset with
  | some w => patch offset (Bytes.ofWord 2 ((w &&& 0x00ff) ||| (value.setWidth 16 <<< 8))) sums d
  | none => d

/-- Replaces the low byte of the word at `offset`. -/
def patchLow (offset : Nat) (value : BitVec 8) (sums : List Nat) (d : Bytes) : Bytes :=
  match d.word? 2 offset with
  | some w => patch offset (Bytes.ofWord 2 ((w &&& 0xff00) ||| value.setWidth 16)) sums d
  | none => d

/-- Replaces the bits under `mask` of the 32 bit word at `offset`. -/
def patchMasked (offset : Nat) (mask value : BitVec 32) (d : Bytes) : Bytes :=
  match d.word? 4 offset with
  | some w => patch offset (Bytes.ofWord 4 ((w &&& ~~~mask) ||| (value &&& mask))) [] d
  | none => d

/-- Where the IPv4 header checksum is. -/
def headerSum (ip : IpHeader) : List Nat := if ip.isV4 then [ip.offset + 10] else []

/-- Where the transport checksum is that also covers the IP addresses. -/
def pseudoHeaderSum (h : Headers) (d : Bytes) : List Nat :=
  match h.transport with
  | some ⟨offset, .tcp .., _⟩ => [offset + 16]
  | some ⟨offset, .udp .., _⟩ => if d.word 2 (offset + 6) = 0 then [] else [offset + 6]
  | some ⟨offset, .icmpv6 .., _⟩ => [offset + 2]
  | _ => []

def setVlan (h : Headers) (mask value : BitVec 16) (d : Bytes) : Bytes :=
  match h.vlan with
  | some tag => patch (tag.offset + 2) (Bytes.ofWord 2 ((tag.tci &&& ~~~mask) ||| value)) [] d
  | none => d

def setVlanId (h : Headers) (vid : BitVec 16) : Bytes → Bytes := setVlan h 0x0fff (vid &&& 0x0fff)

def setVlanPriority (h : Headers) (pcp : BitVec 8) : Bytes → Bytes :=
  setVlan h 0xe000 ((pcp &&& 7).setWidth 16 <<< 13)

/-- Replaces the bits under `mask` of the IPv4 type of service or the IPv6 traffic class. -/
def setTrafficClass (h : Headers) (mask value : BitVec 8) (d : Bytes) : Bytes :=
  match h.ip? with
  | none => d
  | some ip =>
    if ip.isV4 then
      let tos := (d.byte (ip.offset + 1) &&& ~~~mask) ||| (value &&& mask)
      patchLow ip.offset tos (headerSum ip) d
    else
      patchMasked ip.offset (mask.setWidth 32 <<< 20) (value.setWidth 32 <<< 20) d

def setDscp (h : Headers) (dscp : BitVec 8) (d : Bytes) : Bytes :=
  setTrafficClass h 0xfc (dscp <<< 2) d

/-- Behind IPv6 extension headers the protocol is left alone. -/
def setProtocol (h : Headers) (proto : BitVec 8) (d : Bytes) : Bytes :=
  match h.ip? with
  | none => d
  | some ip =>
    let follow := adjust (pseudoHeaderSum h d) (ip.proto.setWidth 16) (proto.setWidth 16)
    match ip.version with
    | .v4 .. => follow (patchLow (ip.offset + 8) proto (headerSum ip) d)
    | .v6 _ _ _ extensions =>
      if extensions = {} then follow (patchHigh (ip.offset + 6) proto [] d) else d

/-- Sets the IPv4 time to live or the IPv6 hop limit. -/
def setIpTtl (h : Headers) (ttl : BitVec 8) (d : Bytes) : Bytes :=
  match h.ip? with
  | none => d
  | some ip =>
    if ip.isV4 then patchHigh (ip.offset + 8) ttl (headerSum ip) d
    else patchLow (ip.offset + 6) ttl [] d

def setIpv4Address (h : Headers) (position : Nat) (address : Ipv4Address) (d : Bytes) : Bytes :=
  match h.ip? with
  | some ip =>
    if ip.isV4 then
      patch (ip.offset + position) (Bytes.ofWord 4 address) (headerSum ip ++ pseudoHeaderSum h d) d
    else d
  | none => d

def setIpv6Address (h : Headers) (position : Nat) (address : Ipv6Address) (d : Bytes) : Bytes :=
  match h.ip? with
  | some ip =>
    if ip.isV6 then patch (ip.offset + position) (Bytes.ofWord 16 address) (pseudoHeaderSum h d) d
    else d
  | none => d

def setFlowLabel (h : Headers) (label : BitVec 32) (d : Bytes) : Bytes :=
  match h.ip? with
  | some ip => if ip.isV6 then patchMasked ip.offset 0x000fffff label d else d
  | none => d

/-- Sets one of the ports of the transport header at `offset`. -/
def setPort (h : Headers) (offset position : Nat) (port : BitVec 16) (d : Bytes) : Bytes :=
  patch (offset + position) (Bytes.ofWord 2 port) (pseudoHeaderSum h d) d

/-- Computes the checksum of the SCTP packet at `offset` again. -/
def updateSctp (h : Headers) (offset : Nat) (d : Bytes) : Bytes :=
  let stop := min h.networkStop d.length
  if offset ≤ stop then
    d.overwrite (offset + 8) (Crc32c.sctp ((d.drop offset).take (stop - offset)))
  else d

def setTcpPort (h : Headers) (position : Nat) (port : BitVec 16) (d : Bytes) : Bytes :=
  match h.transport with
  | some ⟨offset, .tcp .., _⟩ => setPort h offset position port d
  | _ => d

def setUdpPort (h : Headers) (position : Nat) (port : BitVec 16) (d : Bytes) : Bytes :=
  match h.transport with
  | some ⟨offset, .udp .., _⟩ => setPort h offset position port d
  | _ => d

def setSctpPort (h : Headers) (position : Nat) (port : BitVec 16) (d : Bytes) : Bytes :=
  match h.transport with
  | some ⟨offset, .sctp .., _⟩ => updateSctp h offset (setPort h offset position port d)
  | _ => d

/-- The offset of an ICMPv4 message. -/
def icmpv4Offset? (h : Headers) : Option Nat :=
  match h.transport with
  | some ⟨offset, .icmpv4 .., _⟩ => some offset
  | _ => none

/-- The offset of an ICMPv6 message whose type passes a test. -/
def icmpv6Offset? (h : Headers) (accepts : BitVec 8 → Bool) : Option Nat :=
  match h.transport with
  | some ⟨offset, .icmpv6 m, _⟩ => if accepts m.type then some offset else none
  | _ => none

def setIcmpType (offset : Option Nat) (type : BitVec 8) (d : Bytes) : Bytes :=
  match offset with
  | some o => patchHigh o type [o + 2] d
  | none => d

def setIcmpCode (offset : Option Nat) (code : BitVec 8) (d : Bytes) : Bytes :=
  match offset with
  | some o => patchLow o code [o + 2] d
  | none => d

def setArp (h : Headers) (position : Nat) (value : Bytes) (d : Bytes) : Bytes :=
  match h.arp? with
  | some arp => patch (arp.offset + position) value [] d
  | none => d

/-- Sets the target of a neighbour message. A message of type zero passes for one. -/
def setNeighborTarget (h : Headers) (target : Ipv6Address) (d : Bytes) : Bytes :=
  let hasTarget (t : BitVec 8) : Bool :=
    t == 0 || t == Icmpv6Header.neighborSolicitation || t == Icmpv6Header.neighborAdvertisement
  match icmpv6Offset? h hasTarget with
  | some o => patch (o + 8) (Bytes.ofWord 16 target) [o + 2] d
  | none => d

/-- Sets the address in the first option of a neighbour message of the given type, if that is
the option of eight bytes that carries the address. -/
def setNeighborLink (h : Headers) (type : BitVec 8) (optionType : UInt8) (address : MacAddress)
    (d : Bytes) : Bytes :=
  match icmpv6Offset? h (· == type) with
  | some o =>
    if d[o + 24]? = some optionType ∧ d[o + 25]? = some 1 then
      patch (o + 26) (Bytes.ofWord 6 address) [o + 2] d
    else d
  | none => d

def setMpls (h : Headers) (mask value : BitVec 32) (d : Bytes) : Bytes :=
  match h.mpls with
  | some entry => patchMasked entry.offset mask value d
  | none => d

def setMplsLabel (h : Headers) (label : BitVec 32) : Bytes → Bytes :=
  setMpls h 0xfffff000 (label <<< 12)

def setMplsTrafficClass (h : Headers) (tc : BitVec 8) : Bytes → Bytes :=
  setMpls h 0x00000e00 (tc.setWidth 32 <<< 9)

def setMplsBottom (h : Headers) (bottom : BitVec 8) : Bytes → Bytes :=
  setMpls h 0x00000100 (bottom.setWidth 32 <<< 8)

def setMplsTtl (h : Headers) (ttl : BitVec 8) : Bytes → Bytes :=
  setMpls h 0xff (ttl.setWidth 32)

def setPbb (h : Headers) (isid : BitVec 32) (d : Bytes) : Bytes :=
  match h.pbb with
  | some tag => patchMasked tag.offset 0x00ffffff isid d
  | none => d

def setEthType (h : Headers) (type : BitVec 16) (d : Bytes) : Bytes :=
  match h.payload with
  | some payload =>
    if h.framing.ethernet2 || h.framing.snap then patch (payload - 2) (Bytes.ofWord 2 type) [] d
    else d
  | none => d

/-- Sets one field. Fields that are not on the wire, and the extension headers, cannot be set. -/
def setField (h : Headers) (d : Bytes) : (f : Field) → BitVec f.width → Bytes
  | .ethDst, v => patch 0 (Bytes.ofWord 6 v) [] d
  | .ethSrc, v => patch 6 (Bytes.ofWord 6 v) [] d
  | .ethType, v => setEthType h v d
  | .vlanVid, v => setVlanId h v d
  | .vlanPcp, v => setVlanPriority h v d
  | .ipDscp, v => setDscp h v d
  | .ipEcn, v => setTrafficClass h 0x03 v d
  | .ipProto, v => setProtocol h v d
  | .ipv4Src, v => setIpv4Address h 12 v d
  | .ipv4Dst, v => setIpv4Address h 16 v d
  | .tcpSrc, v => setTcpPort h 0 v d
  | .tcpDst, v => setTcpPort h 2 v d
  | .udpSrc, v => setUdpPort h 0 v d
  | .udpDst, v => setUdpPort h 2 v d
  | .sctpSrc, v => setSctpPort h 0 v d
  | .sctpDst, v => setSctpPort h 2 v d
  | .icmpv4Type, v => setIcmpType (icmpv4Offset? h) v d
  | .icmpv4Code, v => setIcmpCode (icmpv4Offset? h) v d
  | .arpOp, v => setArp h 6 (Bytes.ofWord 2 v) d
  | .arpSha, v => setArp h 8 (Bytes.ofWord 6 v) d
  | .arpSpa, v => setArp h 14 (Bytes.ofWord 4 v) d
  | .arpTha, v => setArp h 18 (Bytes.ofWord 6 v) d
  | .arpTpa, v => setArp h 24 (Bytes.ofWord 4 v) d
  | .ipv6Src, v => setIpv6Address h 8 v d
  | .ipv6Dst, v => setIpv6Address h 24 v d
  | .ipv6Flabel, v => setFlowLabel h v d
  | .icmpv6Type, v => setIcmpType (icmpv6Offset? h fun _ => true) v d
  | .icmpv6Code, v => setIcmpCode (icmpv6Offset? h fun _ => true) v d
  | .ipv6NdTarget, v => setNeighborTarget h v d
  | .ipv6NdSll, v => setNeighborLink h Icmpv6Header.neighborSolicitation 1 v d
  | .ipv6NdTll, v => setNeighborLink h Icmpv6Header.neighborAdvertisement 2 v d
  | .mplsLabel, v => setMplsLabel h v d
  | .mplsTc, v => setMplsTrafficClass h v d
  | .mplsBos, v => setMplsBottom h v d
  | .pbbIsid, v => setPbb h v d
  | .inPort, _ | .inPhyPort, _ | .metadata, _ | .tunnelId, _ | .ipv6Exthdr, _ => d

/-- Sets the valid fields of a match, in the order of their numbers. -/
def setFields (h : Headers) (m : Match) (d : Bytes) : Bytes :=
  Field.all.foldl (fun d f => if (m.get f).valid then setField h d f (m.get f).value else d) d

end FieldWrite

namespace Frame

/-- Changes the bytes of the frame by a change that cannot fail. -/
def alter (change : Headers → Bytes → Bytes) (f : Frame) : Except SwitchError Unit × Frame :=
  f.edit fun h d => .ok (some (change h d))

def setFields (fields : Match) (f : Frame) : Except SwitchError Unit × Frame :=
  let (result, f) := f.alter fun h d => FieldWrite.setFields h fields d
  let tunnel := fields.get .tunnelId
  if result.isOk && tunnel.valid then
    (result, f.updateContext fun c => { c with tunnelId := ⟨tunnel.value⟩ })
  else (result, f)

def setDscp (dscp : BitVec 8) : Frame → Except SwitchError Unit × Frame :=
  alter fun h d => FieldWrite.setDscp h dscp d

def setIpTtl (ttl : BitVec 8) : Frame → Except SwitchError Unit × Frame :=
  alter fun h d => FieldWrite.setIpTtl h ttl d

def setMplsTtl (ttl : BitVec 8) : Frame → Except SwitchError Unit × Frame :=
  alter fun h d => FieldWrite.setMplsTtl h ttl d

end Frame

end FlowSwitch
