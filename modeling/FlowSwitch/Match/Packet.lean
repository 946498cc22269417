import FlowSwitch.Match.Basic
import FlowSwitch.Packet.Frame

/-!
# The match of a packet

The value that a packet has for each field, and the match made of these values.
-/

namespace FlowSwitch

namespace PacketView

/-- The value of field `f`, if the packet has the header that carries it. -/
def field? (v : PacketView) : (f : Field) → Option (BitVec f.width)
  | .inPort => some v.context.inPort.toBitVec
  | .inPhyPort => some v.context.inPhyPort.toBitVec
  | .metadata => some v.context.metadata.toBitVec
  | .tunnelId => some v.context.tunnelId.toBitVec
  | .ethDst => some v.headers.ethDst
  | .ethSrc => some v.headers.ethSrc
  | .ethType =>
    if v.headers.framing.ethernet2 || v.headers.framing.snap then some v.headers.ethType else none
  | .vlanVid =>
    match v.headers.vlan with
    | some tag => some (tag.vid ||| Vlan.present)
    | none => some Vlan.untagged
  | .vlanPcp => v.headers.vlan.map (·.pcp)
  | .mplsLabel => v.headers.mpls.map (·.label)
  | .mplsTc => v.headers.mpls.map (·.trafficClass)
  | .mplsBos => v.headers.mpls.map (·.bottom)
  | .pbbIsid => v.headers.pbb.map (·.isid)
  | .arpOp => v.headers.arp?.map (·.op)
  | .arpSpa => v.headers.arp?.map (·.senderIp)
  | .arpTpa => v.headers.arp?.map (·.targetIp)
  | .arpSha => v.headers.arp?.map (·.senderMac)
  | .arpTha => v.headers.arp?.map (·.targetMac)
  | .ipDscp => v.headers.ip?.map (·.dscp)
  | .ipEcn => v.headers.ip?.map (·.ecn)
  | .ipProto => v.headers.ip?.map (·.proto)
  | .ipv4Src =>
    match v.headers.version? with
    | some (.v4 src _) => some src
    | _ => none
  | .ipv4Dst =>
    match v.headers.version? with
    | some (.v4 _ dst) => some dst
    | _ => none
  | .ipv6Src =>
    match v.headers.version? with
    | some (.v6 src _ _ _) => some src
    | _ => none
  | .ipv6Dst =>
    match v.headers.version? with
    | some (.v6 _ dst _ _) => some dst
    | _ => none
  | .ipv6Flabel =>
    match v.headers.version? with
    | some (.v6 _ _ label _) => some label
    | _ => none
  | .ipv6Exthdr =>
    match v.headers.version? with
    | some (.v6 _ _ _ extensions) => some extensions.bits
    | _ => none
  | .tcpSrc =>
    match v.headers.transportHeader? with
    | some (.tcp src _) => some src
    | _ => none
  | .tcpDst =>
    match v.headers.transportHeader? with
    | some (.tcp _ dst) => some dst
    | _ => none
  | .udpSrc =>
    match v.headers.transportHeader? with
    | some (.udp src _) => some src
    | _ => none
  | .udpDst =>
    match v.headers.transportHeader? with
    | some (.udp _ dst) => some dst
    | _ => none
  | .sctpSrc =>
    match v.headers.transportHeader? with
    | some (.sctp src _) => some src
    | _ => none
  | .sctpDst =>
    match v.headers.transportHeader? with
    | some (.sctp _ dst) => some dst
    | _ => none
  | .icmpv4Type =>
    match v.headers.transportHeader? with
    | some (.icmpv4 type _) => some type
    | _ => none
  | .icmpv4Code =>
    match v.headers.transportHeader? with
    | some (.icmpv4 _ code) => some code
    | _ => none
  | .icmpv6Type => v.headers.icmpv6?.map (·.type)
  | .icmpv6Code => v.headers.icmpv6?.map (·.code)
  | .ipv6NdTarget => v.headers.neighbor?.map (·.target)
  | .ipv6NdSll => v.headers.neighbor?.map (·.sourceLinkLayer)
  | .ipv6NdTll => v.headers.neighbor?.map (·.targetLinkLayer)

end PacketView

namespace Match

/-- The match that selects exactly what the packet says of itself. -/
def ofPacket (v : PacketView) : Match :=
  ⟨fun f => ((v.field? f).map Pattern.exact).getD .wildcard⟩

/-- Whether `m` selects the packet. -/
def selects (m : Match) (v : PacketView) : Bool := m.covers (ofPacket v)

end Match

end FlowSwitch
