import FlowSwitch.Bytes

/-!
# Headers

What a frame's bytes say, layer by layer. A layer that was not recognised is
absent, so its fields cannot be read. Positions are byte offsets into the frame.
-/

namespace FlowSwitch

abbrev MacAddress := BitVec 48

abbrev Ipv4Address := BitVec 32

abbrev Ipv6Address := BitVec 128

namespace EtherType

def ipv4 : BitVec 16 := 0x0800
def arp : BitVec 16 := 0x0806
def vlan : BitVec 16 := 0x8100
def serviceVlan : BitVec 16 := 0x88a8
def doubleVlan : BitVec 16 := 0x9100
def ipv6 : BitVec 16 := 0x86dd
def mpls : BitVec 16 := 0x8847
def mplsMulticast : BitVec 16 := 0x8848
def pbb : BitVec 16 := 0x88e7

/-- Stands for the ethertype of a frame that has a length field and no SNAP header. -/
def notEtherType : BitVec 16 := 0x05ff

/-- Values up to this one are lengths, not ethertypes. -/
def maxLength : BitVec 16 := 1500

def isVlan (t : BitVec 16) : Bool := t == vlan || t == serviceVlan || t == doubleVlan

def isMpls (t : BitVec 16) : Bool := t == mpls || t == mplsMulticast

end EtherType

namespace IpProtocol

def icmp : BitVec 8 := 1
def tcp : BitVec 8 := 6
def udp : BitVec 8 := 17
def icmpv6 : BitVec 8 := 58
def sctp : BitVec 8 := 132

end IpProtocol

/-- Kinds of Ethernet framing met on the way to the innermost ethertype. -/
structure Framing where
  ethernet2 : Bool := false
  llc : Bool := false
  snap : Bool := false
  deriving DecidableEq, Repr

/-- The outermost VLAN tag; `offset` is the position of its TPID. -/
structure VlanTag where
  offset : Nat
  tpid : BitVec 16
  tci : BitVec 16
  deriving DecidableEq, Repr

namespace VlanTag

def vid (t : VlanTag) : BitVec 16 := t.tci &&& 0x0fff

def pcp (t : VlanTag) : BitVec 8 := (t.tci >>> 13).setWidth 8

end VlanTag

/-- The top entry of an MPLS label stack. -/
structure MplsEntry where
  offset : Nat
  word : BitVec 32
  deriving DecidableEq, Repr

namespace MplsEntry

def label (e : MplsEntry) : BitVec 32 := e.word >>> 12

def trafficClass (e : MplsEntry) : BitVec 8 := ((e.word >>> 9) &&& 7).setWidth 8

def bottom (e : MplsEntry) : BitVec 8 := ((e.word >>> 8) &&& 1).setWidth 8

def ttl (e : MplsEntry) : BitVec 8 := e.word.setWidth 8

end MplsEntry

/-- A PBB encapsulation; `offset` is the position of its I-TAG. -/
structure PbbTag where
  offset : Nat
  isid : BitVec 32
  deriving DecidableEq, Repr

structure ArpHeader where
  offset : Nat
  op : BitVec 16
  senderMac : MacAddress
  senderIp : Ipv4Address
  targetMac : MacAddress
  targetIp : Ipv4Address
  deriving DecidableEq, Repr

/-- IPv6 extension headers met in a header chain; `repeated` is set when one other than
the destination options comes twice. -/
structure Extensions where
  noNext : Bool := false
  esp : Bool := false
  auth : Bool := false
  dest : Bool := false
  fragment : Bool := false
  router : Bool := false
  hop : Bool := false
  repeated : Bool := false
  deriving DecidableEq, Repr

namespace Extensions

/-- The OpenFlow bitmap of extension headers. -/
def bits (e : Extensions) : BitVec 16 :=
  (0 : BitVec 7) ++ BitVec.ofBool false ++ BitVec.ofBool e.repeated ++ BitVec.ofBool e.hop
    ++ BitVec.ofBool e.router ++ BitVec.ofBool e.fragment ++ BitVec.ofBool e.dest
    ++ BitVec.ofBool e.auth ++ BitVec.ofBool e.esp ++ BitVec.ofBool e.noNext

end Extensions

/-- The part of an IP header in which the two versions differ. -/
inductive IpVersion
  | v4 (src dst : Ipv4Address)
  | v6 (src dst : Ipv6Address) (flowLabel : BitVec 32) (extensions : Extensions)
  deriving DecidableEq, Repr

/-- An IP header. The datagram ends at `stop`, before any Ethernet padding; `proto` is the
last protocol number of the header chain. -/
structure IpHeader where
  offset : Nat
  stop : Nat
  dscp : BitVec 8
  ecn : BitVec 8
  ttl : BitVec 8
  proto : BitVec 8
  version : IpVersion
  deriving DecidableEq, Repr

namespace IpHeader

def isV4 (h : IpHeader) : Bool :=
  match h.version with
  | .v4 .. => true
  | .v6 .. => false

def isV6 (h : IpHeader) : Bool := !h.isV4

end IpHeader

inductive Network
  | arp (header : ArpHeader)
  | ip (header : IpHeader)
  deriving DecidableEq, Repr

/-- An ICMPv6 header. A neighbour solicitation or advertisement also carries the target
address and, in its first option, a link-layer address; both are zero where absent. -/
structure Icmpv6Header where
  type : BitVec 8
  code : BitVec 8
  target : Ipv6Address
  linkLayer : MacAddress
  deriving DecidableEq, Repr

namespace Icmpv6Header

def neighborSolicitation : BitVec 8 := 135

def neighborAdvertisement : BitVec 8 := 136

def isNeighbor (h : Icmpv6Header) : Bool :=
  h.type == neighborSolicitation || h.type == neighborAdvertisement

/-- The link-layer address of a neighbour solicitation is that of its source. -/
def sourceLinkLayer (h : Icmpv6Header) : MacAddress :=
  if h.type == neighborSolicitation then h.linkLayer else 0

/-- The link-layer address of a neighbour advertisement is that of its target. -/
def targetLinkLayer (h : Icmpv6Header) : MacAddress :=
  if h.type == neighborAdvertisement then h.linkLayer else 0

end Icmpv6Header

inductive TransportHeader
  | tcp (src dst : BitVec 16)
  | udp (src dst : BitVec 16)
  | sctp (src dst : BitVec 16)
  | icmpv4 (type code : BitVec 8)
  | icmpv6 (header : Icmpv6Header)
  deriving DecidableEq, Repr

/-- A transport header and, if the datagram goes on after it, where its payload starts. -/
structure Transport where
  offset : Nat
  header : TransportHeader
  payload : Option Nat
  deriving DecidableEq, Repr

/-- The headers of a frame of `length` bytes. `payload` is the first byte after the innermost
ethertype, absent if the frame ends there. -/
structure Headers where
  length : Nat
  ethDst : MacAddress
  ethSrc : MacAddress
  ethType : BitVec 16
  framing : Framing
  vlan : Option VlanTag
  payload : Option Nat
  mpls : Option MplsEntry
  pbb : Option PbbTag
  network : Option Network
  transport : Option Transport
  deriving DecidableEq, Repr

namespace Headers

def arp? (h : Headers) : Option ArpHeader :=
  match h.network with
  | some (.arp a) => some a
  | _ => none

def ip? (h : Headers) : Option IpHeader :=
  match h.network with
  | some (.ip i) => some i
  | _ => none

def version? (h : Headers) : Option IpVersion := h.ip?.map (·.version)

def transportHeader? (h : Headers) : Option TransportHeader := h.transport.map (·.header)

def icmpv6? (h : Headers) : Option Icmpv6Header :=
  match h.transportHeader? with
  | some (.icmpv6 header) => some header
  | _ => none

/-- The ICMPv6 header of a neighbour solicitation or advertisement. -/
def neighbor? (h : Headers) : Option Icmpv6Header := h.icmpv6?.filter (·.isNeighbor)

def networkOffset (h : Headers) : Option Nat :=
  match h.network with
  | some (.arp a) => some a.offset
  | some (.ip i) => some i.offset
  | none => none

/-- Where the IP datagram ends; the end of the frame if there is none. -/
def networkStop (h : Headers) : Nat :=
  match h.ip? with
  | some i => i.stop
  | none => h.length

def transportOffset (h : Headers) : Option Nat := h.transport.map (·.offset)

/-- The length of the transport payload; zero without one. -/
def transportPayloadLength (h : Headers) : Nat :=
  match h.transport.bind (·.payload) with
  | some start => h.networkStop - start
  | none => 0

/-- The bitmap of recognised headers. -/
def format (h : Headers) : BitVec 32 :=
  let bit (n : Nat) (present : Bool) : BitVec 32 := if present then 1 <<< n else 0
  let transport : BitVec 32 :=
    match h.transportHeader? with
    | some (.icmpv4 ..) => bit 11 true
    | some (.icmpv6 ..) => bit 12 true
    | some (.tcp ..) => bit 16 true
    | some (.udp ..) => bit 17 true
    | some (.sctp ..) => bit 18 true
    | none => 0
  let network : BitVec 32 :=
    match h.network with
    | some (.arp ..) => bit 8 true
    | some (.ip i) => bit (if i.isV4 then 9 else 10) true
    | none => 0
  bit 0 h.framing.ethernet2 ||| bit 1 h.framing.llc ||| bit 2 h.framing.snap
    ||| bit 3 h.vlan.isSome ||| bit 4 h.mpls.isSome ||| bit 5 h.pbb.isSome
    ||| network ||| transport

end Headers

end FlowSwitch
