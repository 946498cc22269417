import FlowSwitch.Packet.Parse
import Mathlib.Algebra.Group.Nat.Defs

/-!
# Composed frames

A description of a frame, layer by layer, and the bytes that it stands for: an Ethernet header,
VLAN tags, MPLS labels, an IPv4 or IPv6 header, a TCP or UDP header, a payload and what is padded
behind it. A description carries what makes it well formed, so that every description can be
spelled.
-/

namespace FlowSwitch.Compose

open Bytes

/-! ## Tags and labels -/

structure Tag where
  tpid : BitVec 16
  pcp : BitVec 3
  dei : BitVec 1
  vid : BitVec 12
  known : tpid = 0x8100 ∨ tpid = 0x88a8 ∨ tpid = 0x9100

namespace Tag

def tci (t : Tag) : BitVec 16 := t.pcp ++ t.dei ++ t.vid

def bytes (t : Tag) : Bytes := ofWord 2 t.tpid ++ ofWord 2 t.tci

end Tag

structure Label where
  label : BitVec 20
  trafficClass : BitVec 3
  ttl : BitVec 8

namespace Label

def word (l : Label) (bottom : BitVec 1) : BitVec 32 :=
  l.label ++ l.trafficClass ++ bottom ++ l.ttl

/-- The entries of a label stack. The last one alone is marked as the bottom. -/
def stack : List Label → Bytes
  | [] => []
  | l :: more => ofWord 4 (l.word (if more.isEmpty then 1 else 0)) ++ stack more

end Label

/-! ## IP headers -/

/-- The options behind the fixed part of an IPv4 or TCP header, in words of four bytes. -/
structure Options where
  bytes : Bytes
  whole : bytes.length % 4 = 0
  short : bytes.length ≤ 40

/-- The length field of a header with these options. -/
def Options.words (o : Options) : BitVec 4 := BitVec.ofNat 4 (5 + o.bytes.length / 4)

/-- The IPv6 extension headers that are described. -/
inductive Kind
  | hop | routing | destination
  deriving DecidableEq

def Kind.protocol : Kind → BitVec 8
  | hop => 0
  | routing => 43
  | destination => 60

/-- An extension header. The length field counts the eights of bytes after the first. -/
structure Extension where
  kind : Kind
  field : BitVec 8
  body : Bytes
  whole : body.length = 6 + 8 * field.toNat

namespace Extension

/-- The protocol number in front of a chain of extension headers. -/
def first (upper : BitVec 8) : List Extension → BitVec 8
  | [] => upper
  | e :: _ => e.kind.protocol

/-- The bytes of a chain that leads to the protocol `upper`. -/
def chain (upper : BitVec 8) : List Extension → Bytes
  | [] => []
  | e :: more => ofWord 1 (first upper more) ++ ofWord 1 e.field ++ e.body ++ chain upper more

/-- The headers that a reader should meet in a chain. -/
def met (extensions : List Extension) : Extensions :=
  let kinds := extensions.map (·.kind)
  { hop := .hop ∈ kinds
    router := .routing ∈ kinds
    dest := .destination ∈ kinds
    repeated := 1 < kinds.count .hop ∨ 1 < kinds.count .routing }

end Extension

/-- The part of an IP header in which the two versions differ. -/
inductive Version
  | v4 (identification : BitVec 16) (flags : BitVec 3) (checksum : BitVec 16)
      (src dst : Ipv4Address) (options : Options)
  | v6 (flowLabel : BitVec 20) (src dst : Ipv6Address) (extensions : List Extension)

structure Internet where
  dscp : BitVec 6
  ecn : BitVec 2
  ttl : BitVec 8
  version : Version

namespace Internet

def ethType (ip : Internet) : BitVec 16 :=
  match ip.version with
  | .v4 .. => EtherType.ipv4
  | .v6 .. => EtherType.ipv6

/-- The value of the length field before `n` bytes of the layers above. -/
def length (ip : Internet) (n : Nat) : Nat :=
  match ip.version with
  | .v4 _ _ _ _ _ options => 20 + options.bytes.length + n
  | .v6 _ _ _ extensions => (Extension.chain 0 extensions).length + n

/-- The header before `n` bytes of the protocol `upper`. An IPv4 header is that of a datagram
which is not a later fragment. -/
def bytes (ip : Internet) (upper : BitVec 8) (n : Nat) : Bytes :=
  match ip.version with
  | .v4 identification flags checksum src dst options =>
    ofWord 1 ((4 : BitVec 4) ++ options.words) ++ ofWord 1 (ip.dscp ++ ip.ecn)
      ++ ofWord 2 (BitVec.ofNat 16 (ip.length n)) ++ ofWord 2 identification
      ++ ofWord 2 (flags ++ (0 : BitVec 13)) ++ ofWord 1 ip.ttl ++ ofWord 1 upper
      ++ ofWord 2 checksum ++ ofWord 4 src ++ ofWord 4 dst ++ options.bytes
  | .v6 flowLabel src dst extensions =>
    ofWord 4 ((6 : BitVec 4) ++ (ip.dscp ++ ip.ecn) ++ flowLabel)
      ++ ofWord 2 (BitVec.ofNat 16 (ip.length n)) ++ ofWord 1 (Extension.first upper extensions)
      ++ ofWord 1 ip.ttl ++ ofWord 16 src ++ ofWord 16 dst ++ Extension.chain upper extensions

/-- What a reader should tell of the part that is special to the version. -/
def told (ip : Internet) : IpVersion :=
  match ip.version with
  | .v4 _ _ _ src dst _ => .v4 src dst
  | .v6 flowLabel src dst extensions =>
    .v6 src dst (flowLabel.setWidth 32) (Extension.met extensions)

end Internet

/-! ## Transport headers -/

/-- A transport header. The length field of UDP is any, since a reader goes by the datagram. -/
inductive Segment
  | tcp (src dst : BitVec 16) (sequence acknowledgment : BitVec 32) (reserved : BitVec 4)
      (flags : BitVec 8) (window checksum urgent : BitVec 16) (options : Options)
  | udp (src dst length checksum : BitVec 16)

namespace Segment

def protocol : Segment → BitVec 8
  | tcp .. => IpProtocol.tcp
  | udp .. => IpProtocol.udp

def bytes : Segment → Bytes
  | tcp src dst sequence acknowledgment reserved flags window checksum urgent options =>
    ofWord 2 src ++ ofWord 2 dst ++ ofWord 4 sequence ++ ofWord 4 acknowledgment
      ++ ofWord 1 (options.words ++ reserved) ++ ofWord 1 flags ++ ofWord 2 window
      ++ ofWord 2 checksum ++ ofWord 2 urgent ++ options.bytes
  | udp src dst length checksum =>
    ofWord 2 src ++ ofWord 2 dst ++ ofWord 2 length ++ ofWord 2 checksum

/-- What a reader should tell of the header. -/
def told : Segment → TransportHeader
  | tcp src dst .. => .tcp src dst
  | udp src dst .. => .udp src dst

end Segment

/-! ## Fields of words -/

theorem toNat_joined {n m : Nat} (x : BitVec n) (y : BitVec m) :
    (x ++ y).toNat = x.toNat * 2 ^ m + y.toNat := by
  rw [BitVec.toNat_append, ← Nat.shiftLeft_add_eq_or_of_lt y.isLt, Nat.shiftLeft_eq]

namespace Tag

variable (t : Tag)

theorem toNat_tci : t.tci.toNat = t.pcp.toNat * 8192 + t.dei.toNat * 4096 + t.vid.toNat := by
  show (t.pcp ++ t.dei ++ t.vid).toNat = _
  rw [toNat_joined, toNat_joined]
  omega

theorem vid_tci : t.tci &&& 0x0fff = t.vid.setWidth 16 := by
  have small := t.vid.isLt
  apply BitVec.eq_of_toNat_eq
  show (t.tci.toNat &&& 2 ^ 12 - 1) = _
  rw [Nat.and_two_pow_sub_one_eq_mod, toNat_tci, BitVec.toNat_setWidth]
  omega

theorem pcp_tci : (t.tci >>> 13).setWidth 8 = t.pcp.setWidth 8 := by
  have small := t.vid.isLt
  have flag := t.dei.isLt
  apply BitVec.eq_of_toNat_eq
  rw [BitVec.toNat_setWidth, BitVec.toNat_ushiftRight, Nat.shiftRight_eq_div_pow, toNat_tci,
    BitVec.toNat_setWidth]
  omega

end Tag

namespace Label

variable (l : Label) (bottom : BitVec 1)

theorem toNat_word : (l.word bottom).toNat =
    l.label.toNat * 4096 + l.trafficClass.toNat * 512 + bottom.toNat * 256 + l.ttl.toNat := by
  show (l.label ++ l.trafficClass ++ bottom ++ l.ttl).toNat = _
  rw [toNat_joined, toNat_joined, toNat_joined]
  omega

/-- The fields of a label entry are told as they were written. -/
theorem entry_told (o : Nat) :
    let e : MplsEntry := ⟨o, l.word bottom⟩
    e.label = l.label.setWidth 32 ∧ e.trafficClass = l.trafficClass.setWidth 8 ∧
      e.bottom = bottom.setWidth 8 ∧ e.ttl = l.ttl := by
  have whole := l.toNat_word bottom
  have label := l.label.isLt
  have trafficClass := l.trafficClass.isLt
  have flag := bottom.isLt
  have ttl := l.ttl.isLt
  refine ⟨?_, ?_, ?_, ?_⟩
  · apply BitVec.eq_of_toNat_eq
    show (l.word bottom).toNat >>> 12 = _
    rw [Nat.shiftRight_eq_div_pow, whole, BitVec.toNat_setWidth]
    omega
  · apply BitVec.eq_of_toNat_eq
    show ((l.word bottom).toNat >>> 9 &&& 2 ^ 3 - 1) % 2 ^ 8 = _
    rw [Nat.and_two_pow_sub_one_eq_mod, Nat.shiftRight_eq_div_pow, whole, BitVec.toNat_setWidth]
    omega
  · apply BitVec.eq_of_toNat_eq
    show ((l.word bottom).toNat >>> 8 &&& 2 ^ 1 - 1) % 2 ^ 8 = _
    rw [Nat.and_two_pow_sub_one_eq_mod, Nat.shiftRight_eq_div_pow, whole, BitVec.toNat_setWidth]
    omega
  · apply BitVec.eq_of_toNat_eq
    show (l.word bottom).toNat % 2 ^ 8 = _
    rw [whole]
    omega

theorem bottom_word :
    (l.word bottom).getLsbD 8 = bottom.getLsbD 0 := by
  show (l.label ++ l.trafficClass ++ bottom ++ l.ttl).getLsbD 8 = _
  rw [BitVec.getLsbD_append, BitVec.getLsbD_append]
  simp

end Label

namespace Options

variable (o : Options)

theorem toNat_words : o.words.toNat = 5 + o.bytes.length / 4 := by
  have short := o.short
  rw [words, BitVec.toNat_ofNat]
  omega

theorem words_bytes : o.words.toNat * 4 = 20 + o.bytes.length := by
  have whole := o.whole
  rw [toNat_words]
  omega

/-- The first byte of an IPv4 header tells its version and its length. -/
theorem control_v4 :
    ((((4 : BitVec 4) ++ o.words : BitVec 8)) &&& 0x0f).toNat * 4 = 20 + o.bytes.length ∧
      ((⟨(4 : BitVec 4) ++ o.words⟩ : UInt8) >>> 4 = 4) := by
  have small := o.words.isLt
  have whole : ((4 : BitVec 4) ++ o.words : BitVec 8).toNat = 64 + o.words.toNat :=
    toNat_joined 4 o.words
  constructor
  · show (((4 : BitVec 4) ++ o.words : BitVec 8).toNat &&& 2 ^ 4 - 1) * 4 = _
    rw [Nat.and_two_pow_sub_one_eq_mod, whole, ← o.words_bytes]
    omega
  · apply UInt8.toNat_inj.mp
    show ((4 : BitVec 4) ++ o.words : BitVec 8).toNat >>> 4 = 4
    rw [Nat.shiftRight_eq_div_pow, whole]
    omega

/-- The length field of a TCP header. -/
theorem words_told (reserved : BitVec 4) :
    ((o.words ++ reserved : BitVec 8) >>> 4).toNat * 4 = 20 + o.bytes.length := by
  have small := reserved.isLt
  have whole : (o.words ++ reserved : BitVec 8).toNat = o.words.toNat * 16 + reserved.toNat :=
    toNat_joined o.words reserved
  rw [BitVec.toNat_ushiftRight, Nat.shiftRight_eq_div_pow, whole, ← o.words_bytes]
  omega

end Options

theorem toNat_ofNat_of_lt {n : Nat} (fits : n < 2 ^ 16) : (BitVec.ofNat 16 n).toNat = n := by
  rw [BitVec.toNat_ofNat, Nat.mod_eq_of_lt fits]

theorem dscp_told (dscp : BitVec 6) (ecn : BitVec 2) :
    (dscp ++ ecn : BitVec 8) >>> 2 = dscp.setWidth 8 ∧
      (dscp ++ ecn : BitVec 8) &&& 3 = ecn.setWidth 8 := by
  have small := ecn.isLt
  have whole : (dscp ++ ecn : BitVec 8).toNat = dscp.toNat * 4 + ecn.toNat := toNat_joined dscp ecn
  constructor
  · apply BitVec.eq_of_toNat_eq
    show (dscp ++ ecn : BitVec 8).toNat >>> 2 = _
    rw [Nat.shiftRight_eq_div_pow, whole, BitVec.toNat_setWidth]
    omega
  · apply BitVec.eq_of_toNat_eq
    show (dscp ++ ecn : BitVec 8).toNat &&& 2 ^ 2 - 1 = _
    rw [Nat.and_two_pow_sub_one_eq_mod, whole, BitVec.toNat_setWidth]
    omega

theorem unfragmented (flags : BitVec 3) :
    ((flags ++ (0 : BitVec 13) : BitVec 16) &&& 0x1fff) = 0 := by
  have whole : (flags ++ (0 : BitVec 13) : BitVec 16).toNat = flags.toNat * 8192 + 0 :=
    toNat_joined flags 0
  have mask : (0x1fff : BitVec 16).toNat = 2 ^ 13 - 1 := by decide
  apply BitVec.eq_of_toNat_eq
  rw [BitVec.toNat_and, mask, Nat.and_two_pow_sub_one_eq_mod, whole]
  show (flags.toNat * 8192 + 0) % 2 ^ 13 = 0
  omega

/-- The first word of an IPv6 header tells its version, traffic class and flow label. -/
theorem control_v6 (trafficClass : BitVec 8) (flowLabel : BitVec 20) :
    let w : BitVec 32 := (6 : BitVec 4) ++ trafficClass ++ flowLabel
    (w >>> 20).setWidth 8 = trafficClass ∧ w &&& 0x000fffff = flowLabel.setWidth 32 ∧
      ((⟨w.extractLsb' 24 8⟩ : UInt8) >>> 4 = 6) := by
  have small := flowLabel.isLt
  have class8 := trafficClass.isLt
  have whole : ((6 : BitVec 4) ++ trafficClass ++ flowLabel : BitVec 32).toNat =
      (6 * 256 + trafficClass.toNat) * 1048576 + flowLabel.toNat := by
    rw [toNat_joined, toNat_joined]
    rfl
  refine ⟨?_, ?_, ?_⟩
  · apply BitVec.eq_of_toNat_eq
    show ((6 : BitVec 4) ++ trafficClass ++ flowLabel : BitVec 32).toNat >>> 20 % 2 ^ 8 = _
    rw [Nat.shiftRight_eq_div_pow, whole]
    omega
  · apply BitVec.eq_of_toNat_eq
    have mask : (0x000fffff : BitVec 32).toNat = 2 ^ 20 - 1 := by decide
    rw [BitVec.toNat_and, mask, Nat.and_two_pow_sub_one_eq_mod, whole, BitVec.toNat_setWidth]
    omega
  · apply UInt8.toNat_inj.mp
    show (((6 : BitVec 4) ++ trafficClass ++ flowLabel : BitVec 32).toNat >>> 24 % 2 ^ 8) >>> 4 = 6
    rw [Nat.shiftRight_eq_div_pow, Nat.shiftRight_eq_div_pow, whole]
    omega

end Compose

/-! ## Frames -/

/-- A frame to be composed. With labels, `multicast` picks one of the two ethertypes of MPLS. -/
structure Composition where
  dst : MacAddress
  src : MacAddress
  tags : List Compose.Tag
  multicast : Bool
  labels : List Compose.Label
  network : Compose.Internet
  segment : Compose.Segment
  payload : Bytes
  padding : Bytes
  fits : network.length (segment.bytes.length + payload.length) < 2 ^ 16

namespace Composition

open Bytes

/-- The bytes that the IP header is followed by in its datagram. -/
def body (f : Composition) : Bytes := f.segment.bytes ++ f.payload

def datagram (f : Composition) : Bytes :=
  f.network.bytes f.segment.protocol f.body.length ++ f.body

def ethType (f : Composition) : BitVec 16 :=
  if f.labels.isEmpty then f.network.ethType
  else if f.multicast then EtherType.mplsMulticast
  else EtherType.mpls

/-- The frame as it is on the wire. -/
def bytes (f : Composition) : Bytes :=
  ofWord 6 f.dst ++ ofWord 6 f.src ++ f.tags.flatMap Compose.Tag.bytes ++ ofWord 2 f.ethType
    ++ Compose.Label.stack f.labels ++ f.datagram ++ f.padding

/-- A tagged datagram of two bytes over UDP, padded by one byte. -/
example : bytes {
    dst := 0x0a0000000001, src := 0x0a0000000002
    tags := [⟨0x8100, 5, 0, 100, .inl rfl⟩], multicast := false, labels := []
    network := ⟨46, 0, 64, .v4 1 2 0 0x0a000001 0x0a000002 ⟨[], rfl, by decide⟩⟩
    segment := .udp 1000 53 10 0, payload := [0x68, 0x69], padding := [0], fits := by decide } =
    [0x0a, 0, 0, 0, 0, 1, 0x0a, 0, 0, 0, 0, 2, 0x81, 0, 0xa0, 0x64, 0x08, 0,
      0x45, 0xb8, 0, 30, 0, 1, 0x40, 0, 64, 17, 0, 0, 0x0a, 0, 0, 1, 0x0a, 0, 0, 2,
      0x03, 0xe8, 0, 53, 0, 10, 0, 0, 0x68, 0x69, 0] := by decide

/-- Where the label stack begins, or the IP header of a frame without labels. -/
def labelOffset (f : Composition) : Nat := 14 + 4 * f.tags.length

def networkOffset (f : Composition) : Nat := f.labelOffset + 4 * f.labels.length

def transportOffset (f : Composition) : Nat :=
  f.networkOffset + (f.network.bytes f.segment.protocol f.body.length).length

def payloadOffset (f : Composition) : Nat := f.transportOffset + f.segment.bytes.length

/-- What was composed is what headers tell. -/
structure Recovered (f : Composition) (h : Headers) : Prop where
  addresses : h.ethDst = f.dst ∧ h.ethSrc = f.src
  tagged : h.format.getLsbD 3 = !f.tags.isEmpty
  tag : h.vlan.map (fun t => (t.offset, t.tpid, t.pcp, t.vid)) =
    f.tags.head?.map fun t => (12, t.tpid, t.pcp.setWidth 8, t.vid.setWidth 16)
  ethType : h.ethType = f.ethType
  label : h.mpls.map (fun e => (e.offset, e.label, e.trafficClass, e.bottom, e.ttl)) =
    f.labels.head?.map fun l => (f.labelOffset, l.label.setWidth 32, l.trafficClass.setWidth 8,
      if f.labels.length = 1 then 1 else 0, l.ttl)
  network : h.networkOffset = some f.networkOffset
  ip : ∃ ip, h.ip? = some ip ∧ ip.dscp = f.network.dscp.setWidth 8 ∧
    ip.ecn = f.network.ecn.setWidth 8 ∧ ip.ttl = f.network.ttl ∧
      ip.proto = f.segment.protocol ∧ ip.version = f.network.told
  transport : h.transportHeader? = some f.segment.told
  transportOffset : h.transportOffset = some f.transportOffset
  payload : h.transport.bind (·.payload) = if f.payload = [] then none else some f.payloadOffset
  payloadLength : h.transportPayloadLength = f.payload.length
  payloadBytes : (f.bytes.drop f.payloadOffset).take h.transportPayloadLength = f.payload

end Composition

end FlowSwitch
