import FlowSwitch.Error
import FlowSwitch.Match.Field
import FlowSwitch.Packet.Headers

/-!
# Matches

A match gives each field a pattern. A pattern that is not `valid` is a wildcard,
whatever value and mask it holds. Selection has a direction: `covers` asks
whether a wide match selects whatever a narrow one does. A packet is the narrow
match that holds the exact value of each of its fields.
-/

namespace FlowSwitch

structure Pattern (w : Nat) where
  value : BitVec w
  mask : BitVec w
  valid : Bool
  deriving DecidableEq, Repr

namespace Pattern

variable {w : Nat}

def wildcard : Pattern w := ⟨0, BitVec.allOnes w, false⟩

def masked (value mask : BitVec w) : Pattern w := ⟨value, mask, true⟩

def exact (value : BitVec w) : Pattern w := masked value (BitVec.allOnes w)

/-- Whether `wide` selects `narrow`. An empty mask selects everything, even a wildcard. -/
def covers (wide narrow : Pattern w) : Bool :=
  !wide.valid || wide.mask == 0 ||
    narrow.valid && narrow.value &&& narrow.mask &&& wide.mask == wide.value &&& wide.mask

/-- Whether some value is selected by both. -/
def overlaps (a b : Pattern w) : Bool :=
  !a.valid || !b.valid || a.value &&& (a.mask &&& b.mask) == b.value &&& (a.mask &&& b.mask)

/-- Whether both are wildcards, or have the same value and mask. -/
def same (a b : Pattern w) : Bool :=
  a.valid == b.valid && (!a.valid || a.value == b.value && a.mask == b.mask)

/-- Whether the pattern gives one of `values`, whatever its mask. -/
def isOneOf (p : Pattern w) (values : List (BitVec w)) : Bool := p.valid && values.contains p.value

end Pattern

namespace Vlan

/-- The bit of a VLAN id that says that there is a tag. -/
def present : BitVec 16 := 0x1000

/-- The VLAN id of a packet without a tag. -/
def untagged : BitVec 16 := 0

def isUntagged (p : Pattern 16) : Bool :=
  p.valid && p.value == untagged && p.mask == BitVec.allOnes 16

/-- Whether `wide` selects `narrow` as VLAN ids: "no tag" selects only itself, "any tag" every
other id, an exact tagged id only the same exact tagged id. Any other pattern looks at the id
without its presence bit. -/
def covers (wide narrow : Pattern 16) : Bool :=
  if !wide.valid then true
  else if isUntagged wide then isUntagged narrow
  else if wide.value == present && wide.mask == present then narrow.valid && !isUntagged narrow
  else if !narrow.valid then false
  else if wide.value &&& present != 0 && wide.mask == BitVec.allOnes 16 then
    narrow.mask == BitVec.allOnes 16 && narrow.value &&& present != 0
      && narrow.value &&& ~~~present == wide.value &&& ~~~present
  else
    let mask := ~~~present &&& narrow.mask &&& wide.mask
    narrow.value &&& mask == wide.value &&& mask

end Vlan

@[ext]
structure Match where
  get : (f : Field) → Pattern f.width

namespace Match

/-- Every field a wildcard. -/
def any : Match := ⟨fun _ => .wildcard⟩

instance : Inhabited Match := ⟨any⟩

instance : DecidableEq Match := fun a b =>
  if h : ∀ f ∈ Field.all, a.get f = b.get f then
    .isTrue (Match.ext (funext fun f => h f (Field.mem_all f)))
  else .isFalse fun eq => h fun f _ => by rw [eq]

def set (m : Match) (f : Field) (p : Pattern f.width) : Match :=
  ⟨fun g => if h : f = g then h ▸ p else m.get g⟩

/-- Makes one field a wildcard. -/
def clear (m : Match) (f : Field) : Match := m.set f .wildcard

/-- Both matches, with the valid fields of `b` taking precedence. -/
def merge (a b : Match) : Match := ⟨fun f => if (b.get f).valid then b.get f else a.get f⟩

/-- The fields that are not wildcards. -/
def fields (m : Match) : List Field := Field.all.filter fun f => (m.get f).valid

def isAny (m : Match) : Bool := Field.all.all fun f => !(m.get f).valid

/-- Whether every packet selected by `narrow` is selected by `wide`. -/
def covers (wide narrow : Match) : Bool :=
  (Field.all.all fun f => f == .vlanVid || (wide.get f).covers (narrow.get f))
    && Vlan.covers (wide.get .vlanVid) (narrow.get .vlanVid)

/-- Whether some packet could be selected by both. -/
def overlaps (a b : Match) : Bool := Field.all.all fun f => (a.get f).overlaps (b.get f)

/-- Field-wise identity. -/
def same (a b : Match) : Bool := Field.all.all fun f => (a.get f).same (b.get f)

/-- What a match has to say about other fields before it may name field `f`. -/
def prerequisite (m : Match) : Field → Bool
  | .inPhyPort => (m.get .inPort).valid
  | .vlanPcp => (m.get .vlanVid).valid && (m.get .vlanVid).value != Vlan.untagged
  | .ipDscp | .ipEcn | .ipProto => (m.get .ethType).isOneOf [EtherType.ipv4, EtherType.ipv6]
  | .ipv4Src | .ipv4Dst => (m.get .ethType).isOneOf [EtherType.ipv4]
  | .tcpSrc | .tcpDst => (m.get .ipProto).isOneOf [IpProtocol.tcp]
  | .udpSrc | .udpDst => (m.get .ipProto).isOneOf [IpProtocol.udp]
  | .sctpSrc | .sctpDst => (m.get .ipProto).isOneOf [IpProtocol.sctp]
  | .icmpv4Type | .icmpv4Code => (m.get .ipProto).isOneOf [IpProtocol.icmp]
  | .arpOp | .arpSpa | .arpTpa | .arpSha | .arpTha => (m.get .ethType).isOneOf [EtherType.arp]
  | .ipv6Src | .ipv6Dst | .ipv6Flabel | .ipv6Exthdr => (m.get .ethType).isOneOf [EtherType.ipv6]
  | .icmpv6Type | .icmpv6Code => (m.get .ipProto).isOneOf [IpProtocol.icmpv6]
  | .ipv6NdTarget =>
    (m.get .icmpv6Type).isOneOf
      [Icmpv6Header.neighborSolicitation, Icmpv6Header.neighborAdvertisement]
  | .ipv6NdSll => (m.get .icmpv6Type).isOneOf [Icmpv6Header.neighborSolicitation]
  | .ipv6NdTll => (m.get .icmpv6Type).isOneOf [Icmpv6Header.neighborAdvertisement]
  | .mplsLabel | .mplsTc | .mplsBos =>
    (m.get .ethType).isOneOf [EtherType.mpls, EtherType.mplsMulticast]
  | .pbbIsid => (m.get .ethType).isOneOf [EtherType.pbb]
  | .inPort | .metadata | .ethDst | .ethSrc | .ethType | .vlanVid | .tunnelId => true

/-- Whether every field that is named has its prerequisite. -/
def isValid (m : Match) : Bool := Field.all.all fun f => !(m.get f).valid || m.prerequisite f

def validate (m : Match) : Except SwitchError Unit :=
  if m.isValid then .ok () else .error (.badMatch .badPrereq)

end Match

end FlowSwitch
