import FlowSwitch.Proofs.Match.Coverage
import FlowSwitch.Proofs.Packet.Extent
import FlowSwitch.Proofs.Packet.Places

/-!
# The prerequisites of a packet

The match of a packet names the fields of all its headers, and with them the ethertype and the
protocol that led there. Two kinds of packet name more than that: an IP header behind a label
stack stands behind the ethertype of the labels, and a neighbour message names link-layer
addresses of both kinds, though its type allows one of them.
-/

namespace FlowSwitch

/-- The protocol number that leads to a transport header. -/
def TransportHeader.proto : TransportHeader → BitVec 8
  | tcp .. => IpProtocol.tcp
  | udp .. => IpProtocol.udp
  | sctp .. => IpProtocol.sctp
  | icmpv4 .. => IpProtocol.icmp
  | icmpv6 _ => IpProtocol.icmpv6

theorem EtherType.isMpls_cases {t : BitVec 16} (isMpls : EtherType.isMpls t = true) :
    t = EtherType.mpls ∨ t = EtherType.mplsMulticast := by
  simpa [EtherType.isMpls] using isMpls

theorem Icmpv6Header.isNeighbor_iff {m : Icmpv6Header} :
    m.isNeighbor = true ↔ m.type = 135 ∨ m.type = 136 := by
  rw [isNeighbor, Bool.or_eq_true, beq_iff_eq, beq_iff_eq]
  rfl

namespace IpHeader

/-- The ethertype that leads to an IP header. -/
def etherType (ip : IpHeader) : BitVec 16 := if ip.isV4 then EtherType.ipv4 else EtherType.ipv6

theorem etherType_cases (ip : IpHeader) :
    ip.etherType = EtherType.ipv4 ∨ ip.etherType = EtherType.ipv6 := by
  unfold etherType
  split
  · exact .inl rfl
  · exact .inr rfl

end IpHeader

namespace Parse

/-- A walk ends at an ethertype, or says that there is none. -/
theorem etherTags_typed (t : BitVec 16) (offset : Nat) (framing : Framing)
    (known : Option VlanTag) (rest : Bytes) :
    (etherTags t offset framing known rest).framing.ethernet2 = true ∨
      (etherTags t offset framing known rest).ethType = EtherType.notEtherType := by
  -- The framing only grows on the way, so the end of the walk decides.
  fun_induction etherTags t offset framing known rest with
  | case1 | case4 => assumption
  | case2 | case3 => exact .inr rfl
  | case5 | case6 => exact .inl rfl

/-- Layers that stand behind the ethertype `t`. -/
structure Upper.Typed (u : Upper) (t : BitVec 16) : Prop where
  mpls : u.mpls.isSome = true → EtherType.isMpls t = true
  pbb : u.pbb.isSome = true → t = EtherType.pbb
  arp : ∀ a, u.network = some (.arp a) → t = EtherType.arp
  ip : ∀ ip, u.network = some (.ip ip) → u.mpls.isSome = false → t = ip.etherType

theorem Upper.none_typed (t : BitVec 16) : Upper.Typed {} t := by
  constructor
  case mpls | pbb => exact fun is => absurd is Bool.false_ne_true
  case arp | ip => exact fun _ is => by cases is

theorem ipUpper_typed {d : Bytes} {t : BitVec 16} {read : Option (WithPayload IpHeader)}
    (type : ∀ ip next, read = some (ip, next) → t = ip.etherType) :
    (ipUpper d read).Typed t := by
  cases read with
  | none => exact Upper.none_typed t
  | some header =>
    constructor
    case mpls | pbb => exact fun is => absurd is Bool.false_ne_true
    case arp => exact fun _ is => by cases is
    case ip =>
      intro ip is _
      cases is
      exact type _ _ rfl

theorem mplsUpper_typed {d : Bytes} {t : BitVec 16} (isMpls : EtherType.isMpls t = true) (p : Nat) :
    (mplsUpper d p).Typed t := by
  have within := mplsUpper_within d p
  cases found : (mplsUpper d p).mpls with
  | none =>
    have nothing : mplsUpper d p = {} := by
      unfold mplsUpper at found ⊢
      split at found
      · rfl
      · cases found
    rw [nothing]
    exact Upper.none_typed t
  | some e =>
    obtain ⟨-, -, pbb, arp, -⟩ := within.mpls e found
    constructor
    case mpls => exact fun _ => isMpls
    case pbb => exact fun is => by rw [pbb] at is; cases is
    case arp => exact fun a is => absurd is (arp a)
    case ip => exact fun ip _ is => by rw [found] at is; cases is

theorem upper_typed (d : Bytes) (t : BitVec 16) (p : Nat) : (upper d t p).Typed t := by
  refine upper_cases t p (fun arp => ?arp) (fun v4 => ipUpper_typed fun ip next read => ?v4)
    (fun v6 => ipUpper_typed fun ip next read => ?v6) (fun isMpls => mplsUpper_typed isMpls p)
    (fun pbb => ?pbb) (Upper.none_typed t)
  case arp =>
    constructor
    case mpls | pbb => exact fun is => absurd is Bool.false_ne_true
    case arp => exact fun _ _ => arp
    case ip =>
      intro ip is
      obtain ⟨a, -, is⟩ := Option.map_eq_some_iff.mp is
      cases is
  case v4 => rw [IpHeader.etherType, if_pos (ipv4?_within read).2.2.1, v4]
  case v6 =>
    rw [IpHeader.etherType, (ipv6?_within read).2.2.1, v6]
    rfl
  case pbb =>
    constructor
    case mpls => exact fun is => absurd is Bool.false_ne_true
    case pbb => exact fun _ => pbb
    case arp | ip => exact fun _ is => by cases is

theorem transport?_proto {d : Bytes} {ip : IpHeader} {o : Nat} {t : Transport}
    (read : transport? d ip o = some t) : t.header.proto = ip.proto := by
  obtain ⟨⟨header, length⟩, found, rfl⟩ := Option.map_eq_some_iff.mp read
  have made {short : Prop} [Decidable short] {made : TransportHeader × Nat}
      (found : (if short then none else some made) = some (header, length))
      (is : ip.proto = made.1.proto) : header.proto = ip.proto := by
    obtain rfl := Option.some.inj (Option.ite_none_left_eq_some.mp found).2
    exact is.symm
  have named {proto : BitVec 8} {version : Bool}
      (is : (decide (ip.proto = proto) && version) = true) : ip.proto = proto :=
    of_decide_eq_true (Bool.and_eq_true_iff.mp is).1
  unfold transportHeader? at found
  dsimp only at found ⊢
  split at found
  · next is => exact made found is
  · split at found
    · next is => exact made found is
    · split at found
      · next is => exact made found is
      · split at found
        · next is => exact made found (named is)
        · split at found
          · next is => exact made found (named is)
          · cases found

end Parse

namespace Headers

variable {h : Headers} {d : Bytes}

/-- The layers of a frame that was read stand behind the ethertype and the protocol that it
names. -/
structure Typed (h : Headers) : Prop where
  upper : h.upper.Typed h.ethType
  named : h.framing.ethernet2 = true ∨ h.ethType = EtherType.notEtherType
  transport : ∀ t, h.transport = some t →
    ∃ ip, h.network = some (.ip ip) ∧ ip.proto = t.header.proto

theorem typed_of_parse (read : parse d = .ok h) : h.Typed := by
  obtain ⟨-, -, transported⟩ := recorded_of_parse read
  have transport (t : Transport) (is : h.transport = some t) :
      ∃ ip, h.network = some (.ip ip) ∧ ip.proto = t.header.proto := by
    obtain ⟨ip, o, network, read⟩ := transported t is
    exact ⟨ip, network, (Parse.transport?_proto read).symm⟩
  unfold parse at read
  split at read
  · cases read
  · split at read
    · cases read
    · obtain rfl := Except.ok.inj read
      refine ⟨?_, Parse.etherTags_typed .., transport⟩
      show Parse.Upper.Typed (Option.getD (Option.map _ _) {}) _
      cases (Parse.etherTags (d.word 2 12) 14 {} none (d.drop 14)).payload.filter
          (· < d.length) with
      | none => exact Parse.Upper.none_typed _
      | some p => exact Parse.upper_typed d _ p

end Headers

namespace Match

theorem validate_eq_ok_iff {m : Match} :
    m.validate = .ok () ↔ ∀ f, (m.get f).valid = true → m.prerequisite f = true := by
  unfold validate
  have valid : m.isValid = true ↔ ∀ f, (m.get f).valid = true → m.prerequisite f = true := by
    simp only [isValid, List.all_eq_true, Bool.or_eq_true, Bool.not_eq_true',
      ← Bool.not_eq_true, ← imp_iff_not_or]
    exact ⟨fun each f => each f (Field.mem_all f), fun each f _ => each f⟩
  rw [← valid]
  split <;> simp [*]

variable {h : Headers} {d : Bytes} {c : PacketContext} {f : Field}

/-- What a packet has to say of a field to meet a prerequisite. -/
theorem isOneOf_ofPacket {x : BitVec f.width} (said : PacketView.field? ⟨h, c⟩ f = some x)
    (values : List (BitVec f.width)) :
    ((ofPacket ⟨h, c⟩).get f).isOneOf values = values.contains x := by
  rw [ofPacket_get, said]
  rfl

theorem valid_ofPacket :
    ((ofPacket ⟨h, c⟩).get f).valid = (PacketView.field? ⟨h, c⟩ f).isSome := by
  rw [ofPacket_get, Pattern.ofSaid]
  cases PacketView.field? ⟨h, c⟩ f <;> rfl

section

variable (typed : h.Typed)
include typed

/-- A packet names its ethertype if there is a layer behind it. -/
theorem says_etherType (real : h.ethType ≠ EtherType.notEtherType) :
    PacketView.field? ⟨h, c⟩ .ethType = some h.ethType := by
  have named := typed.named.resolve_right real
  rw [PacketView.field?, named]
  rfl

theorem isOneOf_etherType {type : BitVec 16} (is : h.ethType = type)
    (real : type ≠ EtherType.notEtherType) {types : List (BitVec 16)}
    (listed : types.contains type = true) :
    ((ofPacket ⟨h, c⟩).get .ethType).isOneOf types = true := by
  subst is
  exact (isOneOf_ofPacket (says_etherType typed real) types).trans listed

theorem isOneOf_proto {t : TransportHeader} (is : h.transportHeader? = some t) :
    ((ofPacket ⟨h, c⟩).get .ipProto).isOneOf [t.proto] = true := by
  obtain ⟨transport, there, rfl⟩ := Option.map_eq_some_iff.mp is
  obtain ⟨ip, network, same⟩ := typed.transport transport there
  have said : PacketView.field? ⟨h, c⟩ .ipProto = some ip.proto := by
    rw [PacketView.field?, Headers.ip?_eq_some.mpr network]
    rfl
  rw [isOneOf_ofPacket said, same]
  exact List.contains_iff_mem.mpr List.mem_cons_self

theorem isOneOf_icmpv6 (is : h.icmpv6?.isSome = true) :
    ((ofPacket ⟨h, c⟩).get .ipProto).isOneOf [IpProtocol.icmpv6] = true := by
  unfold Headers.icmpv6? at is
  split at is
  · next there => exact isOneOf_proto typed there
  · cases is

section

variable (unlabelled : h.ip?.isSome = true → h.mpls.isSome = false)
include unlabelled

/-- An IP header that no labels stand before has its ethertype. -/
theorem isOneOf_ip {ip : IpHeader} (is : h.ip? = some ip) {types : List (BitVec 16)}
    (listed : types.contains ip.etherType = true) :
    ((ofPacket ⟨h, c⟩).get .ethType).isOneOf types = true := by
  have type : h.ethType = ip.etherType :=
    typed.upper.ip ip (Headers.ip?_eq_some.mp is) (unlabelled (by rw [is]; rfl))
  have real : ip.etherType ≠ EtherType.notEtherType := by
    obtain v4 | v6 := ip.etherType_cases
    · rw [v4]
      decide
    · rw [v6]
      decide
  exact isOneOf_etherType typed type real listed

theorem isOneOf_anyVersion (is : h.ip?.isSome = true) :
    ((ofPacket ⟨h, c⟩).get .ethType).isOneOf [EtherType.ipv4, EtherType.ipv6] = true := by
  obtain ⟨header, there⟩ := Option.isSome_iff_exists.mp is
  refine isOneOf_ip typed unlabelled there ?_
  obtain v4 | v6 := header.etherType_cases
  · rw [v4]
    rfl
  · rw [v6]
    rfl

theorem isOneOf_v4 {src dst : Ipv4Address} (is : h.version? = some (.v4 src dst)) :
    ((ofPacket ⟨h, c⟩).get .ethType).isOneOf [EtherType.ipv4] = true := by
  obtain ⟨header, there, version⟩ := Option.map_eq_some_iff.mp is
  refine isOneOf_ip typed unlabelled there ?_
  rw [IpHeader.etherType, IpHeader.isV4, version, if_pos rfl]
  rfl

theorem isOneOf_v6 {src dst : Ipv6Address} {label : BitVec 32} {extensions : Extensions}
    (is : h.version? = some (.v6 src dst label extensions)) :
    ((ofPacket ⟨h, c⟩).get .ethType).isOneOf [EtherType.ipv6] = true := by
  obtain ⟨header, there, version⟩ := Option.map_eq_some_iff.mp is
  refine isOneOf_ip typed unlabelled there ?_
  rw [IpHeader.etherType, IpHeader.isV4, version, if_neg Bool.false_ne_true]
  rfl

/-- The fields of a packet have their prerequisites if no labels stand before an IP header and
there is no neighbour message. -/
theorem prerequisite_ofPacket (quiet : h.neighbor? = none)
    (named : (PacketView.field? ⟨h, c⟩ f).isSome = true) :
    (ofPacket ⟨h, c⟩).prerequisite f = true := by
  cases f with
  | inPort | inPhyPort | metadata | tunnelId | ethDst | ethSrc | ethType | vlanVid => rfl
  | vlanPcp =>
    obtain ⟨x, said, -, tagged⟩ := vlanId ⟨h, c⟩
    have tag : x ≠ 0 := tagged.mpr (Option.isSome_map ▸ named)
    rw [prerequisite, ofPacket_get, said]
    exact bne_iff_ne.mpr tag
  | ipDscp | ipEcn | ipProto =>
    exact isOneOf_anyVersion typed unlabelled (Option.isSome_map ▸ named)
  | ipv4Src | ipv4Dst =>
    simp only [PacketView.field?] at named
    split at named
    · next is => exact isOneOf_v4 typed unlabelled is
    · cases named
  | ipv6Src | ipv6Dst | ipv6Flabel | ipv6Exthdr =>
    simp only [PacketView.field?] at named
    split at named
    · next is => exact isOneOf_v6 typed unlabelled is
    · cases named
  | tcpSrc | tcpDst | udpSrc | udpDst | sctpSrc | sctpDst | icmpv4Type | icmpv4Code =>
    simp only [PacketView.field?] at named
    split at named
    · next is => exact isOneOf_proto typed is
    · cases named
  | icmpv6Type | icmpv6Code => exact isOneOf_icmpv6 typed (Option.isSome_map ▸ named)
  | arpOp | arpSpa | arpTpa | arpSha | arpTha =>
    obtain ⟨a, is⟩ := Option.isSome_iff_exists.mp (Option.isSome_map ▸ named)
    exact isOneOf_etherType typed (typed.upper.arp a (Headers.arp?_eq_some.mp is)) (by decide) rfl
  | ipv6NdTarget | ipv6NdSll | ipv6NdTll =>
    simp only [PacketView.field?, quiet] at named
    cases named
  | mplsLabel | mplsTc | mplsBos =>
    obtain type | type := EtherType.isMpls_cases (typed.upper.mpls (Option.isSome_map ▸ named))
    · exact isOneOf_etherType typed type (by decide) rfl
    · exact isOneOf_etherType typed type (by decide) rfl
  | pbbIsid =>
    exact isOneOf_etherType typed (typed.upper.pbb (Option.isSome_map ▸ named)) (by decide) rfl

end

/-- Behind labels an IP header has not the ethertype that its fields ask for. -/
theorem not_prerequisite_of_labelled (labelled : h.mpls.isSome = true) :
    (ofPacket ⟨h, c⟩).prerequisite .ipDscp ≠ true := by
  obtain type | type := EtherType.isMpls_cases (typed.upper.mpls labelled)
  all_goals
    have said := says_etherType (c := c) typed (by rw [type]; decide)
    rw [prerequisite, isOneOf_ofPacket said, type]
    exact Bool.false_ne_true

end

/-- A neighbour message names link-layer addresses of both kinds. -/
theorem not_prerequisite_of_neighbor {m : Icmpv6Header} (is : h.neighbor? = some m) :
    (ofPacket ⟨h, c⟩).prerequisite .ipv6NdSll ≠ true ∨
      (ofPacket ⟨h, c⟩).prerequisite .ipv6NdTll ≠ true := by
  obtain ⟨there, neighbor⟩ := Option.filter_eq_some_iff.mp is
  have said : PacketView.field? ⟨h, c⟩ .icmpv6Type = some m.type := by
    rw [PacketView.field?, there]
    rfl
  obtain type | type := Icmpv6Header.isNeighbor_iff.mp neighbor
  · right
    rw [prerequisite, isOneOf_ofPacket said, type]
    exact Bool.false_ne_true
  · left
    rw [prerequisite, isOneOf_ofPacket said, type]
    exact Bool.false_ne_true

/-- The match of a packet that was read is valid just if no IP header was found below labels, and
the packet is no neighbour solicitation or advertisement. -/
theorem ofPacket_validate_iff (read : Headers.parse d = .ok h) (c : PacketContext) :
    (ofPacket ⟨h, c⟩).validate = .ok () ↔
      ¬ (h.mpls.isSome = true ∧ h.ip?.isSome = true) ∧
        ∀ m, h.icmpv6? = some m → m.type ≠ 135 ∧ m.type ≠ 136 := by
  have typed := Headers.typed_of_parse read
  rw [validate_eq_ok_iff]
  simp only [valid_ofPacket]
  constructor
  · intro valid
    refine ⟨fun ⟨labelled, ip⟩ => ?_, fun m is => ?_⟩
    · have named : (PacketView.field? ⟨h, c⟩ .ipDscp).isSome = true := by
        exact Option.isSome_map.trans ip
      exact not_prerequisite_of_labelled typed labelled (valid _ named)
    · rw [← not_or]
      intro type
      have neighbor : h.neighbor? = some m := by
        rw [Headers.neighbor?, is, Option.filter_some,
          if_pos (Icmpv6Header.isNeighbor_iff.mpr type)]
      have named (f : Field) (told : f = .ipv6NdSll ∨ f = .ipv6NdTll) :
          (PacketView.field? ⟨h, c⟩ f).isSome = true := by
        obtain rfl | rfl := told <;> rw [PacketView.field?, neighbor] <;> rfl
      obtain missing | missing := not_prerequisite_of_neighbor (c := c) neighbor
      · exact missing (valid _ (named _ (.inl rfl)))
      · exact missing (valid _ (named _ (.inr rfl)))
  · rintro ⟨unlabelled, quiet⟩ f named
    refine prerequisite_ofPacket typed (fun ip => ?_) ?_ named
    · exact Bool.eq_false_iff.mpr fun labelled => unlabelled ⟨labelled, ip⟩
    · rw [Headers.neighbor?, Option.filter_eq_none_iff]
      intro m is neighbor
      obtain type | type := Icmpv6Header.isNeighbor_iff.mp neighbor
      · exact (quiet m is).1 type
      · exact (quiet m is).2 type

/-- An IPv4 datagram without a payload. -/
def datagram : Bytes :=
  [0x45, 0x00, 0x00, 0x14, 0x00, 0x00, 0x00, 0x00, 0x40, 0x00, 0x00, 0x00,
    0x0a, 0x00, 0x00, 0x01, 0x0a, 0x00, 0x00, 0x02]

def datagramHeaders : Headers where
  length := 34
  ethDst := 0
  ethSrc := 0
  ethType := EtherType.ipv4
  framing := { ethernet2 := true }
  vlan := none
  payload := some 14
  mpls := none
  pbb := none
  network := some (.ip ⟨14, 34, 0, 0, 64, 0, .v4 0x0a000001 0x0a000002⟩)
  transport := none

/-- The same datagram behind one label. -/
def labelledHeaders : Headers :=
  { datagramHeaders with
    length := 38
    ethType := EtherType.mpls
    mpls := some ⟨14, 0x00001140⟩
    network := some (.ip ⟨18, 38, 0, 0, 64, 0, .v4 0x0a000001 0x0a000002⟩) }

theorem ofPacket_validate_datagram :
    (ofPacket ⟨datagramHeaders, {}⟩).validate = .ok () ∧
      (ofPacket ⟨labelledHeaders, {}⟩).validate ≠ .ok () := by
  have plain : Headers.parse (.replicate 12 0 ++ [0x08, 0x00] ++ datagram)
      = .ok datagramHeaders := by decide
  have labelled : Headers.parse
      (.replicate 12 0 ++ [0x88, 0x47, 0x00, 0x00, 0x11, 0x40] ++ datagram)
      = .ok labelledHeaders := by decide
  constructor
  · exact (ofPacket_validate_iff plain {}).mpr ⟨by decide, fun m is => by cases is⟩
  · intro valid
    exact ((ofPacket_validate_iff labelled {}).mp valid).1 ⟨rfl, rfl⟩

end Match

end FlowSwitch
