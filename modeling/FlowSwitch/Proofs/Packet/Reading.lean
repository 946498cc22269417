import FlowSwitch.Match.Packet
import FlowSwitch.Proofs.Packet.Agree
import FlowSwitch.Proofs.Packet.Cell
import FlowSwitch.Proofs.Packet.CodePoint

/-!
# What a packet says of itself

A packet says the value of each match field, its times to live, and the bit between the id and
the priority of a tag. Together with the layers, and where they are, that is all it says. A value
that is not told by the layers alone has a cell in the frame.
-/

namespace FlowSwitch

/-- A value that is read from a packet. -/
inductive Reading
  | field (f : Field)
  | ipTtl
  | mplsTtl
  | dei
  deriving DecidableEq, Repr

namespace Reading

def all : List Reading := Field.all.map field ++ [ipTtl, mplsTtl, dei]

theorem mem_all (r : Reading) : r ∈ all := by
  cases r with
  | field f => exact List.mem_append_left _ (List.mem_map_of_mem (Field.mem_all f))
  | ipTtl | mplsTtl | dei => exact List.mem_append_right _ (by decide)

/-- The width of the value. -/
def width : Reading → Nat
  | field f => f.width
  | ipTtl | mplsTtl => 8
  | dei => 1

/-- The bits that the value has in a frame. -/
def bits : Reading → Nat
  | field .vlanVid => 12
  | field .vlanPcp | field .mplsTc => 3
  | field .ipDscp => 6
  | field .ipEcn => 2
  | field .mplsLabel | field .ipv6Flabel => 20
  | field .mplsBos => 1
  | field .pbbIsid => 24
  | r => r.width

/-- The value that has these bits in a frame. The id of a tag also says that there is one. -/
def widen : (r : Reading) → BitVec r.bits → BitVec r.width
  | field .vlanVid, x => x.setWidth 16 ||| Vlan.present
  | r, x => x.setWidth r.width

/-- The value that is left of `v` when it is written to a frame. -/
def truncate (r : Reading) (v : BitVec r.width) : BitVec r.width := r.widen (v.setWidth r.bits)

/-- Where the value is: the cells differ in the version of the IP header. -/
def cells : Reading → List Cell
  | field .ethDst => [⟨.ethernet, 0, 3, 0⟩]
  | field .ethSrc => [⟨.ethernet, 3, 3, 0⟩]
  | field .vlanVid => [⟨.tci, 0, 1, 0⟩]
  | field .vlanPcp => [⟨.tci, 0, 1, 13⟩]
  | dei => [⟨.tci, 0, 1, 12⟩]
  | field .ipDscp => [⟨.ipv4, 0, 1, 2⟩, ⟨.ipv6, 0, 1, 6⟩]
  | field .ipEcn => [⟨.ipv4, 0, 1, 0⟩, ⟨.ipv6, 0, 2, 20⟩]
  | ipTtl => [⟨.ipv4, 4, 1, 8⟩, ⟨.ipv6, 3, 1, 0⟩]
  | field .ipv4Src => [⟨.ipv4, 6, 2, 0⟩]
  | field .ipv4Dst => [⟨.ipv4, 8, 2, 0⟩]
  | field .tcpSrc => [⟨.tcp, 0, 1, 0⟩]
  | field .tcpDst => [⟨.tcp, 1, 1, 0⟩]
  | field .udpSrc => [⟨.udp, 0, 1, 0⟩]
  | field .udpDst => [⟨.udp, 1, 1, 0⟩]
  | field .sctpSrc => [⟨.sctp, 0, 1, 0⟩]
  | field .sctpDst => [⟨.sctp, 1, 1, 0⟩]
  | field .icmpv4Type => [⟨.icmpv4, 0, 1, 8⟩]
  | field .icmpv4Code => [⟨.icmpv4, 0, 1, 0⟩]
  | field .arpOp => [⟨.arp, 3, 1, 0⟩]
  | field .arpSha => [⟨.arp, 4, 3, 0⟩]
  | field .arpSpa => [⟨.arp, 7, 2, 0⟩]
  | field .arpTha => [⟨.arp, 9, 3, 0⟩]
  | field .arpTpa => [⟨.arp, 12, 2, 0⟩]
  | field .ipv6Src => [⟨.ipv6, 4, 8, 0⟩]
  | field .ipv6Dst => [⟨.ipv6, 12, 8, 0⟩]
  | field .ipv6Flabel => [⟨.ipv6, 0, 2, 0⟩]
  | field .icmpv6Code => [⟨.icmpv6, 0, 1, 0⟩]
  | field .ipv6NdTarget => [⟨.target, 0, 8, 0⟩]
  | field .ipv6NdSll => [⟨.sourceLink, 0, 3, 0⟩]
  | field .ipv6NdTll => [⟨.targetLink, 0, 3, 0⟩]
  | field .mplsLabel => [⟨.mpls, 0, 2, 12⟩]
  | field .mplsTc => [⟨.mpls, 0, 2, 9⟩]
  | field .mplsBos => [⟨.mpls, 0, 2, 8⟩]
  | mplsTtl => [⟨.mpls, 0, 2, 0⟩]
  | field .pbbIsid => [⟨.pbb, 0, 2, 0⟩]
  | _ => []

/-- The words of the value, each with the bits that are its own. -/
def own (r : Reading) : List (Spot × BitVec 16) := r.cells.flatMap (·.spots r.bits)

theorem sound (r : Reading) {c : Cell} (listed : c ∈ r.cells) : c.Sound r.bits := by
  have each : ∀ r ∈ all, ∀ c ∈ r.cells, c.Sound r.bits := by decide
  exact each r r.mem_all c listed

theorem mem_own {s : Reading} {c : Cell} (listed : c ∈ s.cells) {k : Nat} (small : k < c.count) :
    ((c.layer, c.first + k), c.mask s.bits k) ∈ s.own :=
  List.mem_flatMap.mpr ⟨c, listed, List.mem_map.mpr ⟨k, List.mem_range.mpr small, rfl⟩⟩

/-- Two values have no bit in common. -/
theorem own_apart {r s : Reading} (ne : s ≠ r) {c : Cell} (listed : c ∈ s.cells) {k : Nat}
    (small : k < c.count) :
    ∀ t ∈ r.own, t.1 = (c.layer, c.first + k) → t.2 &&& c.mask s.bits k = 0 := by
  let Apart (r s : Reading) : Prop := ∀ t ∈ r.own, ∀ u ∈ s.own, t.1 = u.1 → t.2 &&& u.2 = 0
  have each : all.Pairwise Apart := by decide
  have turned : Std.Symm Apart :=
    ⟨fun r s apart t other u mine same =>
      (BitVec.and_comm ..).trans (apart u mine t other same.symm)⟩
  have apart : Apart r s := each.forall r.mem_all s.mem_all ne.symm
  exact fun t mine same => apart t mine _ (mem_own listed small) same

end Reading

namespace PacketView

/-- What the packet says, if it has the header that does. -/
def reads (v : PacketView) : (r : Reading) → Option (BitVec r.width)
  | .field f => v.field? f
  | .ipTtl => v.headers.ip?.map (·.ttl)
  | .mplsTtl => v.headers.mpls.map (·.ttl)
  | .dei => v.headers.vlan.map fun tag => tag.tci.extractLsb' 12 1

end PacketView

namespace Parse

variable {d : Bytes} {o : Nat} {ip : IpHeader} {next : Option Nat}

/-- The values of a transport header are those that stand at `o`. -/
def HeaderTold (d : Bytes) (o stop : Nat) : TransportHeader → Prop
  | .tcp a b | .udp a b | .sctp a b => a = d.word 2 o ∧ b = d.word 2 (o + 2)
  | .icmpv4 a b => a = d.byte o ∧ b = d.byte (o + 1)
  | .icmpv6 m => m = icmpv6 d o stop

theorem transport?_told {t : Transport} (read : transport? d ip o = some t) :
    HeaderTold d o ip.stop t.header := by
  obtain ⟨⟨header, length⟩, found, rfl⟩ := Option.map_eq_some_iff.mp read
  unfold transportHeader? at found
  dsimp only at found ⊢
  have made {test : Prop} [Decidable test] {told : TransportHeader} {n : Nat}
      (found : (if test then none else some (told, n)) = some (header, length))
      (here : HeaderTold d o ip.stop told) : HeaderTold d o ip.stop header := by
    rw [Option.ite_none_left_eq_some] at found
    obtain ⟨rfl, -⟩ := Prod.mk.inj (Option.some.inj found.2)
    exact here
  split at found
  · exact made found ⟨rfl, rfl⟩
  · split at found
    · exact made found ⟨rfl, rfl⟩
    · split at found
      · exact made found ⟨rfl, rfl⟩
      · split at found
        · exact made found ⟨rfl, rfl⟩
        · split at found
          · exact made found rfl
          · cases found

theorem icmpv6_code (d : Bytes) (o stop : Nat) : (icmpv6 d o stop).code = d.byte (o + 1) := by
  unfold icmpv6
  dsimp only
  split
  · rfl
  · rfl

/-- What a neighbour message says has to be inside the datagram. -/
theorem icmpv6_neighbor {stop : Nat} (neighbor : (icmpv6 d o stop).isNeighbor = true) :
    (icmpv6 d o stop).target = (if o + 24 ≤ stop then d.word 16 (o + 8) else 0) ∧
      (icmpv6 d o stop).linkLayer =
        if o + 32 ≤ stop && (d.byte (o + 24) ==
            (if d.byte o == Icmpv6Header.neighborSolicitation then 1 else 2)
          && d.byte (o + 25) == 1) then d.word 6 (o + 26) else 0 := by
  rw [Icmpv6Header.isNeighbor, icmpv6_type] at neighbor
  rw [icmpv6, if_pos neighbor, ← Bool.and_assoc]
  exact ⟨rfl, rfl⟩

/-- A message that is not one of neighbour discovery says neither. -/
theorem icmpv6_other {stop : Nat} (other : (icmpv6 d o stop).isNeighbor = false) :
    (icmpv6 d o stop).target = 0 ∧ (icmpv6 d o stop).linkLayer = 0 := by
  rw [Icmpv6Header.isNeighbor, icmpv6_type] at other
  rw [icmpv6, if_neg (by simp [other])]
  exact ⟨rfl, rfl⟩

/-- The values of these layers are those that stand in the frame `d`. -/
structure Upper.Told (u : Upper) (d : Bytes) : Prop where
  mpls : ∀ e, u.mpls = some e → e.word = d.word 4 e.offset
  pbb : ∀ tag, u.pbb = some tag → tag.isid = d.word 4 tag.offset &&& 0x00ffffff
  arp : ∀ a, u.network = some (.arp a) → arp? d a.offset = some a
  ip : ∀ ip, u.network = some (.ip ip) →
    ∃ next, (if ip.isV4 then ipv4? d ip.offset else ipv6? d ip.offset) = some (ip, next)
  transport : ∀ t, u.transport = some t →
    ∃ ip, u.network = some (.ip ip) ∧ transport? d ip t.offset = some t

theorem Upper.none_told (d : Bytes) : Upper.Told {} d := by
  constructor <;> intro _ is <;> cases is

theorem ipUpper_told {read : Option (WithPayload IpHeader)}
    (version : read = ipv4? d o ∨ read = ipv6? d o) : (ipUpper d read).Told d := by
  match read, version with
  | none, _ => exact Upper.none_told d
  | some (ip, next), version =>
    refine ⟨nofun, nofun, nofun, fun ip' is => ?_, fun t is => ?_⟩
    · obtain rfl := Network.ip.inj (Option.some.inj is)
      refine ⟨next, ?_⟩
      rcases version with read | read
      · obtain ⟨rfl, -, isV4, -⟩ := ipv4?_within read.symm
        rw [if_pos isV4, read]
      · obtain ⟨rfl, -, isV4, -⟩ := ipv6?_within read.symm
        rw [if_neg (by simp [isV4]), read]
    · obtain ⟨q, -, found⟩ := Option.bind_eq_some_iff.mp is
      obtain ⟨rfl, -⟩ := transport?_within found
      exact ⟨ip, rfl, found⟩

theorem labelled_told (d : Bytes) (o : Nat) : (labelled d o).Told d := by
  unfold labelled
  split
  · exact ipUpper_told (.inl rfl)
  · split
    · exact ipUpper_told (.inr rfl)
    · exact Upper.none_told d

theorem mplsUpper_told (d : Bytes) (o : Nat) : (mplsUpper d o).Told d := by
  cases there : d.word? 4 o with
  | none =>
    rw [mplsUpper, there]
    exact Upper.none_told d
  | some top =>
    have inner : ((stackEnd d o).elim {} (labelled d)).Told d := by
      cases stackEnd d o with
      | none => exact Upper.none_told d
      | some next => exact labelled_told d next
    rw [mplsUpper_eq there]
    refine ⟨fun e is => ?_, inner.pbb, inner.arp, inner.ip, inner.transport⟩
    obtain rfl := Option.some.inj is
    rw [Bytes.word, there, Option.getD_some]

theorem upper_told (d : Bytes) (t : BitVec 16) (o : Nat) : (upper d t o).Told d := by
  have bare := Upper.none_told d
  refine upper_cases t o (fun _ => ?arp) (fun _ => ipUpper_told (.inl rfl))
    (fun _ => ipUpper_told (.inr rfl)) (fun _ => mplsUpper_told d o) (fun _ => ?pbb) bare
  case arp =>
    refine ⟨bare.mpls, bare.pbb, fun a is => ?_, fun ip is => ?_, fun t is => by cases is⟩
    · obtain ⟨a', read, same⟩ := Option.map_eq_some_iff.mp is
      obtain rfl := Network.arp.inj same
      have here : a'.offset = o := by
        rw [arp?, Option.ite_none_left_eq_some] at read
        exact (congrArg ArpHeader.offset (Option.some.inj read.2)).symm
      rwa [here]
    · obtain ⟨a, -, same⟩ := Option.map_eq_some_iff.mp is
      cases same
  case pbb =>
    refine ⟨bare.mpls, fun tag is => ?_, bare.arp, bare.ip, bare.transport⟩
    obtain ⟨w, there, rfl⟩ := Option.map_eq_some_iff.mp is
    rw [Bytes.word, there, Option.getD_some]

end Parse

namespace Headers

variable {h h' : Headers} {d d' : Bytes}

theorem told_of_parse (read : parse d = .ok h) : h.upper.Told d := by
  obtain ⟨-, rfl⟩ := eq_assemble read
  rw [upper_assemble]
  cases (assemble d (Parse.etherEnd d)).payload with
  | none => exact Parse.Upper.none_told d
  | some p => exact Parse.upper_told d _ p

/-- The transport header is one of this kind. -/
def speaks (h : Headers) (l : Layer) : Bool :=
  h.transport.any fun t => Layer.ofTransport t.header = l

/-- The frame has the header that the value is a part of, and the value is one that can be set. A
target is part of both messages of neighbour discovery, a link-layer address of one of them. -/
def bears (h : Headers) : Reading → Bool
  | .field .inPort | .field .inPhyPort | .field .metadata | .field .ipv6Exthdr => false
  | .field .tunnelId | .field .ethDst | .field .ethSrc => true
  | .field .ethType => h.framing.ethernet2 || h.framing.snap
  | .field .vlanVid | .field .vlanPcp | .dei => h.vlan.isSome
  | .field .mplsLabel | .field .mplsTc | .field .mplsBos | .mplsTtl => h.mpls.isSome
  | .field .pbbIsid => h.pbb.isSome
  | .field .arpOp | .field .arpSpa | .field .arpTpa | .field .arpSha | .field .arpTha =>
    h.arp?.isSome
  | .field .ipDscp | .field .ipEcn | .field .ipProto | .ipTtl => h.ip?.isSome
  | .field .ipv4Src | .field .ipv4Dst => h.ip?.any (·.isV4)
  | .field .ipv6Src | .field .ipv6Dst | .field .ipv6Flabel => h.ip?.any (·.isV6)
  | .field .tcpSrc | .field .tcpDst => h.speaks .tcp
  | .field .udpSrc | .field .udpDst => h.speaks .udp
  | .field .sctpSrc | .field .sctpDst => h.speaks .sctp
  | .field .icmpv4Type | .field .icmpv4Code => h.speaks .icmpv4
  | .field .icmpv6Type | .field .icmpv6Code => h.speaks .icmpv6
  | .field .ipv6NdTarget => h.neighbor?.isSome
  | .field .ipv6NdSll => h.icmpv6?.any (·.type == Icmpv6Header.neighborSolicitation)
  | .field .ipv6NdTll => h.icmpv6?.any (·.type == Icmpv6Header.neighborAdvertisement)

/-- The first option of a neighbour message is inside the datagram, has this type and is eight
bytes long. -/
def option (h : Headers) (d : Bytes) (type : UInt8) : Bool :=
  h.transportOffset.any fun o => o + 32 ≤ h.networkStop &&
    (d[o + 24]? == some type && d[o + 25]? == some 1)

/-- The datagram has the room or the option that a value in a neighbour message needs. -/
def hasRoom (h : Headers) (d : Bytes) : Reading → Bool
  | .field .ipv6NdTarget => h.transportOffset.any (· + 24 ≤ h.networkStop)
  | .field .ipv6NdSll => h.option d 1
  | .field .ipv6NdTll => h.option d 2
  | _ => true

/-- The value has a place in the frame `d`. -/
def carries (h : Headers) (d : Bytes) (r : Reading) : Bool := h.bears r && h.hasRoom d r

/-- The packet says what stands in the cell of a value. -/
def Tells (h : Headers) (d : Bytes) (k : PacketContext) (r : Reading) : Prop :=
  ∃ c ∈ r.cells, ∃ b, h.base? d c.layer = some b ∧
    PacketView.reads ⟨h, k⟩ r = some (r.widen (c.value r.bits d b))

section

variable {k : PacketContext}

/-- A value that takes whole words. -/
theorem tells_whole {f : Field} {l : Layer} {first n b : Nat} {x : BitVec f.width}
    (cells : (Reading.field f).cells = [⟨l, first, n, 0⟩])
    (bits : (Reading.field f).bits = f.width)
    (widens : ∀ y, (Reading.field f).widen y = y.setWidth (Reading.field f).width)
    (base : h.base? d l = some b) (said : PacketView.field? ⟨h, k⟩ f = some x)
    (stands : x.toNat = (d.word (2 * n) (b + 2 * first)).toNat) : h.Tells d k (.field f) := by
  refine ⟨⟨l, first, n, 0⟩, by rw [cells]; exact List.mem_singleton_self _, b, base, ?_⟩
  refine said.trans (congrArg some ?_)
  rw [widens]
  apply BitVec.eq_of_toNat_eq
  show _ = (BitVec.setWidth f.width _).toNat
  have small : x.toNat < 2 ^ f.width := x.isLt
  rw [BitVec.toNat_setWidth, Cell.value, BitVec.extractLsb'_toNat, Nat.shiftRight_zero, ← stands,
    bits, Nat.mod_eq_of_lt small]
  exact (Nat.mod_eq_of_lt small).symm

section

variable (read : parse d = .ok h)
include read

theorem tells_ethernet : h.Tells d k (.field .ethDst) ∧ h.Tells d k (.field .ethSrc) := by
  obtain ⟨-, rfl⟩ := eq_assemble read
  exact ⟨tells_whole rfl rfl (fun _ => rfl) rfl rfl rfl,
    tells_whole rfl rfl (fun _ => rfl) rfl rfl rfl⟩

theorem tells_tag (tagged : h.vlan.isSome = true) :
    h.Tells d k (.field .vlanVid) ∧ h.Tells d k (.field .vlanPcp) ∧ h.Tells d k .dei := by
  obtain ⟨tag, is⟩ := Option.isSome_iff_exists.mp tagged
  have word : tag.tci = d.word 2 (tag.offset + 2) :=
    (Bytes.word_of_word? ((laid_of_parse read).tag tag is).2.2).symm
  have base : h.base? d .tci = some (tag.offset + 2) := by rw [base?, is, Option.map_some]
  refine ⟨⟨_, List.mem_singleton_self _, _, base, ?_⟩, ⟨_, List.mem_singleton_self _, _, base, ?_⟩,
    ⟨_, List.mem_singleton_self _, _, base, ?_⟩⟩
  · show PacketView.field? ⟨h, k⟩ .vlanVid =
      some (((d.word 2 (tag.offset + 2)).extractLsb' 0 12).setWidth 16 ||| Vlan.present)
    simp only [PacketView.field?, is]
    rw [VlanTag.vid, word, Bytes.and_of_ones (n := 12) _ (by decide)]
    rfl
  · show h.vlan.map (·.pcp) = some (((d.word 2 (tag.offset + 2)).extractLsb' 13 3).setWidth 8)
    rw [is, Option.map_some, VlanTag.pcp, word, Bytes.ushiftRight_setWidth (n := 3) _ rfl]
  · show h.vlan.map (fun tag => tag.tci.extractLsb' 12 1) =
      some (((d.word 2 (tag.offset + 2)).extractLsb' 12 1).setWidth 1)
    rw [is, Option.map_some, word, BitVec.setWidth_eq]

theorem tells_mpls (labelled : h.mpls.isSome = true) :
    h.Tells d k (.field .mplsLabel) ∧ h.Tells d k (.field .mplsTc) ∧
      h.Tells d k (.field .mplsBos) ∧ h.Tells d k .mplsTtl := by
  obtain ⟨e, is⟩ := Option.isSome_iff_exists.mp labelled
  have word := (told_of_parse read).mpls e is
  have base : h.base? d .mpls = some e.offset := by rw [base?, is, Option.map_some]
  refine ⟨⟨_, List.mem_singleton_self _, _, base, ?_⟩, ⟨_, List.mem_singleton_self _, _, base, ?_⟩,
    ⟨_, List.mem_singleton_self _, _, base, ?_⟩, ⟨_, List.mem_singleton_self _, _, base, ?_⟩⟩
  · show h.mpls.map (·.label) = some (((d.word 4 e.offset).extractLsb' 12 20).setWidth 32)
    rw [is, Option.map_some, MplsEntry.label, word, ← Bytes.ushiftRight_setWidth (n := 20) _ rfl,
      BitVec.setWidth_eq]
  · show h.mpls.map (·.trafficClass) = some (((d.word 4 e.offset).extractLsb' 9 3).setWidth 8)
    rw [is, Option.map_some, MplsEntry.trafficClass, word,
      Bytes.ushiftRight_and (n := 3) _ (by decide)]
  · show h.mpls.map (·.bottom) = some (((d.word 4 e.offset).extractLsb' 8 1).setWidth 8)
    rw [is, Option.map_some, MplsEntry.bottom, word, Bytes.ushiftRight_and (n := 1) _ (by decide)]
  · show h.mpls.map (·.ttl) = some (((d.word 4 e.offset).extractLsb' 0 8).setWidth 8)
    rw [is, Option.map_some, MplsEntry.ttl, word, BitVec.setWidth_eq,
      BitVec.setWidth_eq_extractLsb' (by decide)]

theorem tells_pbb (encapsulated : h.pbb.isSome = true) : h.Tells d k (.field .pbbIsid) := by
  obtain ⟨tag, is⟩ := Option.isSome_iff_exists.mp encapsulated
  have word := (told_of_parse read).pbb tag is
  have base : h.base? d .pbb = some tag.offset := by rw [base?, is, Option.map_some]
  refine ⟨_, List.mem_singleton_self _, _, base, ?_⟩
  show h.pbb.map (·.isid) = some (((d.word 4 tag.offset).extractLsb' 0 24).setWidth 32)
  rw [is, Option.map_some, word, Bytes.and_of_ones (n := 24) _ (by decide)]

theorem tells_arp (isArp : h.arp?.isSome = true) :
    h.Tells d k (.field .arpOp) ∧ h.Tells d k (.field .arpSha) ∧ h.Tells d k (.field .arpSpa) ∧
      h.Tells d k (.field .arpTha) ∧ h.Tells d k (.field .arpTpa) := by
  obtain ⟨a, is⟩ := Option.isSome_iff_exists.mp isArp
  have found := (told_of_parse read).arp a (arp?_eq_some.mp is)
  rw [Parse.arp?, Option.ite_none_left_eq_some] at found
  have same := (Option.some.inj found.2).symm
  have base : h.base? d .arp = some a.offset := by rw [base?, is, Option.map_some]
  have said {α : Type} (value : ArpHeader → α) : h.arp?.map value = some (value a) := by
    rw [is, Option.map_some]
  exact ⟨tells_whole rfl rfl (fun _ => rfl) base (said _) (congrArg (·.op.toNat) same),
    tells_whole rfl rfl (fun _ => rfl) base (said _) (congrArg (·.senderMac.toNat) same),
    tells_whole rfl rfl (fun _ => rfl) base (said _) (congrArg (·.senderIp.toNat) same),
    tells_whole rfl rfl (fun _ => rfl) base (said _) (congrArg (·.targetMac.toNat) same),
    tells_whole rfl rfl (fun _ => rfl) base (said _) (congrArg (·.targetIp.toNat) same)⟩

end

theorem tells_ipv4 {ip : IpHeader} {next : Option Nat} (is : h.ip? = some ip)
    (read : Parse.ipv4? d ip.offset = some (ip, next)) :
    h.Tells d k (.field .ipDscp) ∧ h.Tells d k (.field .ipEcn) ∧ h.Tells d k .ipTtl ∧
      h.Tells d k (.field .ipv4Src) ∧ h.Tells d k (.field .ipv4Dst) := by
  obtain ⟨-, within, isV4, -⟩ := Parse.ipv4?_within read
  obtain ⟨-, ecn, ttl, version⟩ := Parse.ipv4?_told read
  have base := base?_ipv4 (d := d) is isV4
  have long := within.inside
  rw [IpHeader.least_v4 isV4] at long
  refine ⟨⟨_, List.mem_cons_self, _, base, ?_⟩, ⟨_, List.mem_cons_self, _, base, ?_⟩,
    ⟨_, List.mem_cons_self, _, base, ?_⟩,
    tells_whole rfl rfl (fun _ => rfl) base (x := d.word 4 (ip.offset + 12)) ?_ rfl,
    tells_whole rfl rfl (fun _ => rfl) base (x := d.word 4 (ip.offset + 16)) ?_ rfl⟩
  · show h.ip?.map (·.dscp) = some (((d.word 2 ip.offset).extractLsb' 2 6).setWidth 8)
    rw [is, Option.map_some, Parse.ipv4?_dscp read, IpHeader.codePoint, if_pos isV4]
  · show h.ip?.map (·.ecn) = some (((d.word 2 ip.offset).extractLsb' 0 2).setWidth 8)
    rw [is, Option.map_some, ecn, Bytes.byte_succ_eq_extract (by omega),
      Bytes.and_of_ones (n := 2) _ (by decide),
      Bytes.extractLsb'_extractLsb' (j := 0) _ (by decide)]
  · show h.ip?.map (·.ttl) = some (((d.word 2 (ip.offset + 8)).extractLsb' 8 8).setWidth 8)
    rw [is, Option.map_some, ttl, Bytes.byte_eq_extract (by omega), BitVec.setWidth_eq]
  · simp only [PacketView.field?, version?, is, Option.map_some, version]
  · simp only [PacketView.field?, version?, is, Option.map_some, version]

theorem tells_ipv6 {ip : IpHeader} {next : Option Nat} (is : h.ip? = some ip)
    (read : Parse.ipv6? d ip.offset = some (ip, next)) :
    h.Tells d k (.field .ipDscp) ∧ h.Tells d k (.field .ipEcn) ∧ h.Tells d k .ipTtl ∧
      h.Tells d k (.field .ipv6Src) ∧ h.Tells d k (.field .ipv6Dst) ∧
        h.Tells d k (.field .ipv6Flabel) := by
  obtain ⟨-, within, isV4, -⟩ := Parse.ipv6?_within read
  obtain ⟨-, ecn, ttl, extensions, version⟩ := Parse.ipv6?_told read
  have base := base?_ipv6 (d := d) is isV4
  have long := within.inside
  rw [IpHeader.least_v6 isV4] at long
  have second (c e : Cell) : e ∈ [c, e] :=
    List.mem_cons_of_mem _ (List.mem_singleton_self e)
  refine ⟨⟨_, second _ _, _, base, ?_⟩, ⟨_, second _ _, _, base, ?_⟩,
    ⟨_, second _ _, _, base, ?_⟩,
    tells_whole rfl rfl (fun _ => rfl) base (x := d.word 16 (ip.offset + 8)) ?_ rfl,
    tells_whole rfl rfl (fun _ => rfl) base (x := d.word 16 (ip.offset + 24)) ?_ rfl,
    ⟨_, List.mem_singleton_self _, _, base, ?_⟩⟩
  · show h.ip?.map (·.dscp) = some (((d.word 2 ip.offset).extractLsb' 6 6).setWidth 8)
    rw [is, Option.map_some, Parse.ipv6?_dscp read, IpHeader.codePoint, if_neg (by simp [isV4])]
  · show h.ip?.map (·.ecn) = some (((d.word 4 ip.offset).extractLsb' 20 2).setWidth 8)
    rw [is, Option.map_some, ecn, Bytes.and_of_ones (n := 2) _ (by decide),
      Bytes.extractLsb'_ushiftRight _ (by decide)]
  · show h.ip?.map (·.ttl) = some (((d.word 2 (ip.offset + 6)).extractLsb' 0 8).setWidth 8)
    rw [is, Option.map_some, ttl, BitVec.setWidth_eq]
    exact congrArg some (Bytes.byte_succ_eq_extract (show ip.offset + 6 + 2 ≤ d.length by omega))
  · simp only [PacketView.field?, version?, is, Option.map_some, version]
  · simp only [PacketView.field?, version?, is, Option.map_some, version]
  · show PacketView.field? ⟨h, k⟩ .ipv6Flabel =
      some (((d.word 4 ip.offset).extractLsb' 0 20).setWidth 32)
    simp only [PacketView.field?, version?, is, Option.map_some, version]
    rw [Bytes.and_of_ones (n := 20) _ (by decide)]
    rfl

/-- Messages of a type have an address in an option of a type, and `link` is that address. -/
structure LinkOption (type : BitVec 8) (optionType : UInt8)
    (link : Icmpv6Header → MacAddress) : Prop where
  fitting : type = Icmpv6Header.neighborSolicitation ∧ optionType = 1 ∨
    type = Icmpv6Header.neighborAdvertisement ∧ optionType = 2
  link_eq (m : Icmpv6Header) : link m = if m.type == type then m.linkLayer else 0

namespace LinkOption

theorem source : LinkOption Icmpv6Header.neighborSolicitation 1 (·.sourceLinkLayer) where
  fitting := .inl ⟨rfl, rfl⟩
  link_eq _ := rfl

theorem target : LinkOption Icmpv6Header.neighborAdvertisement 2 (·.targetLinkLayer) where
  fitting := .inr ⟨rfl, rfl⟩
  link_eq _ := rfl

theorem isNeighbor {type : BitVec 8} {optionType : UInt8} {link : Icmpv6Header → MacAddress}
    (kind : LinkOption type optionType link) {m : Icmpv6Header} (typed : m.type = type) :
    m.isNeighbor = true := by
  rw [Icmpv6Header.isNeighbor, typed]
  rcases kind.fitting with ⟨rfl, -⟩ | ⟨rfl, -⟩ <;> rfl

end LinkOption

section

variable {o stop : Nat} {m : Icmpv6Header} {p : Option Nat}
  (is : h.transport = some ⟨o, .icmpv6 m, p⟩) (told : m = Parse.icmpv6 d o stop)
include is

theorem icmpv6?_of_transport : h.icmpv6? = some m := by
  rw [icmpv6?, transportHeader?, is]
  rfl

include told

theorem tells_icmpv6 (fits : o + 2 ≤ d.length) : h.Tells d k (.field .icmpv6Code) := by
  refine ⟨_, List.mem_singleton_self _, _, base?_of_transport is, ?_⟩
  show h.icmpv6?.map (·.code) = some (((d.word 2 o).extractLsb' 0 8).setWidth 8)
  rw [icmpv6?_of_transport is, Option.map_some, told, Parse.icmpv6_code, BitVec.setWidth_eq]
  exact congrArg some (Bytes.byte_succ_eq_extract fits)

theorem tells_target (neighbor : m.isNeighbor = true) (room : o + 24 ≤ stop)
    (inside : stop ≤ d.length) : h.Tells d k (.field .ipv6NdTarget) := by
  have accepted : (m.type == 0 || m.type == Icmpv6Header.neighborSolicitation
      || m.type == Icmpv6Header.neighborAdvertisement) = true := by
    rw [Bool.or_assoc]
    exact Bool.or_eq_true_iff.mpr (.inr neighbor)
  have base : h.base? d .target = some (o + 8) := by
    rw [base?, icmpv6Offset?_eq_some.mpr ⟨m, p, is, accepted⟩, Option.bind_some,
      if_pos (by omega)]
  have said : h.neighbor?.map (·.target) = some m.target := by
    rw [neighbor?, icmpv6?_of_transport is, Option.filter_some, if_pos neighbor, Option.map_some]
  refine tells_whole rfl rfl (fun _ => rfl) base said ?_
  subst told
  rw [(Parse.icmpv6_neighbor neighbor).1, if_pos room]
  rfl

/-- The address in the option that the messages of a type carry. -/
theorem link_of_option {type : BitVec 8} {optionType : UInt8} {link : Icmpv6Header → MacAddress}
    (kind : LinkOption type optionType link) (typed : m.type = type)
    (room : o + 32 ≤ stop) (inside : stop ≤ d.length) (here : d[o + 24]? = some optionType)
    (unit : d[o + 25]? = some 1) :
    h.linkOffset? d type optionType = some (o + 26) ∧
      h.neighbor?.map link = some (d.word 6 (o + 26)) := by
  have neighbor := kind.isNeighbor typed
  have found : FieldWrite.icmpv6Offset? h (· == type) = some o :=
    icmpv6Offset?_eq_some.mpr ⟨m, p, is, beq_iff_eq.mpr typed⟩
  constructor
  · rw [linkOffset?, found, Option.bind_some, if_pos ⟨here, unit, by omega⟩]
  · rw [neighbor?, icmpv6?_of_transport is, Option.filter_some, if_pos neighbor, Option.map_some,
      kind.link_eq, if_pos (beq_iff_eq.mpr typed)]
    have first : d.byte (o + 24) = optionType.toBitVec := by rw [Bytes.byte, here]; rfl
    have second : d.byte (o + 25) = 1 := by rw [Bytes.byte, unit]; rfl
    have same : d.byte o = type := by rw [← typed, told, Parse.icmpv6_type]
    subst told
    rw [(Parse.icmpv6_neighbor neighbor).2, first, second, same, decide_eq_true room]
    rcases kind.fitting with ⟨rfl, rfl⟩ | ⟨rfl, rfl⟩ <;> rfl

end

/-! ## Every value that has a place -/

theorem transportHeader?_of_transport {o : Nat} {header : TransportHeader} {p : Option Nat}
    (is : h.transport = some ⟨o, header, p⟩) : h.transportHeader? = some header := by
  rw [transportHeader?, is, Option.map_some]

theorem transport_of_icmpv6? {m : Icmpv6Header} (is : h.icmpv6? = some m) :
    ∃ o p, h.transport = some ⟨o, .icmpv6 m, p⟩ := by
  unfold icmpv6? at is
  split at is
  · rename_i header
    obtain ⟨⟨o, kind, p⟩, there, rfl⟩ := Option.map_eq_some_iff.mp header
    cases is
    exact ⟨o, p, there⟩
  · cases is

theorem transport_of_option {m : Icmpv6Header} {type : UInt8} (is : h.icmpv6? = some m)
    (room : h.option d type = true) : ∃ o p, h.transport = some ⟨o, .icmpv6 m, p⟩ ∧
      o + 32 ≤ h.networkStop ∧ d[o + 24]? = some type ∧ d[o + 25]? = some 1 := by
  obtain ⟨o, p, there⟩ := transport_of_icmpv6? is
  rw [option, transportOffset, there, Option.map_some, Option.any_some] at room
  simp only [Bool.and_eq_true, decide_eq_true_eq, beq_iff_eq] at room
  exact ⟨o, p, there, room⟩

section

variable (read : parse d = .ok h)
include read

theorem transport_told {o : Nat} {header : TransportHeader} {p : Option Nat}
    (is : h.transport = some ⟨o, header, p⟩) :
    Parse.HeaderTold d o h.networkStop header ∧ o + header.least ≤ h.networkStop ∧
      h.networkStop ≤ d.length := by
  obtain ⟨ip, network, found⟩ := (told_of_parse read).transport _ is
  have network : h.network = some (.ip ip) := network
  have stop : h.networkStop = ip.stop := by rw [networkStop, ip?_eq_some.mpr network]
  rw [stop]
  exact ⟨Parse.transport?_told found, (Parse.transport?_within found).2,
    ((laid_of_parse read).upper.ip ip network).2.stop⟩

theorem tells_ip (isIp : h.ip?.isSome = true) :
    h.Tells d k (.field .ipDscp) ∧ h.Tells d k (.field .ipEcn) ∧ h.Tells d k .ipTtl := by
  obtain ⟨ip, is⟩ := Option.isSome_iff_exists.mp isIp
  obtain ⟨next, found⟩ := (told_of_parse read).ip ip (ip?_eq_some.mp is)
  cases isV4 : ip.isV4 with
  | true =>
    rw [isV4, if_pos rfl] at found
    obtain ⟨dscp, ecn, ttl, -⟩ := tells_ipv4 (k := k) is found
    exact ⟨dscp, ecn, ttl⟩
  | false =>
    rw [isV4, if_neg (by decide)] at found
    obtain ⟨dscp, ecn, ttl, -⟩ := tells_ipv6 (k := k) is found
    exact ⟨dscp, ecn, ttl⟩

theorem tells_address4 (isV4 : h.ip?.any (·.isV4) = true) :
    h.Tells d k (.field .ipv4Src) ∧ h.Tells d k (.field .ipv4Dst) := by
  obtain ⟨ip, is, isV4⟩ := (Option.any_eq_true _ _).mp isV4
  obtain ⟨next, found⟩ := (told_of_parse read).ip ip (ip?_eq_some.mp is)
  rw [if_pos isV4] at found
  exact (tells_ipv4 is found).2.2.2

theorem tells_address6 (isV6 : h.ip?.any (·.isV6) = true) :
    h.Tells d k (.field .ipv6Src) ∧ h.Tells d k (.field .ipv6Dst) ∧
      h.Tells d k (.field .ipv6Flabel) := by
  obtain ⟨ip, is, isV6⟩ := (Option.any_eq_true _ _).mp isV6
  obtain ⟨next, found⟩ := (told_of_parse read).ip ip (ip?_eq_some.mp is)
  rw [if_neg (by simpa [IpHeader.isV6] using isV6)] at found
  exact (tells_ipv6 is found).2.2.2

theorem transport_of_speaks {l : Layer} (speaks : h.speaks l = true) :
    ∃ o header p, h.transport = some ⟨o, header, p⟩ ∧ Layer.ofTransport header = l ∧
      Parse.HeaderTold d o h.networkStop header ∧ o + header.least ≤ d.length := by
  obtain ⟨⟨o, header, p⟩, is, kind⟩ := (Option.any_eq_true _ _).mp speaks
  obtain ⟨told, fits, stop⟩ := transport_told read is
  exact ⟨o, header, p, is, of_decide_eq_true kind, told, Nat.le_trans fits stop⟩

theorem tells_transport {l : Layer} (speaks : h.speaks l = true) :
    match l with
    | .tcp => h.Tells d k (.field .tcpSrc) ∧ h.Tells d k (.field .tcpDst)
    | .udp => h.Tells d k (.field .udpSrc) ∧ h.Tells d k (.field .udpDst)
    | .sctp => h.Tells d k (.field .sctpSrc) ∧ h.Tells d k (.field .sctpDst)
    | .icmpv4 => h.Tells d k (.field .icmpv4Type) ∧ h.Tells d k (.field .icmpv4Code)
    | .icmpv6 => h.Tells d k (.field .icmpv6Code)
    | _ => True := by
  obtain ⟨o, header, p, is, rfl, told, fits⟩ := transport_of_speaks read speaks
  have base := base?_of_transport (d := d) is
  have said := transportHeader?_of_transport is
  cases header with
  | tcp a b | udp a b | sctp a b =>
    exact ⟨tells_whole rfl rfl (fun _ => rfl) base (by simp only [PacketView.field?, said])
        (congrArg BitVec.toNat told.1),
      tells_whole rfl rfl (fun _ => rfl) base (by simp only [PacketView.field?, said])
        (congrArg BitVec.toNat told.2)⟩
  | icmpv4 a b =>
    have fits : o + 4 ≤ d.length := fits
    refine ⟨⟨_, List.mem_singleton_self _, _, base, ?_⟩,
      ⟨_, List.mem_singleton_self _, _, base, ?_⟩⟩
    · show PacketView.field? ⟨h, k⟩ .icmpv4Type =
        some (((d.word 2 o).extractLsb' 8 8).setWidth 8)
      simp only [PacketView.field?, said, BitVec.setWidth_eq]
      exact congrArg some (told.1.trans (Bytes.byte_eq_extract (by omega)))
    · show PacketView.field? ⟨h, k⟩ .icmpv4Code =
        some (((d.word 2 o).extractLsb' 0 8).setWidth 8)
      simp only [PacketView.field?, said, BitVec.setWidth_eq]
      exact congrArg some (told.2.trans (Bytes.byte_succ_eq_extract (by omega)))
  | icmpv6 m =>
    have fits : o + 4 ≤ d.length := fits
    exact tells_icmpv6 is told (by omega)

theorem link_told {type : BitVec 8} {optionType : UInt8} {link : Icmpv6Header → MacAddress}
    (kind : LinkOption type optionType link) (typed : h.icmpv6?.any (·.type == type) = true)
    (room : h.option d optionType = true) :
    ∃ b, h.linkOffset? d type optionType = some b ∧
      h.neighbor?.map link = some (d.word 6 b) := by
  obtain ⟨m, found, typed⟩ := (Option.any_eq_true _ _).mp typed
  obtain ⟨o, p, is, room, here, unit⟩ := transport_of_option found room
  obtain ⟨told, -, stop⟩ := transport_told read is
  exact ⟨_, link_of_option is told kind (eq_of_beq typed) room stop here unit⟩

/-- A value that has a place is read from its cell. -/
theorem tells_of_parse {r : Reading} (carried : h.carries d r = true) (celled : r.cells ≠ []) :
    h.Tells d k r := by
  obtain ⟨bears, room⟩ := Bool.and_eq_true_iff.mp carried
  cases r with
  | field f =>
    cases f with
    | ethDst => exact (tells_ethernet read).1
    | ethSrc => exact (tells_ethernet read).2
    | vlanVid => exact (tells_tag read bears).1
    | vlanPcp => exact (tells_tag read bears).2.1
    | mplsLabel => exact (tells_mpls read bears).1
    | mplsTc => exact (tells_mpls read bears).2.1
    | mplsBos => exact (tells_mpls read bears).2.2.1
    | pbbIsid => exact tells_pbb read bears
    | arpOp => exact (tells_arp read bears).1
    | arpSha => exact (tells_arp read bears).2.1
    | arpSpa => exact (tells_arp read bears).2.2.1
    | arpTha => exact (tells_arp read bears).2.2.2.1
    | arpTpa => exact (tells_arp read bears).2.2.2.2
    | ipDscp => exact (tells_ip read bears).1
    | ipEcn => exact (tells_ip read bears).2.1
    | ipv4Src => exact (tells_address4 read bears).1
    | ipv4Dst => exact (tells_address4 read bears).2
    | ipv6Src => exact (tells_address6 read bears).1
    | ipv6Dst => exact (tells_address6 read bears).2.1
    | ipv6Flabel => exact (tells_address6 read bears).2.2
    | tcpSrc => exact (tells_transport read bears).1
    | tcpDst => exact (tells_transport read bears).2
    | udpSrc => exact (tells_transport read bears).1
    | udpDst => exact (tells_transport read bears).2
    | sctpSrc => exact (tells_transport read bears).1
    | sctpDst => exact (tells_transport read bears).2
    | icmpv4Type => exact (tells_transport read bears).1
    | icmpv4Code => exact (tells_transport read bears).2
    | icmpv6Code => exact tells_transport read bears
    | ipv6NdTarget =>
      obtain ⟨m, found⟩ := Option.isSome_iff_exists.mp bears
      obtain ⟨found, neighbor⟩ := Option.filter_eq_some_iff.mp found
      obtain ⟨o, p, is⟩ := transport_of_icmpv6? found
      obtain ⟨told, -, stop⟩ := transport_told read is
      rw [hasRoom, transportOffset, is, Option.map_some, Option.any_some,
        decide_eq_true_eq] at room
      exact tells_target is told neighbor room stop
    | ipv6NdSll =>
      obtain ⟨b, base, said⟩ := link_told read .source bears room
      exact tells_whole rfl rfl (fun _ => rfl) base said rfl
    | ipv6NdTll =>
      obtain ⟨b, base, said⟩ := link_told read .target bears room
      exact tells_whole rfl rfl (fun _ => rfl) base said rfl
    | inPort | inPhyPort | metadata | ethType | ipProto | icmpv6Type | tunnelId | ipv6Exthdr =>
      exact absurd rfl celled
  | ipTtl => exact (tells_ip read bears).2.2
  | mplsTtl => exact (tells_mpls read bears).2.2.2
  | dei => exact (tells_tag read bears).2.2

end

end

end Headers

end FlowSwitch
