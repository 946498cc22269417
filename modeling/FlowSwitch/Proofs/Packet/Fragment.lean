import FlowSwitch.Proofs.Match.Coverage
import FlowSwitch.Proofs.Packet.Checksums
import FlowSwitch.Proofs.Packet.Extent
import FlowSwitch.Proofs.Packet.Padding
import FlowSwitch.Proofs.Packet.Shape

/-!
# Fragments

Only the first fragment of a datagram begins with a transport header. An IPv4 header says in its
own words which fragment it leads, and nothing is read or written behind one that leads another.
The fragment header of IPv6 says the same, but the walk over the extension headers reads no more
of it than the number of the next header: what it says of the fragment is not looked at.
-/

namespace FlowSwitch

namespace Field

/-- The fields that a transport header carries. -/
def isTransport : Field → Bool
  | tcpSrc | tcpDst | udpSrc | udpDst | sctpSrc | sctpDst | icmpv4Type | icmpv4Code
  | icmpv6Type | icmpv6Code | ipv6NdTarget | ipv6NdSll | ipv6NdTll => true
  | _ => false

end Field

namespace Parse

variable {d d' : Bytes} {o : Nat}

/-- The offset of the fragment that an IPv4 header leads, in units of eight bytes. -/
def fragmentOffset (d : Bytes) (o : Nat) : BitVec 16 := d.word 2 (o + 6) &&& 0x1fff

/-- Behind the header of a fragment that is not the first nothing follows. -/
theorem ipv4?_fragment {ip : IpHeader} {next : Option Nat} (read : ipv4? d o = some (ip, next))
    (later : fragmentOffset d o ≠ 0) : next = none := by
  unfold ipv4? at read
  simp only [Bool.or_eq_true, decide_eq_true_eq, Option.ite_none_left_eq_some] at read
  obtain ⟨-, read⟩ := read
  obtain ⟨-, rfl⟩ := Prod.mk.inj (Option.some.inj read)
  exact if_neg later

/-- The two bytes of a fragment header that say which fragment it is are not read. -/
theorem chainOf_overwrite {q : Nat} (fragment : Extends d o .fragment q) (w : BitVec 16) :
    chainOf (d.overwrite (q + 2) (Bytes.ofWord 2 w)) o = chainOf d o := by
  have behind := fragment.fits.1
  have byte {i : Nat} (apart : i < q + 2 ∨ q + 4 ≤ i) :
      (d.overwrite (q + 2) (Bytes.ofWord 2 w)).byte i = d.byte i := by
    have length : (Bytes.ofWord 2 w).length = 2 := Bytes.length_ofWord 2 w
    rw [Bytes.byte, Bytes.byte, Bytes.getElem?_overwrite_of_apart (by omega)]
  rw [chainOf, byte (.inl (by omega))]
  refine chainAt_congr (Bytes.length_overwrite ..) _ _ _ fun e q' passes => ?_
  have apart := fragment.apart passes
  exact ⟨byte (by omega), byte (by omega)⟩

theorem ipUpper_overwrite {q : Nat} (fragment : Extends d o .fragment q) (w : BitVec 16) :
    ipUpper (d.overwrite (q + 2) (Bytes.ofWord 2 w))
        (ipv6? (d.overwrite (q + 2) (Bytes.ofWord 2 w)) o) = ipUpper d (ipv6? d o) := by
  have behind := fragment.fits.1
  have agree : Bytes.AgreeBelow (q + 2) d (d.overwrite (q + 2) (Bytes.ofWord 2 w)) :=
    .overwrite _ d _ (Nat.le_refl _)
  have same : ipv6? (d.overwrite (q + 2) (Bytes.ofWord 2 w)) o = ipv6? d o := by
    rw [ipv6?_agree (agree.mono (by omega)), chainOf_overwrite fragment w]
    exact (ipv6?_agree (.refl (o + 40) d)).symm
  rw [same]
  cases read : ipv6? d o with
  | none => rfl
  | some found =>
    obtain ⟨ip, next⟩ := found
    have chained := ipv6?_next read
    have transport : next.bind (transport? (d.overwrite (q + 2) (Bytes.ofWord 2 w)) ip) =
        next.bind (transport? d ip) := by
      refine Option.bind_congr fun p is => transport?_agree agree.length fun i from_ _ => ?_
      have after := fragment.before_payload (chained.symm.trans is)
      have length : (Bytes.ofWord 2 w).length = 2 := Bytes.length_ofWord 2 w
      exact Bytes.getElem?_overwrite_of_apart (by omega)
    simp only [ipUpper, transport]

end Parse

namespace Headers

open Parse (fragmentOffset Extends)

variable {d : Bytes} {h : Headers} {ip : IpHeader}

theorem transport_of_fragment (read : parse d = .ok h) (is : h.ip? = some ip)
    (isV4 : ip.isV4 = true) (later : fragmentOffset d ip.offset ≠ 0) : h.transport = none := by
  have network : h.network = some (.ip ip) := ip?_eq_some.mp is
  have here := eq_replaced read is
  rw [here] at network ⊢
  obtain ⟨ip', next, found, same⟩ := Parse.ipUpper_network network
  obtain rfl := Network.ip.inj same
  rw [isV4, if_pos rfl] at found
  obtain rfl := Parse.ipv4?_fragment found later
  show (Parse.ipLayers d ip.isV4 ip.offset).transport = none
  rw [Parse.ipLayers, isV4, if_pos rfl, found]
  rfl

/-- Without a transport header a packet says nothing of the fields that one carries. -/
theorem field?_of_transport (bare : h.transport = none) (c : PacketContext) {f : Field}
    (carried : f.isTransport = true) : PacketView.field? ⟨h, c⟩ f = none := by
  have header : h.transportHeader? = none := by rw [transportHeader?, bare, Option.map_none]
  have message : h.icmpv6? = none := by rw [icmpv6?, header]
  have neighbor : h.neighbor? = none := by rw [neighbor?, message, Option.filter_none]
  cases f with
  | tcpSrc | tcpDst | udpSrc | udpDst | sctpSrc | sctpDst | icmpv4Type | icmpv4Code =>
    simp only [PacketView.field?, header]
  | icmpv6Type | icmpv6Code =>
    simp only [PacketView.field?, message]
    rfl
  | ipv6NdTarget | ipv6NdSll | ipv6NdTll =>
    simp only [PacketView.field?, neighbor]
    rfl
  | _ => cases carried

/-- A match that looks at a field of which the packet says nothing does not select it. -/
theorem selects_of_field? {m : Match} {v : PacketView} {f : Field} (unsaid : v.field? f = none)
    (other : f ≠ .vlanVid) (valid : (m.get f).valid = true) (looks : (m.get f).mask ≠ 0) :
    m.selects v = false := by
  refine Bool.eq_false_iff.mpr fun selected => ?_
  have covered := (Match.covers_iff.mp selected).1 f other
  rw [Match.ofPacket_get, unsaid] at covered
  simp only [Pattern.covers, valid, Pattern.ofSaid, Option.map_none, Option.getD_none,
    Pattern.wildcard, Bool.not_true, Bool.false_or, Bool.false_and, Bool.or_false,
    beq_iff_eq] at covered
  exact looks covered

/-- Behind an IPv4 header that leads a fragment other than the first there is no transport header:
none is reported, no match looks at one, and no field of any match is written there. Of an IPv6
header the same cannot be said: the word of a fragment header that holds the offset has no part in
what is read, whatever it is. -/
theorem parse_fragment (read : parse d = .ok h) (is : h.ip? = some ip) :
    (ip.isV4 = true → fragmentOffset d ip.offset ≠ 0 →
      h.marked transportMarks = [] ∧ h.transportOffset = none ∧
        (∀ (m : Match) (c : PacketContext) (f : Field), f.isTransport = true →
          (m.get f).valid = true → (m.get f).mask ≠ 0 → m.selects ⟨h, c⟩ = false) ∧
        ∀ (m : Match) (i : Nat), ip.offset + ip.least ≤ i →
          (FieldWrite.setFields h m d)[i]? = d[i]?) ∧
    (ip.isV4 = false → ∀ q, Extends d ip.offset .fragment q → ∀ w,
      parse (d.overwrite (q + 2) (Bytes.ofWord 2 w)) = .ok h) := by
  have laid := laid_of_parse read
  constructor
  · intro isV4 later
    have bare := transport_of_fragment read is isV4 later
    refine ⟨?_, ?_, fun m c f carried valid looks => ?_, fun m i behind => ?_⟩
    · rw [marked_transport, transportHeader?, bare]
      rfl
    · rw [transportOffset, bare]
      rfl
    · refine selects_of_field? (field?_of_transport bare c carried) ?_ valid looks
      rintro rfl
      cases carried
    · exact (inside_setFields laid (steady_refl h d) m).between laid (ip?_eq_some.mp is) behind
        (.inl bare)
  · intro isV6 q fragment w
    have behind := fragment.fits.1
    have agree : Bytes.AgreeBelow (q + 2) d (d.overwrite (q + 2) (Bytes.ofWord 2 w)) :=
      .overwrite _ d _ (Nat.le_refl _)
    have layers : Parse.ipLayers (d.overwrite (q + 2) (Bytes.ofWord 2 w)) ip.isV4 ip.offset =
        Parse.ipLayers d ip.isV4 ip.offset := by
      rw [Parse.ipLayers, Parse.ipLayers, isV6, if_neg Bool.false_ne_true,
        if_neg Bool.false_ne_true]
      exact Parse.ipUpper_overwrite fragment w
    rw [parse_replaced read is (agree.mono (by omega)), layers, ← eq_replaced read is]

/-- A frame with the second fragment of a datagram over IPv6: eight bytes of data. -/
def laterFragment : Bytes := [
  0x02, 0x00, 0x00, 0x00, 0x00, 0x02, 0x02, 0x00, 0x00, 0x00, 0x00, 0x01, 0x86, 0xdd,
  0x60, 0x00, 0x00, 0x00, 0x00, 0x10, 0x2c, 0x40,
  0x20, 0x01, 0x0d, 0xb8, 0x00, 0x00, 0x00, 0x00, 0x00, 0x00, 0x00, 0x00, 0x00, 0x00, 0x00, 0x01,
  0x20, 0x01, 0x0d, 0xb8, 0x00, 0x00, 0x00, 0x00, 0x00, 0x00, 0x00, 0x00, 0x00, 0x00, 0x00, 0x02,
  0x11, 0x00, 0x00, 0x08, 0x00, 0x00, 0x00, 0x01,
  0x61, 0x62, 0x63, 0x64, 0x65, 0x66, 0x67, 0x68]

def laterFragmentIp : IpHeader :=
  ⟨14, 70, 0, 0, 64, 17, .v6 0x20010db8000000000000000000000001
    0x20010db8000000000000000000000002 0 { fragment := true }⟩

/-- The data of the fragment passes for a UDP header. -/
def laterFragmentHeaders : Headers where
  length := 70
  ethDst := 0x020000000002
  ethSrc := 0x020000000001
  ethType := EtherType.ipv6
  framing := { ethernet2 := true }
  vlan := none
  payload := some 14
  mpls := none
  pbb := none
  network := some (.ip laterFragmentIp)
  transport := some ⟨62, .udp 0x6162 0x6364, none⟩

theorem extends_laterFragment : Extends laterFragment 14 .fragment 54 :=
  .here (by decide) (by decide)

theorem parse_laterFragment : parse laterFragment = .ok laterFragmentHeaders := by
  decide +kernel

/-- A segment over IPv4 that its header makes a later fragment. -/
def laterSegment : Bytes := Frame.segment.overwrite 20 [0x00, 0x01]

theorem parse_fragment_later :
    parse laterSegment = .ok { Frame.segmentHeaders with transport := none } ∧
      fragmentOffset laterSegment 14 = 1 ∧
      (Match.any.set .tcpDst (.exact 80)).selects
        ⟨{ Frame.segmentHeaders with transport := none }, {}⟩ = false ∧
      (FieldWrite.setFields { Frame.segmentHeaders with transport := none } Frame.readdressing
        laterSegment)[36]? = some 0x00 ∧
      parse laterFragment = .ok laterFragmentHeaders ∧
      parse (laterFragment.overwrite 56 [0x00, 0x00]) = .ok laterFragmentHeaders := by
  have read : parse laterSegment = .ok { Frame.segmentHeaders with transport := none } := by
    decide
  have later : fragmentOffset laterSegment 14 = 1 := by decide
  have notFirst : fragmentOffset laterSegment Frame.segmentIp.offset ≠ 0 := by decide
  obtain ⟨-, -, selects, written⟩ := (parse_fragment read rfl).1 rfl notFirst
  refine ⟨read, later, selects _ _ .tcpDst rfl (by decide) (by decide), ?_, parse_laterFragment, ?_⟩
  · rw [written _ 36 (by decide)]
    decide
  · exact (parse_fragment parse_laterFragment rfl).2 rfl 54 extends_laterFragment 0

/-- The data of a later fragment over IPv6 is taken for a transport header. -/
theorem not_parse_fragment :
    ¬∀ (d : Bytes) (h : Headers) (ip : IpHeader) (q : Nat), parse d = .ok h → h.ip? = some ip →
      ip.isV4 = false → Extends d ip.offset .fragment q → d.word 2 (q + 2) &&& 0xfff8 ≠ 0 →
        h.transport = none := by
  intro claimed
  have bare := claimed laterFragment laterFragmentHeaders laterFragmentIp 54 parse_laterFragment
    rfl rfl extends_laterFragment (by decide)
  cases bare

end Headers

end FlowSwitch
