import FlowSwitch.Match.Packet
import FlowSwitch.Proofs.Packet.Moved

/-!
# Tags and the other fields

A VLAN tag that is pushed moves everything behind the addresses. The frame is read as before,
under the new tag, and a match sees no difference but that there is a tag.
-/

namespace FlowSwitch

namespace Bytes

variable {d d' : Bytes} {n o m : Nat}

theorem moved_insertAt (inside : o ≤ d.length) (s : Bytes) :
    Moved s.length o d (d.insertAt o s) := by
  have front : (d.take o ++ s).length = o + s.length := by
    rw [List.length_append, List.length_take, Nat.min_eq_left inside]
  refine ⟨length_insertAt d o s, fun i from_ => ?_⟩
  rw [insertAt, List.getElem?_append_right (by omega), front, List.getElem?_drop]
  congr 1
  omega

theorem take_insertAt (inside : o ≤ d.length) (s : Bytes) : (d.insertAt o s).take o = d.take o := by
  have front : (d.take o).length = o := by rw [List.length_take, Nat.min_eq_left inside]
  rw [insertAt, List.append_assoc, List.take_left' front]

/-- A word before a place is told by the bytes before it. -/
theorem word_of_take (same : d'.take m = d.take m) (inside : o + n ≤ m) (fits : m ≤ d.length)
    (fits' : m ≤ d'.length) : d'.word n o = d.word n o := by
  have here := word?_slice (d := d') inside fits'
  rw [same, word?_slice inside fits] at here
  exact (Option.some.inj here).symm

end Bytes

namespace Tagging

/-- The bytes of a tag. -/
def tagBytes (tpid tci : BitVec 16) : Bytes := Bytes.ofWord 2 tpid ++ Bytes.ofWord 2 tci

theorem length_tagBytes (tpid tci : BitVec 16) : (tagBytes tpid tci).length = 4 := by
  rw [tagBytes, List.length_append, Bytes.length_ofWord, Bytes.length_ofWord]

end Tagging

namespace Match

variable {m : Match} {f g : Field}

theorem get_set_of_ne {p : Pattern g.width} (other : f ≠ g) : (m.set g p).get f = m.get f :=
  dif_neg (Ne.symm other)

theorem set_get_self {p : Pattern f.width} (same : m.get f = p) : m.set f p = m := by
  ext1
  funext g
  by_cases here : g = f
  · subst here
    exact (dif_pos rfl).trans same.symm
  · exact get_set_of_ne here

/-- The match of a packet once it has got a tag. Untagged before, it has the id zero and the
priority zero then. -/
def ofTagged (v : PacketView) : Match :=
  if v.headers.vlan.isSome then ofPacket v
  else ((ofPacket v).set .vlanVid (.exact Vlan.present)).set .vlanPcp (.exact 0)

end Match

/-- The same walk in a frame with one more tag, outside all others. -/
def Parse.EtherEnd.under (e : EtherEnd) (tag : VlanTag) : EtherEnd where
  ethType := e.ethType
  framing := { e.framing with ethernet2 := true }
  vlan := some tag
  payload := e.payload.map (· + 4)

namespace Headers

open Parse (EtherEnd etherEnd)
open Tagging (tagBytes)

variable {d d' : Bytes} {h : Headers} {tpid tci : BitVec 16}

/-- The same headers in a frame with one more tag, outside all others. -/
def under (h : Headers) (tag : VlanTag) : Headers :=
  { h with
    length := h.length + 4
    framing := { h.framing with ethernet2 := true }
    vlan := some tag
    payload := h.payload.map (· + 4)
    mpls := h.mpls.map (MplsEntry.moved 4)
    pbb := h.pbb.map (PbbTag.moved 4)
    network := h.network.map (Network.moved 4)
    transport := h.transport.map (Transport.moved 4) }

/-- The walk to the innermost ethertype takes the new tag first and is then as before. -/
theorem etherEnd_insertAt (long : 14 ≤ d.length) (isVlan : EtherType.isVlan tpid = true)
    (tci : BitVec 16) :
    etherEnd (d.insertAt 12 (tagBytes tpid tci)) = (etherEnd d).under ⟨12, tpid, tci⟩ := by
  have front : (d.take 12).length = 12 := by rw [List.length_take, Nat.min_eq_left (by omega)]
  obtain ⟨hi, lo, begins, word⟩ := Parse.drop_eq_word (d := d) (o := 12) (by omega)
  have spelled : (d.insertAt 12 (tagBytes tpid tci)).drop 12 =
      Bytes.ofWord 2 tpid ++ (Bytes.ofWord 2 tci ++ d.drop 12) := by
    rw [Bytes.insertAt, List.append_assoc, List.drop_left' front, tagBytes, List.append_assoc]
  obtain ⟨type, value⟩ := Bytes.word_of_spelled spelled
  have value : (d.insertAt 12 (tagBytes tpid tci)).drop 14 =
      Bytes.high tci :: Bytes.low tci :: hi :: lo :: d.drop 14 := by
    rw [value, Bytes.ofWord_two, begins]
    rfl
  rw [etherEnd, type, value, Parse.etherTags_tag isVlan, Bytes.append_high_low, ← word]
  exact Parse.etherTags_moved 4 ⟨12, tpid, tci⟩ (d.word 2 12) 14 {} none (d.drop 14)

theorem payload_under (length : d'.length = d.length + 4) (ended : EtherEnd) (tag : VlanTag) :
    (ended.under tag).payload.filter (· < d'.length) =
      (ended.payload.filter (· < d.length)).map (· + 4) := by
  rw [EtherEnd.under, length]
  cases ended.payload with
  | none => rfl
  | some p => simp [Option.filter_some, apply_ite (Option.map (· + 4))]

/-- Everything that stands behind the addresses is moved by one tag. -/
theorem assemble_under (moved : Bytes.Moved 4 12 d d') (same : d'.take 12 = d.take 12)
    (long : 12 ≤ d.length) {ended : EtherEnd} (behind : ∀ p, ended.payload = some p → 12 ≤ p)
    (tag : VlanTag) : assemble d' (ended.under tag) = (assemble d ended).under tag := by
  have length := moved.length
  have address (o : Nat) (inside : o + 6 ≤ 12) : d'.word 6 o = d.word 6 o :=
    Bytes.word_of_take same inside long (by omega)
  have upper : (((ended.payload.filter (· < d.length)).map (· + 4)).map
      (Parse.upper d' ended.ethType)).getD {} =
        (((ended.payload.filter (· < d.length)).map (Parse.upper d ended.ethType)).getD {}).moved
          4 := by
    cases start : ended.payload.filter (· < d.length) with
    | none => rfl
    | some p =>
      exact Parse.upper_moved moved (behind p (Option.filter_eq_some_iff.mp start).1) ended.ethType
  simp only [assemble, address 0 (by decide), address 6 (by decide), payload_under length]
  rw [length, show (ended.under tag).ethType = ended.ethType from rfl, upper]
  rfl

/-- A frame with a new tag is read as before, under that tag. -/
theorem parse_insertAt (read : parse d = .ok h) (isVlan : EtherType.isVlan tpid = true)
    (tci : BitVec 16) :
    parse (d.insertAt 12 (tagBytes tpid tci)) = .ok (h.under ⟨12, tpid, tci⟩) := by
  obtain ⟨long, rfl⟩ := eq_assemble read
  have inside : 12 ≤ d.length := by omega
  have within := Parse.etherTags_within (d.word 2 12) 14 {} none (d := d) rfl long (by decide)
  have moved := Bytes.moved_insertAt inside (tagBytes tpid tci)
  rw [Tagging.length_tagBytes] at moved
  have longer := moved.length
  rw [parse_of_long (by omega), etherEnd_insertAt long isVlan, assemble_under moved
    (Bytes.take_insertAt inside _) inside]
  intro p ended
  have behind := (within.payload p ended).1
  omega

/-! ## What a match sees -/

section

variable (h : Headers) (tag : VlanTag)

theorem under_arp? : (h.under tag).arp? = h.arp?.map (ArpHeader.moved 4) := by
  unfold arp? under
  cases h.network with
  | none => rfl
  | some network => cases network <;> rfl

theorem under_ip? : (h.under tag).ip? = h.ip?.map (IpHeader.moved 4) := by
  unfold ip? under
  cases h.network with
  | none => rfl
  | some network => cases network <;> rfl

theorem under_version? : (h.under tag).version? = h.version? := by
  rw [version?, under_ip?, Option.map_map]
  rfl

theorem under_transportHeader? : (h.under tag).transportHeader? = h.transportHeader? := by
  rw [transportHeader?, transportHeader?, under, Option.map_map]
  rfl

theorem under_icmpv6? : (h.under tag).icmpv6? = h.icmpv6? := by
  rw [icmpv6?, icmpv6?, under_transportHeader?]

theorem under_neighbor? : (h.under tag).neighbor? = h.neighbor? := by
  rw [neighbor?, neighbor?, under_icmpv6?]

end

/-- Without the fields of the tag, a packet has the same values under one more tag. -/
theorem field?_under (framed : (h.framing.ethernet2 || h.framing.snap) = true) (tag : VlanTag)
    (c : PacketContext) {f : Field} (notId : f ≠ .vlanVid) (notPriority : f ≠ .vlanPcp) :
    PacketView.field? ⟨h.under tag, c⟩ f = PacketView.field? ⟨h, c⟩ f := by
  cases f with
  | vlanVid => exact absurd rfl notId
  | vlanPcp => exact absurd rfl notPriority
  | ethType =>
    have framed' : ((h.under tag).framing.ethernet2 || (h.under tag).framing.snap) = true := rfl
    simp only [PacketView.field?, framed, framed', if_pos]
    rfl
  | mplsLabel | mplsTc | mplsBos | pbbIsid =>
    simp only [PacketView.field?, under]
    exact Option.map_map ..
  | arpOp | arpSpa | arpTpa | arpSha | arpTha =>
    simp only [PacketView.field?, under_arp?]
    exact Option.map_map ..
  | ipDscp | ipEcn | ipProto =>
    simp only [PacketView.field?, under_ip?]
    exact Option.map_map ..
  | ipv4Src | ipv4Dst | ipv6Src | ipv6Dst | ipv6Flabel | ipv6Exthdr =>
    simp only [PacketView.field?, under_version?]
  | tcpSrc | tcpDst | udpSrc | udpDst | sctpSrc | sctpDst | icmpv4Type | icmpv4Code =>
    simp only [PacketView.field?, under_transportHeader?]
  | icmpv6Type | icmpv6Code => simp only [PacketView.field?, under_icmpv6?]
  | ipv6NdTarget | ipv6NdSll | ipv6NdTll => simp only [PacketView.field?, under_neighbor?]
  | _ => rfl

/-- The match of a packet under one more tag. -/
theorem ofPacket_under (framed : (h.framing.ethernet2 || h.framing.snap) = true) (tag : VlanTag)
    (c : PacketContext) :
    Match.ofPacket ⟨h.under tag, c⟩ =
      ((Match.ofPacket ⟨h, c⟩).set .vlanVid (.exact (tag.vid ||| Vlan.present))).set .vlanPcp
        (.exact tag.pcp) := by
  ext1
  funext f
  by_cases notPriority : f = .vlanPcp
  · subst notPriority
    rfl
  · by_cases notId : f = .vlanVid
    · subst notId
      rfl
    · rw [Match.get_set_of_ne notPriority, Match.get_set_of_ne notId]
      exact congrArg (fun x => (x.map Pattern.exact).getD .wildcard)
        (field?_under framed tag c notId notPriority)

end Headers

namespace Frame

open Tagging (tagBytes)

/-- A new tag repeats the one that was outermost, so it tells nothing new of a tagged packet. -/
theorem ofPacket_repeated {h : Headers} (c : PacketContext)
    (framed : (h.framing.ethernet2 || h.framing.snap) = true) (tpid : BitVec 16) :
    Match.ofPacket ⟨h.under ⟨12, tpid, (h.vlan.map (·.tci)).getD 0⟩, c⟩ =
      Match.ofTagged ⟨h, c⟩ := by
  rw [Headers.ofPacket_under framed, Match.ofTagged]
  dsimp only
  cases tagged : h.vlan with
  | none =>
    have id : VlanTag.vid ⟨12, tpid, 0⟩ ||| Vlan.present = Vlan.present := by simp [VlanTag.vid]
    have priority : VlanTag.pcp ⟨12, tpid, 0⟩ = 0 := by simp [VlanTag.pcp]
    rw [Option.map_none, Option.getD_none, id, priority, Option.isSome_none,
      if_neg Bool.false_ne_true]
    rfl
  | some outer =>
    have id : (Match.ofPacket ⟨h, c⟩).get .vlanVid = .exact (outer.vid ||| Vlan.present) := by
      simp only [Match.ofPacket, PacketView.field?, tagged]
      rfl
    have priority : (Match.ofPacket ⟨h, c⟩).get .vlanPcp = .exact outer.pcp := by
      simp only [Match.ofPacket, PacketView.field?, tagged]
      rfl
    rw [Option.isSome_some, if_pos rfl]
    exact (congrArg (·.set .vlanPcp (.exact outer.pcp)) (Match.set_get_self id)).trans
      (Match.set_get_self priority)

/-- A tag is pushed, if there is room, and no field of a match but those of the tag tells. -/
theorem pushVlan_transparent {f : Frame} {v : PacketView} (held : f.view = some v)
    (read : Headers.parse f.data = .ok v.headers)
    (framed : (v.headers.framing.ethernet2 || v.headers.framing.snap) = true) {tpid : BitVec 16}
    (isVlan : EtherType.isVlan tpid = true) (room : f.length + 4 ≤ Bytes.maxFrame) :
    ∃ g w, (Action.pushVlan tpid).edit f = (.ok (), g) ∧ g.view = some w ∧
      Headers.parse g.data = .ok w.headers ∧ Match.ofPacket w = .ofTagged v := by
  obtain ⟨data, view⟩ := f
  obtain rfl : view = some v := held
  have read : Headers.parse data = .ok v.headers := read
  have room : data.length + 4 ≤ Bytes.maxFrame := room
  have long := (Headers.eq_assemble read).1
  generalize copied : (v.headers.vlan.map (·.tci)).getD 0 = tci
  have size := Tagging.length_tagBytes tpid tci
  have pushed : Tagging.pushVlan tpid v.headers data =
      .ok (some (data.insertAt 12 (tagBytes tpid tci))) := by
    have inserted : data.insert 12 (tagBytes tpid tci) =
        .ok (data.insertAt 12 (tagBytes tpid tci)) :=
      Bytes.insert_of_room (by omega) (by rw [size]; exact room)
    rw [Tagging.pushVlan, copied, ← tagBytes, inserted]
    rfl
  have again := Headers.parse_insertAt read isVlan tci
  refine ⟨⟨_, some ⟨v.headers.under ⟨12, tpid, tci⟩, v.context⟩⟩, _, ?_, rfl, again, ?_⟩
  · simp only [Action.edit, edit, ensureParsed, headers?, Option.map_some, pushed, reparse, again,
      Option.getD_some]
    rfl
  · rw [← copied]
    exact ofPacket_repeated v.context framed tpid

/-- An ARP request behind a length and a SNAP header. -/
def request : Bytes := [
  0xff, 0xff, 0xff, 0xff, 0xff, 0xff, 0x02, 0x00, 0x00, 0x00, 0x00, 0x01, 0x00, 0x24,
  0xaa, 0xaa, 0x03, 0x00, 0x00, 0x00, 0x08, 0x06,
  0x00, 0x01, 0x08, 0x00, 0x06, 0x04, 0x00, 0x01,
  0x02, 0x00, 0x00, 0x00, 0x00, 0x01, 0x0a, 0x00, 0x00, 0x01,
  0x00, 0x00, 0x00, 0x00, 0x00, 0x00, 0x0a, 0x00, 0x00, 0x02]

def requestHeaders : Headers where
  length := 50
  ethDst := 0xffffffffffff
  ethSrc := 0x020000000001
  ethType := EtherType.arp
  framing := { ethernet2 := true, snap := true }
  vlan := none
  payload := some 22
  mpls := none
  pbb := none
  network := some (.arp ⟨22, 1, 0x020000000001, 0x0a000001, 0, 0x0a000002⟩)
  transport := none

theorem pushVlan_transparent_request :
    Headers.parse request = .ok requestHeaders ∧
      ∃ g w, (Action.pushVlan EtherType.serviceVlan).edit
          ⟨request, some ⟨requestHeaders, {}⟩⟩ = (.ok (), g) ∧ g.view = some w ∧
        (Match.ofPacket w).get .ethType = .exact EtherType.arp ∧
        (Match.ofPacket w).get .arpTpa = .exact 0x0a000002 ∧
        (Match.ofPacket w).get .vlanVid = .exact 0x1000 := by
  have read : Headers.parse request = .ok requestHeaders := by decide
  have isVlan : EtherType.isVlan EtherType.serviceVlan = true := rfl
  obtain ⟨g, w, pushed, view, -, seen⟩ := pushVlan_transparent
    (f := ⟨request, some ⟨requestHeaders, {}⟩⟩) rfl read rfl isVlan (by decide)
  refine ⟨read, g, w, pushed, view, ?_⟩
  rw [seen]
  decide

end Frame

end FlowSwitch
