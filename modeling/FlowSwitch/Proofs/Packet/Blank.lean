import FlowSwitch.Proofs.Packet.Silence

/-!
# Headers without values

What was read of a frame has a part that setting fields looks at, namely which layers there are
and where, and a part it does not look at, the values of the fields. Only a VLAN tag is spelled
out from the value that was read.
-/

namespace FlowSwitch

namespace IpVersion

def blank : IpVersion → IpVersion
  | v4 .. => v4 0 0
  | v6 _ _ _ extensions => v6 0 0 0 extensions

end IpVersion

namespace IpHeader

def blank (ip : IpHeader) : IpHeader :=
  { ip with dscp := 0, ecn := 0, ttl := 0, version := ip.version.blank }

@[simp]
theorem blank_isV4 (ip : IpHeader) : ip.blank.isV4 = ip.isV4 := by
  unfold isV4 blank IpVersion.blank
  cases ip.version <;> rfl

@[simp]
theorem blank_isV6 (ip : IpHeader) : ip.blank.isV6 = ip.isV6 := by
  rw [isV6, isV6, blank_isV4]

end IpHeader

namespace Network

def blank : Network → Network
  | arp header => arp ⟨header.offset, 0, 0, 0, 0, 0⟩
  | ip header => ip header.blank

end Network

namespace TransportHeader

def blank : TransportHeader → TransportHeader
  | tcp .. => tcp 0 0
  | udp .. => udp 0 0
  | sctp .. => sctp 0 0
  | icmpv4 .. => icmpv4 0 0
  | icmpv6 m => icmpv6 ⟨m.type, 0, 0, 0⟩

end TransportHeader

namespace Transport

def blank (t : Transport) : Transport := { t with header := t.header.blank }

end Transport

namespace Parse

def Upper.blank (u : Upper) : Upper where
  mpls := u.mpls.map fun e => ⟨e.offset, 0⟩
  pbb := u.pbb.map fun tag => ⟨tag.offset, 0⟩
  network := u.network.map Network.blank
  transport := u.transport.map Transport.blank

end Parse

namespace Headers

/-- The headers with zeros for the values of fields. -/
def blank (h : Headers) : Headers where
  length := h.length
  ethDst := 0
  ethSrc := 0
  ethType := h.ethType
  framing := h.framing
  vlan := h.vlan.map fun tag => ⟨tag.offset, tag.tpid, 0⟩
  payload := h.payload
  mpls := h.upper.blank.mpls
  pbb := h.upper.blank.pbb
  network := h.upper.blank.network
  transport := h.upper.blank.transport

variable {h h' : Headers} {d₀ d d' : Bytes} {live : Bool}

theorem blank_transport (h : Headers) : h.blank.transport = h.transport.map Transport.blank := rfl

theorem blank_ip? (h : Headers) : h.blank.ip? = h.ip?.map IpHeader.blank := by
  unfold ip? blank Parse.Upper.blank upper
  cases h.network with
  | none => rfl
  | some n => cases n <;> rfl

theorem blank_arp? (h : Headers) : h.blank.arp?.map (·.offset) = h.arp?.map (·.offset) := by
  unfold arp? blank Parse.Upper.blank upper
  cases h.network with
  | none => rfl
  | some n => cases n <;> rfl

theorem blank_networkStop (h : Headers) : h.blank.networkStop = h.networkStop := by
  unfold networkStop
  rw [blank_ip?]
  cases h.ip? <;> rfl

theorem blank_icmpv6Offset? (h : Headers) (accepts : BitVec 8 → Bool) :
    FieldWrite.icmpv6Offset? h.blank accepts = FieldWrite.icmpv6Offset? h accepts := by
  unfold FieldWrite.icmpv6Offset?
  rw [blank_transport]
  cases h.transport with
  | none => rfl
  | some t =>
    obtain ⟨o, header, p⟩ := t
    cases header <;> rfl

theorem blank_base? (h : Headers) (d : Bytes) (l : Layer) : h.blank.base? d l = h.base? d l := by
  have versions (accepts : IpHeader → Bool) (same : ∀ ip, accepts ip.blank = accepts ip) :
      (h.blank.ip?.filter accepts).map (·.offset) = (h.ip?.filter accepts).map (·.offset) := by
    rw [blank_ip?]
    cases h.ip? with
    | none => rfl
    | some ip =>
      rw [Option.map_some, Option.filter_some, Option.filter_some, same]
      split
      · rfl
      · rfl
  have kinds : (h.blank.transport.filter fun t => Layer.ofTransport t.header = l).map (·.offset) =
      (h.transport.filter fun t => Layer.ofTransport t.header = l).map (·.offset) := by
    rw [blank_transport]
    cases h.transport with
    | none => rfl
    | some t =>
      have same : Layer.ofTransport t.blank.header = Layer.ofTransport t.header := by
        obtain ⟨o, header, p⟩ := t
        cases header <;> rfl
      rw [Option.map_some, Option.filter_some, Option.filter_some, same]
      split
      · rfl
      · rfl
  have link (type : BitVec 8) (optionType : UInt8) :
      h.blank.linkOffset? d type optionType = h.linkOffset? d type optionType := by
    rw [linkOffset?, linkOffset?, blank_icmpv6Offset?]
  cases l with
  | ethernet | etherType => rfl
  | tci =>
    unfold base? blank
    rw [Option.map_map]
    rfl
  | mpls =>
    show (h.mpls.map _).map _ = h.mpls.map _
    rw [Option.map_map]
    rfl
  | pbb =>
    show (h.pbb.map _).map _ = h.pbb.map _
    rw [Option.map_map]
    rfl
  | arp => exact blank_arp? h
  | ipv4 => exact versions _ IpHeader.blank_isV4
  | ipv6 => exact versions _ IpHeader.blank_isV6
  | target => rw [base?, base?, blank_icmpv6Offset?]
  | sourceLink => exact link _ _
  | targetLink => exact link _ _
  | tcp => exact kinds
  | udp => exact kinds
  | sctp => exact kinds
  | icmpv4 => exact kinds
  | icmpv6 => exact kinds

theorem blank_pseudoSum (h : Headers) (live : Bool) :
    h.blank.pseudoSum live = h.pseudoSum live := by
  unfold pseudoSum
  rw [blank_transport]
  cases h.transport with
  | none => rfl
  | some t =>
    obtain ⟨o, header, p⟩ := t
    cases header <;> rfl

theorem blank_covering (h : Headers) (live : Bool) (s : Spot) :
    h.blank.covering live s = h.covering live s := by
  unfold covering
  rw [blank_pseudoSum]

theorem blank_live (h : Headers) (d : Bytes) : h.blank.live d = h.live d := by
  unfold live
  rw [blank_transport]
  cases h.transport with
  | none => rfl
  | some t =>
    obtain ⟨o, header, p⟩ := t
    cases header <;> rfl

theorem blank_silence (h : Headers) (d : Bytes) : h.blank.silence d = h.silence d := by
  unfold silence
  rw [blank_transport]
  cases h.transport with
  | none => rfl
  | some t =>
    obtain ⟨o, header, p⟩ := t
    cases header <;> rfl

theorem blank_reseal (h : Headers) (d : Bytes) : h.blank.reseal d = h.reseal d := by
  unfold reseal FieldWrite.updateSctp
  rw [blank_transport, blank_networkStop]
  cases h.transport with
  | none => rfl
  | some t =>
    obtain ⟨o, header, p⟩ := t
    cases header <;> rfl

/-! ## Headers that differ in values only -/

/-- The tag counts where the field is a part of it. -/
theorem spell_congr {f : Field} (tag : f.isTag = true → h'.vlan.map (·.tci) = h.vlan.map (·.tci))
    (v : BitVec f.width) : h'.spell f v = h.spell f v := by
  cases f with
  | vlanVid => simp only [spell, idWord, tagWord, tag rfl]
  | vlanPcp => simp only [spell, priorityWord, tagWord, tag rfl]
  | _ => rfl

section

variable (same : h'.blank = h.blank)
include same

theorem live_congr : h'.live = h.live := by
  funext d
  rw [← blank_live, same, blank_live]

theorem silence_congr : h'.silence = h.silence := by
  funext d
  rw [← blank_silence, same, blank_silence]

theorem reseal_congr : h'.reseal = h.reseal := by
  funext d
  rw [← blank_reseal, same, blank_reseal]

theorem base?_blank_congr (d : Bytes) (l : Layer) : h'.base? d l = h.base? d l := by
  rw [← blank_base?, same, blank_base?]

theorem put_congr (steady : h.Steady d₀ d) {f : Field}
    (tag : f.isTag = true → h'.vlan.map (·.tci) = h.vlan.map (·.tci)) (live : Bool)
    (v : BitVec f.width) : h'.put live d f v = h.put live d₀ f v := by
  have place : h'.place? d = h.place? d₀ := by
    funext s
    rw [place?, place?, base?_blank_congr same, steady.base]
  have covers (s : Spot) : h'.covering live s = h.covering live s := by
    rw [← blank_covering, same, blank_covering]
  have edit : h'.edit? live d = h.edit? live d₀ := by
    funext write
    rw [edit?, edit?, place, covers]
  funext x
  rw [put, put, edits, edits, script, script, edit, spell_congr tag, resealIf, resealIf,
    reseal_congr same]

end

end Headers

end FlowSwitch
