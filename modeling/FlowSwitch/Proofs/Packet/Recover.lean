import FlowSwitch.Proofs.Packet.Decode
import FlowSwitch.Proofs.Packet.Extent

/-!
# Headers of composed frames

Reading a composed frame gives back what it was composed of.
-/

namespace FlowSwitch

namespace Compose

open Bytes

@[simp]
theorem length_stack (labels : List Label) : (Label.stack labels).length = 4 * labels.length := by
  induction labels with
  | nil => rfl
  | cons l more ih =>
    rw [Label.stack, List.length_append, length_ofWord, ih, List.length_cons]
    omega

@[simp]
theorem length_tags (tags : List Tag) : (tags.flatMap Tag.bytes).length = 4 * tags.length := by
  induction tags with
  | nil => rfl
  | cons tag more ih =>
    rw [List.flatMap_cons, List.length_append, ih, Tag.bytes, List.length_append, length_ofWord,
      length_ofWord, List.length_cons]
    omega

theorem Internet.upper_ethType (ip : Internet) (d : Bytes) (o : Nat) :
    Parse.upper d ip.ethType o = Parse.ipUpper d (ip.read? d o) := by
  unfold Internet.ethType
  split
  · rename_i version
    rw [Parse.upper, if_neg (by decide), if_pos rfl, Internet.read?, version]
  · rename_i version
    rw [Parse.upper, if_neg (by decide), if_neg (by decide), if_pos rfl, Internet.read?, version]

/-- The first nibble of an IP header picks its reader. -/
theorem Internet.peek (ip : Internet) (upper : BitVec 8) (n : Nat) (rest d : Bytes) (o : Nat) :
    ∃ first more, ip.bytes upper n ++ rest = first :: more ∧
      (if first >>> 4 = 4 then Parse.ipUpper d (Parse.ipv4? d o)
        else if first >>> 4 = 6 then Parse.ipUpper d (Parse.ipv6? d o) else {}) =
          Parse.ipUpper d (ip.read? d o) := by
  unfold Internet.bytes Internet.read?
  cases ip.version with
  | v4 identification flags checksum src dst options =>
    simp only [ofWord_one, List.append_assoc, List.cons_append]
    exact ⟨_, _, rfl, by rw [if_pos options.control_v4.2]⟩
  | v6 flowLabel src dst extensions =>
    have nibble := (control_v6 (ip.dscp ++ ip.ecn) flowLabel).2.2
    simp only [ofWord_four, List.append_assoc, List.cons_append]
    refine ⟨_, _, rfl, ?_⟩
    rw [nibble]
    rfl

end Compose

namespace Composition

open Bytes Compose

variable (f : Composition)

theorem datagram_ne_nil : f.datagram ≠ [] := by
  obtain ⟨first, more, spelled, -⟩ :=
    f.network.peek f.segment.protocol f.body.length f.body [] 0
  rw [datagram, spelled]
  exact List.cons_ne_nil _ _

/-- What stands behind the ethertype. -/
theorem drop_labelOffset :
    f.bytes.drop f.labelOffset = Label.stack f.labels ++ (f.datagram ++ f.padding) := by
  have length : (ofWord 6 f.dst ++ ofWord 6 f.src ++ f.tags.flatMap Tag.bytes
      ++ ofWord 2 f.ethType).length = f.labelOffset := by
    simp only [List.length_append, length_ofWord, length_tags, labelOffset]
    omega
  rw [bytes, List.append_assoc _ f.datagram, List.append_assoc _ (Label.stack f.labels)]
  exact List.drop_left' length

theorem datagram_start : f.datagram <+: f.bytes.drop f.networkOffset := by
  rw [networkOffset, ← List.drop_drop, drop_labelOffset, List.drop_left' (length_stack f.labels)]
  exact List.prefix_append ..

theorem labelOffset_lt : f.labelOffset < f.bytes.length := by
  have filled : Label.stack f.labels ++ f.datagram ≠ [] :=
    List.append_ne_nil_of_right_ne_nil _ f.datagram_ne_nil
  have spelled : Label.stack f.labels ++ f.datagram <+: f.bytes.drop f.labelOffset := by
    rw [drop_labelOffset, ← List.append_assoc]
    exact List.prefix_append ..
  have positive := List.length_pos_iff.mpr filled
  have inside := length_of_start spelled filled
  omega

theorem ethType_cases : f.ethType = EtherType.ipv4 ∨ f.ethType = EtherType.ipv6 ∨
    f.ethType = EtherType.mpls ∨ f.ethType = EtherType.mplsMulticast := by
  unfold ethType Internet.ethType
  split
  · split
    · exact .inl rfl
    · exact .inr (.inl rfl)
  · split
    · exact .inr (.inr (.inr rfl))
    · exact .inr (.inr (.inl rfl))

theorem ethType_plain :
    ¬ f.ethType ≤ EtherType.maxLength ∧ EtherType.isVlan f.ethType = false := by
  rcases f.ethType_cases with type | type | type | type <;> rw [type] <;> decide

/-- The addresses and what the walk over tags comes to. -/
theorem ether_told : f.bytes.word 6 0 = f.dst ∧ f.bytes.word 6 6 = f.src ∧
    Parse.etherTags (f.bytes.word 2 12) 14 {} none (f.bytes.drop 14) =
      ⟨f.ethType, { ethernet2 := true }, f.tags.head?.map fun tag => ⟨12, tag.tpid, tag.tci⟩,
        some f.labelOffset⟩ := by
  have whole : f.bytes = ofWord 6 f.dst ++ (ofWord 6 f.src ++ (f.tags.flatMap Tag.bytes ++
      (ofWord 2 f.ethType ++ (Label.stack f.labels ++ (f.datagram ++ f.padding))))) := by
    simp only [bytes, List.append_assoc]
  have long : 12 + 2 ≤ f.bytes.length := by
    have inside := f.labelOffset_lt
    unfold labelOffset at inside
    omega
  have behind : f.bytes.drop 12 = f.tags.flatMap Tag.bytes ++
      (ofWord 2 f.ethType ++ (Label.stack f.labels ++ (f.datagram ++ f.padding))) := by
    rw [whole, ← List.append_assoc]
    exact List.drop_left' (by rw [List.length_append, length_ofWord, length_ofWord])
  have first : f.bytes.drop 12 = ofWord 2 (f.bytes.word 2 12) ++ f.bytes.drop 14 := by
    have rest : f.bytes.drop 14 = (f.bytes.drop 12).drop 2 := by rw [List.drop_drop]
    rw [ofWord_word long, rest, List.take_append_drop]
  have start : ofWord 6 f.dst ++ _ <+: f.bytes.drop 0 := ⟨[], by rw [List.append_nil, ← whole]; rfl⟩
  obtain ⟨dst, start⟩ := word_of_start start
  obtain ⟨src, -⟩ := word_of_start start
  refine ⟨dst, src, ?_⟩
  rw [etherTags_of_tags f.ethType_plain.1 f.ethType_plain.2 f.tags (behind.symm.trans first)]
  rfl

/-- The IP header and what it leads to. -/
theorem ipUpper_told :
    Parse.ipUpper f.bytes (f.network.read? f.bytes f.networkOffset) =
      { network := some (.ip (f.network.header f.segment.protocol f.body.length f.networkOffset))
        transport := some (f.segment.transport f.payload f.transportOffset) } := by
  have length : f.body.length = f.segment.bytes.length + f.payload.length := List.length_append
  have fits : f.network.length f.body.length < 2 ^ 16 := by
    rw [length]
    exact f.fits
  have proto : (f.network.header f.segment.protocol f.body.length f.networkOffset).proto
      = f.segment.protocol := rfl
  have transport := f.segment.transport?_of_start proto
    (by rw [Internet.header, length, ← Nat.add_assoc]) (skip_of_start f.datagram_start)
  rw [f.network.read?_of_start f.segment.final fits f.datagram_start, Parse.ipUpper,
    Option.bind_some, transport]
  rfl

/-- The layers above Ethernet. -/
theorem upper_told :
    Parse.upper f.bytes f.ethType f.labelOffset =
      { mpls := f.labels.head?.map fun l =>
          ⟨f.labelOffset, l.word (if f.labels.length = 1 then 1 else 0)⟩
        network := some (.ip (f.network.header f.segment.protocol f.body.length f.networkOffset))
        transport := some (f.segment.transport f.payload f.transportOffset) } := by
  have ip := f.ipUpper_told
  cases labels : f.labels with
  | nil =>
    have offset : f.networkOffset = f.labelOffset := by
      rw [networkOffset, labels]
      rfl
    have type : f.ethType = f.network.ethType := by
      rw [ethType, labels]
      rfl
    rw [type, f.network.upper_ethType, ← offset, ip]
    rfl
  | cons l more =>
    have behind := f.drop_labelOffset
    rw [labels] at behind
    have offset : f.networkOffset = f.labelOffset + 4 * (more.length + 1) := by
      rw [networkOffset, labels]
      rfl
    have type : f.ethType = EtherType.mpls ∨ f.ethType = EtherType.mplsMulticast := by
      rw [ethType, labels]
      cases f.multicast
      · exact .inl rfl
      · exact .inr rfl
    have reader : Parse.upper f.bytes f.ethType f.labelOffset =
        Parse.mplsUpper f.bytes f.labelOffset := by
      rcases type with type | type <;>
        rw [type, Parse.upper, if_neg (by decide), if_neg (by decide), if_neg (by decide),
          if_pos (by decide)]
    have entry : ofWord 4 (l.word (if more.isEmpty then 1 else 0)) ++
        (Label.stack more ++ (f.datagram ++ f.padding)) <+: f.bytes.drop f.labelOffset := by
      refine ⟨[], ?_⟩
      rw [behind, Label.stack, List.append_nil, List.append_assoc]
    have room := length_of_start entry (by rw [ofWord_four]; exact List.cons_ne_nil _ _)
    rw [List.length_append, length_ofWord] at room
    have word : f.bytes.word? 4 f.labelOffset =
        some (l.word (if more.isEmpty then 1 else 0)) := by
      rw [word?_eq_word (by omega), (word_of_start entry).1]
    obtain ⟨first, tail, spelled, peek⟩ := f.network.peek f.segment.protocol f.body.length
      (f.body ++ f.padding) f.bytes f.networkOffset
    rw [← List.append_assoc, ← datagram] at spelled
    have bottom : (if (l :: more).length = 1 then 1 else 0 : BitVec 1) =
        if more.isEmpty then 1 else 0 := by
      cases more with
      | nil => rfl
      | cons => rfl
    rw [reader, Parse.mplsUpper, word]
    dsimp only
    rw [behind, labelStackEnd_of_stack, ← offset, spelled]
    dsimp only
    rw [peek, ip, bottom]
    rfl

/-- The headers that are read from a composed frame. -/
def headers : Headers where
  length := f.bytes.length
  ethDst := f.dst
  ethSrc := f.src
  ethType := f.ethType
  framing := { ethernet2 := true }
  vlan := f.tags.head?.map fun tag => ⟨12, tag.tpid, tag.tci⟩
  payload := some f.labelOffset
  mpls := f.labels.head?.map fun l =>
    ⟨f.labelOffset, l.word (if f.labels.length = 1 then 1 else 0)⟩
  pbb := none
  network := some (.ip (f.network.header f.segment.protocol f.body.length f.networkOffset))
  transport := some (f.segment.transport f.payload f.transportOffset)

theorem parse_bytes : Headers.parse f.bytes = .ok f.headers := by
  obtain ⟨dst, src, ether⟩ := f.ether_told
  have inside := f.labelOffset_lt
  have long : ¬ f.bytes.length < ParseError.required := by
    unfold labelOffset at inside
    unfold ParseError.required
    omega
  have payload : (some f.labelOffset).filter (· < f.bytes.length) = some f.labelOffset := by
    simp [inside]
  rw [Headers.parse, if_neg (by omega), if_neg long, ether]
  dsimp only
  rw [payload, Option.map_some, Option.getD_some, f.upper_told, dst, src]
  rfl

theorem payload_start : f.payload <+: f.bytes.drop f.payloadOffset :=
  skip_of_start (skip_of_start f.datagram_start)

theorem networkStop_headers : f.headers.networkStop = f.payloadOffset + f.payload.length := by
  have length : f.body.length = f.segment.bytes.length + f.payload.length := List.length_append
  show f.networkOffset + (f.network.bytes f.segment.protocol f.body.length).length +
    f.body.length = f.payloadOffset + f.payload.length
  rw [payloadOffset, transportOffset]
  omega

/-- Every frame that can be composed is read, and its headers tell what was composed. -/
theorem recovered : ∃ h, Headers.parse f.bytes = .ok h ∧ f.Recovered h := by
  refine ⟨f.headers, f.parse_bytes, ?_⟩
  have payload : f.headers.transport.bind (·.payload) =
      if f.payload = [] then none else some f.payloadOffset := rfl
  have length : f.headers.transportPayloadLength = f.payload.length := by
    rw [Headers.transportPayloadLength, payload, f.networkStop_headers]
    cases f.payload with
    | nil => rfl
    | cons => simp
  constructor
  case addresses => exact ⟨rfl, rfl⟩
  case tagged =>
    rw [Headers.getLsbD_format_vlan, headers]
    cases f.tags <;> rfl
  case tag =>
    rw [headers]
    cases f.tags with
    | nil => rfl
    | cons tag more =>
      simp only [List.head?_cons, Option.map_some, VlanTag.vid, VlanTag.pcp, tag.vid_tci,
        tag.pcp_tci]
  case ethType => rfl
  case label =>
    rw [headers]
    cases f.labels with
    | nil => rfl
    | cons l more =>
      obtain ⟨label, trafficClass, bottom, ttl⟩ := l.entry_told
        (if (l :: more).length = 1 then 1 else 0) f.labelOffset
      simp only [List.head?_cons, Option.map_some, label, trafficClass, bottom, ttl]
      split <;> rfl
  case network => rfl
  case ip => exact ⟨_, rfl, rfl, rfl, rfl, rfl, rfl⟩
  case transport => rfl
  case transportOffset => rfl
  case payload => exact payload
  case payloadLength => exact length
  case payloadBytes =>
    rw [length, ← List.prefix_iff_eq_take.mp f.payload_start]

end Composition

end FlowSwitch
