import FlowSwitch.Proofs.Packet.Access

/-!
# Headers inside their frame

A frame is read if it holds an Ethernet header, and refused for its length otherwise. What was
read says where it was read, and these places lie inside the frame, with as many bytes behind
them as the header has at least. The bitmap tells one network header if there is one, and one
transport header if there is one.
-/

namespace FlowSwitch

/-- The bit of a network header in the bitmap, and the bytes that such a header has at least. -/
def Network.mark : Network → Nat × Nat
  | arp _ => (8, 28)
  | ip header => if header.isV4 then (9, 20) else (10, 40)

/-- The bit of a transport header in the bitmap, and the bytes that such a header has at least. -/
def TransportHeader.mark : TransportHeader → Nat × Nat
  | icmpv4 .. => (11, 4)
  | icmpv6 .. => (12, 4)
  | tcp .. => (16, 20)
  | udp .. => (17, 8)
  | sctp .. => (18, 12)

namespace Headers

/-- The bits of the bitmap for ARP, IPv4 and IPv6, each with the length of the shortest header. -/
def networkMarks : List (Nat × Nat) := [(8, 28), (9, 20), (10, 40)]

/-- The bits of the bitmap for ICMPv4, ICMPv6, TCP, UDP and SCTP, each with the length of the
shortest header. -/
def transportMarks : List (Nat × Nat) := [(11, 4), (12, 4), (16, 20), (17, 8), (18, 12)]

/-- Those of some marks whose bits are set. -/
def marked (h : Headers) (marks : List (Nat × Nat)) : List (Nat × Nat) :=
  marks.filter fun mark => h.format.getLsbD mark.1

/-- Where headers were read lies inside the frame `d`. -/
structure Within (h : Headers) (d : Bytes) : Prop where
  vlan : ∀ tag, h.vlan = some tag → 12 ≤ tag.offset ∧ tag.offset + 6 ≤ d.length ∧
    EtherType.isVlan tag.tpid = true ∧ d.word? 2 tag.offset = some tag.tpid ∧
      d.word? 2 (tag.offset + 2) = some tag.tci
  payload : ∀ p, h.payload = some p → 14 ≤ p ∧ p < d.length
  mpls : ∀ e, h.mpls = some e → h.payload = some e.offset ∧ e.offset + 4 ≤ d.length
  pbb : ∀ tag, h.pbb = some tag → h.payload = some tag.offset ∧ tag.offset + 4 ≤ d.length
  oneNetwork : (h.marked networkMarks).length = h.networkOffset.toList.length
  network : ∀ o, h.networkOffset = some o → ∀ mark ∈ h.marked networkMarks,
    o + mark.2 ≤ h.networkStop ∧ h.networkStop ≤ d.length
  oneTransport : (h.marked transportMarks).length = h.transportOffset.toList.length
  transport : ∀ o, h.transportOffset = some o → h.ip?.isSome = true ∧
    (∃ n, h.networkOffset = some n ∧ n + 20 ≤ o) ∧
      ∀ mark ∈ h.marked transportMarks, o + mark.2 ≤ h.networkStop
  transportPayload : ∀ q, h.transport.bind (·.payload) = some q →
    q + h.transportPayloadLength = h.networkStop

/-! ## The bitmap -/

theorem getLsbD_power (n i : Nat) (small : i < 32) :
    (((1 <<< n : Nat) : BitVec 32)).getLsbD i = decide (n = i) := by
  show (BitVec.ofNat 32 (1 <<< n)).getLsbD i = _
  rw [BitVec.getLsbD_ofNat, Nat.one_shiftLeft, Nat.testBit_two_pow, decide_eq_true small,
    Bool.true_and]

/-- The bitmap has the bits of what was recognised, and no others. -/
theorem getLsbD_format (h : Headers) {i : Nat} (small : i < 32) :
    h.format.getLsbD i =
      (h.framing.ethernet2 && decide (0 = i) || h.framing.llc && decide (1 = i)
        || h.framing.snap && decide (2 = i) || h.vlan.isSome && decide (3 = i)
        || h.mpls.isSome && decide (4 = i) || h.pbb.isSome && decide (5 = i)
        || h.network.any (fun n => n.mark.1 = i)
        || h.transportHeader?.any (fun t => t.mark.1 = i)) := by
  have power (n : Nat) := getLsbD_power n i small
  have flag (c : Bool) (n : Nat) :
      (if c = true then ((1 <<< n : Nat) : BitVec 32) else 0).getLsbD i =
        (c && decide (n = i)) := by
    cases c
    · exact BitVec.getLsbD_zero
    · exact power n
  unfold format
  simp only [BitVec.getLsbD_or]
  rw [flag _ 0, flag _ 1, flag _ 2, flag _ 3, flag _ 4, flag _ 5]
  congr 1
  · congr 1
    cases h.network with
    | none => exact BitVec.getLsbD_zero
    | some n =>
      cases n with
      | arp => exact power 8
      | ip header =>
        simp only [Network.mark, Option.any_some, if_true]
        split
        · exact power 9
        · exact power 10
  · cases h.transportHeader? with
    | none => exact BitVec.getLsbD_zero
    | some t =>
      cases t with
      | icmpv4 => exact power 11
      | icmpv6 => exact power 12
      | tcp => exact power 16
      | udp => exact power 17
      | sctp => exact power 18

/-- Network headers have the bits from 8 to 10. -/
theorem network_any_mark (h : Headers) {i : Nat} (outside : i < 8 ∨ 11 ≤ i) :
    h.network.any (fun n => n.mark.1 = i) = false := by
  rw [Option.any_eq_false]
  intro n _
  have range : 8 ≤ n.mark.1 ∧ n.mark.1 < 11 := by
    cases n with
    | arp => simp [Network.mark]
    | ip header => cases v4 : header.isV4 <;> simp [Network.mark, v4]
  exact decide_eq_false (by omega)

/-- Transport headers have bits from 11 on. -/
theorem transport_any_mark (h : Headers) {i : Nat} (below : i < 11) :
    h.transportHeader?.any (fun t => t.mark.1 = i) = false := by
  rw [Option.any_eq_false]
  intro t _
  have range : 11 ≤ t.mark.1 := by cases t <;> exact Nat.le_of_ble_eq_true rfl
  exact decide_eq_false (by omega)

/-- Above the bits for framing, tags and labels, the bitmap has those of the network header and of
the transport header. -/
theorem getLsbD_format_layers (h : Headers) {i : Nat} (large : 6 ≤ i) (small : i < 32) :
    h.format.getLsbD i = (h.network.any (fun n => n.mark.1 = i) ||
      h.transportHeader?.any (fun t => t.mark.1 = i)) := by
  have apart (n : Nat) (low : n < 6) : decide (n = i) = false := decide_eq_false (by omega)
  rw [h.getLsbD_format small, apart 0 (by decide), apart 1 (by decide), apart 2 (by decide),
    apart 3 (by decide), apart 4 (by decide), apart 5 (by decide)]
  simp

theorem getLsbD_format_vlan (h : Headers) : h.format.getLsbD 3 = h.vlan.isSome := by
  rw [h.getLsbD_format (by decide), h.network_any_mark (.inl (by decide)),
    h.transport_any_mark (by decide)]
  simp

theorem marked_network (h : Headers) :
    h.marked networkMarks = (h.network.map Network.mark).toList := by
  have bit (mark) (listed : mark ∈ networkMarks) :
      h.format.getLsbD mark.1 = h.network.any (fun n => n.mark.1 = mark.1) := by
    have range : 6 ≤ mark.1 ∧ mark.1 < 11 := by
      revert mark; decide
    rw [h.getLsbD_format_layers range.1 (by omega), h.transport_any_mark range.2, Bool.or_false]
  rw [marked, List.filter_congr bit]
  cases h.network with
  | none => rfl
  | some n =>
    cases n with
    | arp => rfl
    | ip header => cases v4 : header.isV4 <;> simp [Network.mark, v4, networkMarks]

theorem marked_transport (h : Headers) :
    h.marked transportMarks = (h.transportHeader?.map TransportHeader.mark).toList := by
  have bit (mark) (listed : mark ∈ transportMarks) :
      h.format.getLsbD mark.1 = h.transportHeader?.any (fun t => t.mark.1 = mark.1) := by
    have range : 11 ≤ mark.1 ∧ mark.1 < 32 := by
      revert mark; decide
    rw [h.getLsbD_format_layers (by omega) range.2, h.network_any_mark (.inr range.1),
      Bool.false_or]
  rw [marked, List.filter_congr bit]
  cases h.transportHeader? with
  | none => rfl
  | some t => cases t <;> rfl

end Headers

namespace Parse

/-! ## Tags and payloads -/

/-- The tag that a walk records is the one whose number stands before its word. -/
theorem etherTags_recognised {t : BitVec 16} {offset : Nat} {framing : Framing}
    {known : Option VlanTag} {rest d : Bytes} (here : d.word? 2 (offset - 2) = some t)
    (behind : 2 ≤ offset) (inside : offset ≤ d.length) (spelled : d.drop offset = rest)
    (first : known = none) {tag : VlanTag}
    (found : (etherTags t offset framing known rest).vlan = some tag) :
    EtherType.isVlan tag.tpid = true ∧ d.word? 2 tag.offset = some tag.tpid := by
  fun_induction etherTags t offset framing known rest with
  | case1 t offset framing known small dsap ssap c oui0 oui1 oui2 hi lo tail snap ih =>
    obtain ⟨after, length⟩ :=
      drop_of_spelled (s := [dsap, ssap, c, oui0, oui1, oui2, hi, lo]) spelled (by simp)
    have next := (drop_of_spelled (s := [dsap, ssap, c, oui0, oui1, oui2]) spelled (by simp)).1
    simp only [List.length_cons, List.length_nil] at after next length
    exact ih (Strict.word?_of_spelled next) (by omega) (by omega) after first found
  | case4 t offset framing known large framing' isVlan tciHi tciLo hi lo tail tag' ih =>
    obtain ⟨after, length⟩ := drop_of_spelled (s := [tciHi, tciLo, hi, lo]) spelled (by simp)
    simp only [List.length_cons, List.length_nil] at after length
    have recorded : known.or (some tag') = some tag' := by rw [first]; rfl
    have kept := (etherTags_within (hi.toBitVec ++ lo.toBitVec) (offset + 4) framing'
      (known.or (some tag')) after (by omega) (by omega)).kept tag' recorded
    obtain rfl := Option.some.inj (kept.symm.trans found)
    exact ⟨isVlan, here⟩
  | case2 | case3 | case5 | case6 =>
    subst first
    cases found

/-- A transport header was read somewhere for the IP header of the layers. -/
def Upper.Transported (u : Upper) (d : Bytes) : Prop :=
  ∀ t, u.transport = some t → ∃ ip o, u.network = some (.ip ip) ∧ transport? d ip o = some t

theorem Upper.none_transported (d : Bytes) : Upper.Transported {} d := by
  intro t found
  cases found

theorem ipUpper_transported (d : Bytes) (read : Option (WithPayload IpHeader)) :
    (ipUpper d read).Transported d := by
  intro t found
  cases read with
  | none => cases found
  | some header =>
    obtain ⟨o, -, here⟩ := Option.bind_eq_some_iff.mp found
    exact ⟨header.1, o, rfl, here⟩

theorem mplsUpper_transported (d : Bytes) (p : Nat) : (mplsUpper d p).Transported d := by
  unfold mplsUpper
  split
  · exact Upper.none_transported d
  · rename_i word _
    have labelled {u : Upper} (transported : u.Transported d) :
        Upper.Transported { u with mpls := some ⟨p, word⟩ } d := transported
    refine labelled ?_
    split
    · split
      · exact ipUpper_transported d _
      · split
        · exact ipUpper_transported d _
        · exact Upper.none_transported d
    · exact Upper.none_transported d

theorem upper_transported (d : Bytes) (type : BitVec 16) (p : Nat) :
    (upper d type p).Transported d := by
  refine upper_cases type p (fun _ => ?arp) (fun _ => ipUpper_transported d _)
    (fun _ => ipUpper_transported d _) (fun _ => mplsUpper_transported d p) (fun _ => ?pbb)
    (Upper.none_transported d)
  case arp | pbb =>
    intro t found
    cases found

/-- The payload of a transport header begins inside the datagram. -/
theorem transport?_payload {d : Bytes} {ip : IpHeader} {o q : Nat} {t : Transport}
    (read : transport? d ip o = some t) (payload : t.payload = some q) : q < ip.stop := by
  obtain ⟨header, -, rfl⟩ := Option.map_eq_some_iff.mp read
  dsimp only at payload
  split at payload
  · rename_i inside
    exact Option.some.inj payload ▸ inside
  · cases payload

end Parse

namespace Headers

variable {h : Headers} {d : Bytes}

/-- What is recorded of a frame that was read. -/
theorem recorded_of_parse (read : parse d = .ok h) :
    (∀ tag, h.vlan = some tag →
        EtherType.isVlan tag.tpid = true ∧ d.word? 2 tag.offset = some tag.tpid) ∧
      (∀ p, h.payload = some p → p < d.length) ∧ h.upper.Transported d := by
  unfold parse at read
  split at read
  · cases read
  · split at read
    · cases read
    · rename_i long
      have long : 14 ≤ d.length := Nat.not_lt.mp long
      have type : d.word? 2 (14 - 2) = some (d.word 2 12) := Bytes.word?_eq_word (by omega)
      obtain rfl := Except.ok.inj read
      refine ⟨fun tag found => Parse.etherTags_recognised type (by decide) long rfl rfl found,
        fun p found => ?_, ?_⟩
      · exact of_decide_eq_true (Option.filter_eq_some_iff.mp found).2
      · show Parse.Upper.Transported (Option.getD (Option.map _ _) {}) d
        cases (Parse.etherTags (d.word 2 12) 14 {} none (d.drop 14)).payload.filter
            (· < d.length) with
        | none => exact Parse.Upper.none_transported d
        | some p => exact Parse.upper_transported d _ p

theorem networkStop_of_ip {ip : IpHeader} (found : h.network = some (.ip ip)) :
    h.networkStop = ip.stop := by
  rw [networkStop, ip?, found]

theorem Laid.payload_of_more (laid : h.Laid d) {p : Nat} (here : p = h.body)
    (more : p + 4 ≤ d.length) : h.payload = some p := by
  have length := laid.length
  unfold body at here
  cases found : h.payload with
  | none =>
    rw [found, Option.getD_none] at here
    omega
  | some q => rw [here, found, Option.getD_some]

theorem Laid.network_inside (laid : h.Laid d) {n : Network} (found : h.network = some n) :
    ∃ o, h.networkOffset = some o ∧ o + n.mark.2 ≤ h.networkStop ∧ h.networkStop ≤ d.length := by
  cases n with
  | arp a =>
    obtain ⟨here, fits, -⟩ := laid.upper.arp a found
    have stop : h.networkStop = d.length := by rw [networkStop, ip?, found, ← laid.length]
    refine ⟨a.offset, by rw [networkOffset, found], ?_, Nat.le_of_eq stop⟩
    rw [stop, here]
    exact fits
  | ip ip =>
    obtain ⟨-, within⟩ := laid.upper.ip ip found
    have least : (Network.ip ip).mark.2 = ip.least := by
      cases v4 : ip.isV4 <;> simp [Network.mark, IpHeader.least, v4]
    have fits := within.least
    have size := within.size
    refine ⟨ip.offset, by rw [networkOffset, found], ?_, ?_⟩
    · rw [networkStop_of_ip found, least]
      omega
    · rw [networkStop_of_ip found]
      exact within.stop

theorem Laid.transport_inside (laid : h.Laid d) {t : Transport} (found : h.transport = some t) :
    h.ip?.isSome = true ∧ (∃ n, h.networkOffset = some n ∧ n + 20 ≤ t.offset) ∧
      t.offset + t.header.mark.2 ≤ h.networkStop := by
  obtain ⟨ip, network, behind, -, fits⟩ := laid.upper.transport t found
  have within := (laid.upper.ip ip network).2.least
  have network : h.network = some (.ip ip) := network
  have least := ip.least_ge
  refine ⟨by rw [ip?, network]; rfl, ⟨ip.offset, by rw [networkOffset, network], by omega⟩, ?_⟩
  have mark : t.header.mark.2 = t.header.least := by cases t.header <;> rfl
  rw [networkStop_of_ip network, mark]
  exact fits

theorem within_of_parse (read : parse d = .ok h) : h.Within d := by
  have laid := laid_of_parse read
  obtain ⟨recognised, payload, transported⟩ := recorded_of_parse read
  constructor
  case vlan =>
    intro tag found
    obtain ⟨after, before, tci⟩ := laid.tag tag found
    obtain ⟨isVlan, tpid⟩ := recognised tag found
    have inside := laid.inside
    exact ⟨after, by omega, isVlan, tpid, tci⟩
  case payload =>
    intro p found
    have behind := laid.behind
    rw [body, found, Option.getD_some] at behind
    exact ⟨behind, payload p found⟩
  case mpls =>
    intro e found
    obtain ⟨here, more, -⟩ := laid.upper.mpls e found
    exact ⟨laid.payload_of_more here (by omega), by omega⟩
  case pbb =>
    intro tag found
    obtain ⟨here, more, -⟩ := laid.upper.pbb tag found
    exact ⟨laid.payload_of_more here (by omega), by omega⟩
  case oneNetwork =>
    rw [marked_network]
    unfold networkOffset
    cases h.network with
    | none => rfl
    | some n => cases n <;> rfl
  case network =>
    intro o found mark set
    rw [marked_network, Option.mem_toList] at set
    obtain ⟨n, network, rfl⟩ := Option.map_eq_some_iff.mp set
    obtain ⟨o', here, inside⟩ := laid.network_inside network
    obtain rfl := Option.some.inj (found.symm.trans here)
    exact inside
  case oneTransport =>
    rw [marked_transport]
    unfold transportHeader? transportOffset
    cases h.transport <;> rfl
  case transport =>
    intro o found
    obtain ⟨t, transport, rfl⟩ := Option.map_eq_some_iff.mp found
    obtain ⟨isIp, network, inside⟩ := laid.transport_inside transport
    refine ⟨isIp, network, fun mark set => ?_⟩
    rw [marked_transport, transportHeader?, transport] at set
    obtain rfl := List.mem_singleton.mp set
    exact inside
  case transportPayload =>
    intro q found
    obtain ⟨t, transport, there⟩ := Option.bind_eq_some_iff.mp found
    obtain ⟨ip, o, network, read⟩ := transported t transport
    have before := Parse.transport?_payload read there
    rw [transportPayloadLength, found, networkStop_of_ip network]
    dsimp only
    omega

/-- A frame is refused for its length alone. -/
theorem parse_cases (d : Bytes) :
    d = [] ∧ parse d = .error .empty ∨
      (1 ≤ d.length ∧ d.length ≤ 13) ∧ parse d = .error (.truncated d.length) ∨
        14 ≤ d.length ∧ ∃ h, parse d = .ok h := by
  unfold parse
  split
  · rename_i empty
    exact .inl ⟨List.length_eq_zero_iff.mp empty, rfl⟩
  · split
    · rename_i nonempty short
      have short : d.length < 14 := short
      exact .inr (.inl ⟨⟨by omega, by omega⟩, rfl⟩)
    · rename_i long
      exact .inr (.inr ⟨Nat.not_lt.mp long, _, rfl⟩)

/-- No read of a frame goes past its end. A frame without bytes is empty, one that ends in its
Ethernet header is truncated, and any other is read, with all headers inside it. -/
theorem parse_inside (d : Bytes) :
    Strict.parse d = some (parse d) ∧
      (parse d = .error .empty ↔ d = []) ∧
      (∀ n, parse d = .error (.truncated n) ↔ n = d.length ∧ 1 ≤ d.length ∧ d.length ≤ 13) ∧
      ((∃ h, parse d = .ok h ∧ h.Within d) ↔ ParseError.required ≤ d.length) ∧
      ParseError.required = 14 := by
  refine ⟨Strict.parse_eq d, ?_⟩
  obtain ⟨rfl, result⟩ | ⟨⟨more, fewer⟩, result⟩ | ⟨long, h, result⟩ := parse_cases d
  · simp [result, ParseError.required]
  · have nonempty : d ≠ [] := List.ne_nil_of_length_pos more
    have short : ¬ ParseError.required ≤ d.length := Nat.not_le.mpr (Nat.lt_succ_of_le fewer)
    refine ⟨by simp [result, nonempty], fun n => ⟨fun refused => ?_, fun told => ?_⟩,
      ⟨fun ⟨h, read, _⟩ => ?_, fun long => absurd long short⟩, rfl⟩
    · rw [result] at refused
      cases refused
      exact ⟨rfl, more, fewer⟩
    · rw [result, told.1]
    · rw [result] at read
      cases read
  · have nonempty : d ≠ [] := List.ne_nil_of_length_pos (by omega)
    refine ⟨by simp [result, nonempty], fun n => ⟨fun refused => ?_, fun short => by omega⟩,
      ⟨fun _ => long, fun _ => ⟨h, result, within_of_parse result⟩⟩, rfl⟩
    rw [result] at refused
    cases refused

/-- A frame of an Ethernet header alone is read; one byte less is truncated. -/
example : (∃ h, parse (List.replicate 14 0) = .ok h) ∧
    parse (List.replicate 13 0) = .error (.truncated 13) :=
  ⟨⟨_, rfl⟩, rfl⟩

end Headers

end FlowSwitch
