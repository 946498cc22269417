import FlowSwitch.Proofs.Packet.Reading

/-!
# Headers and their values

Two frames of the same layers say the same wherever a value has no place. Layers and values
together are all there is to headers that were read.
-/

namespace FlowSwitch

namespace Headers

variable {h h' : Headers} {d d' : Bytes} {k : PacketContext}

/-! ## What layers alone tell -/

theorem blank_version? (h : Headers) : h.blank.version? = h.version?.map IpVersion.blank := by
  rw [version?, version?, blank_ip?, Option.map_map, Option.map_map]
  rfl

theorem blank_transportHeader? (h : Headers) :
    h.blank.transportHeader? = h.transportHeader?.map TransportHeader.blank := by
  rw [transportHeader?, transportHeader?, blank_transport, Option.map_map, Option.map_map]
  rfl

theorem blank_icmpv6? (h : Headers) :
    h.blank.icmpv6? = h.icmpv6?.map fun m => ⟨m.type, 0, 0, 0⟩ := by
  rw [icmpv6?, icmpv6?, blank_transportHeader?]
  cases h.transportHeader? with
  | none => rfl
  | some header => cases header <;> rfl

theorem blank_neighbor? (h : Headers) :
    h.blank.neighbor? = h.neighbor?.map fun m => ⟨m.type, 0, 0, 0⟩ := by
  rw [neighbor?, neighbor?, blank_icmpv6?]
  cases h.icmpv6? with
  | none => rfl
  | some m =>
    rw [Option.map_some, Option.filter_some, Option.filter_some]
    show (if m.isNeighbor = true then _ else _) = _
    split
    · rfl
    · rfl

theorem blank_isSome_arp? (h : Headers) : h.blank.arp?.isSome = h.arp?.isSome := by
  rw [← Option.isSome_map, blank_arp?, Option.isSome_map]

theorem blank_speaks (h : Headers) (l : Layer) : h.blank.speaks l = h.speaks l := by
  rw [speaks, speaks, blank_transport]
  cases h.transport with
  | none => rfl
  | some t =>
    obtain ⟨o, header, p⟩ := t
    cases header <;> rfl

theorem blank_any_ip? (h : Headers) {accepts : IpHeader → Bool}
    (like : ∀ ip : IpHeader, accepts ip.blank = accepts ip) :
    h.blank.ip?.any accepts = h.ip?.any accepts := by
  rw [blank_ip?]
  cases h.ip? with
  | none => rfl
  | some ip => exact like ip

theorem blank_bears (h : Headers) (r : Reading) : h.blank.bears r = h.bears r := by
  have mpls : h.blank.mpls.isSome = h.mpls.isSome := Option.isSome_map
  have tag : h.blank.vlan.isSome = h.vlan.isSome := Option.isSome_map
  have pbb : h.blank.pbb.isSome = h.pbb.isSome := Option.isSome_map
  have ip : h.blank.ip?.isSome = h.ip?.isSome := by rw [blank_ip?, Option.isSome_map]
  have neighbor : h.blank.neighbor?.isSome = h.neighbor?.isSome := by
    rw [blank_neighbor?, Option.isSome_map]
  have message (type : BitVec 8) :
      h.blank.icmpv6?.any (·.type == type) = h.icmpv6?.any (·.type == type) := by
    rw [blank_icmpv6?]
    cases h.icmpv6? <;> rfl
  cases r with
  | field f =>
    cases f with
    | inPort | inPhyPort | metadata | ipv6Exthdr | tunnelId | ethDst | ethSrc | ethType => rfl
    | vlanVid | vlanPcp => exact tag
    | mplsLabel | mplsTc | mplsBos => exact mpls
    | pbbIsid => exact pbb
    | arpOp | arpSpa | arpTpa | arpSha | arpTha => exact h.blank_isSome_arp?
    | ipDscp | ipEcn | ipProto => exact ip
    | ipv4Src | ipv4Dst => exact h.blank_any_ip? IpHeader.blank_isV4
    | ipv6Src | ipv6Dst | ipv6Flabel => exact h.blank_any_ip? IpHeader.blank_isV6
    | tcpSrc | tcpDst | udpSrc | udpDst | sctpSrc | sctpDst | icmpv4Type | icmpv4Code
    | icmpv6Type | icmpv6Code => exact h.blank_speaks _
    | ipv6NdTarget => exact neighbor
    | ipv6NdSll | ipv6NdTll => exact message _
  | ipTtl => exact ip
  | mplsTtl => exact mpls
  | dei => exact tag

/-- Where an ICMPv6 message was read. -/
theorem icmpv6_told (read : parse d = .ok h) {m : Icmpv6Header} (is : h.icmpv6? = some m) :
    ∃ o p, h.transport = some ⟨o, .icmpv6 m, p⟩ ∧ m = Parse.icmpv6 d o h.networkStop ∧
      h.networkStop ≤ d.length := by
  obtain ⟨o, p, there⟩ := transport_of_icmpv6? is
  obtain ⟨told, -, stop⟩ := transport_told read there
  exact ⟨o, p, there, told, stop⟩

/-- A target without room is zero. -/
theorem target_absent (read : parse d = .ok h)
    (absent : h.carries d (.field .ipv6NdTarget) = false) :
    h.neighbor?.map (·.target) = h.neighbor?.map fun _ => 0 := by
  cases found : h.neighbor? with
  | none => rfl
  | some m =>
    obtain ⟨is, neighbor⟩ := Option.filter_eq_some_iff.mp found
    obtain ⟨o, p, there, told, -⟩ := icmpv6_told read is
    have room : ¬o + 24 ≤ h.networkStop := by
      simpa [carries, bears, hasRoom, found, transportOffset, there] using absent
    subst told
    rw [Option.map_some, Option.map_some, (Parse.icmpv6_neighbor neighbor).1, if_neg room]

theorem getElem?_of_byte {i : Nat} {v : UInt8} (filled : v ≠ 0) (here : d.byte i = v.toBitVec) :
    d[i]? = some v := by
  rw [Bytes.byte, UInt8.toBitVec_inj] at here
  cases at_ : d[i]? with
  | none =>
    rw [at_] at here
    exact absurd here.symm filled
  | some w =>
    rw [at_] at here
    exact congrArg some here

/-- An address without its option is zero. -/
theorem link_absent {type : BitVec 8} {optionType : UInt8} {link : Icmpv6Header → MacAddress}
    (kind : LinkOption type optionType link) (read : parse d = .ok h)
    (absent : (h.icmpv6?.any (·.type == type) && h.option d optionType) = false) :
    h.neighbor?.map link = h.neighbor?.map fun _ => 0 := by
  cases found : h.neighbor? with
  | none => rfl
  | some m =>
    obtain ⟨is, neighbor⟩ := Option.filter_eq_some_iff.mp found
    rw [Option.map_some, Option.map_some, kind.link_eq]
    split
    · rename_i typed
      rw [is, Option.any_some, typed, Bool.true_and] at absent
      obtain ⟨o, p, there, told, -⟩ := icmpv6_told read is
      have same : d.byte o = type := by rw [← eq_of_beq typed, told, Parse.icmpv6_type]
      subst told
      rw [(Parse.icmpv6_neighbor neighbor).2, if_neg]
      intro fitting
      simp only [Bool.and_eq_true, decide_eq_true_eq, beq_iff_eq, same] at fitting
      obtain ⟨room, first, second⟩ := fitting
      have here : d[o + 24]? = some optionType := by
        rcases kind.fitting with ⟨rfl, rfl⟩ | ⟨rfl, rfl⟩
        · exact getElem?_of_byte (by decide) first
        · exact getElem?_of_byte (by decide) first
      have unit : d[o + 25]? = some 1 := getElem?_of_byte (by decide) second
      simp [option, transportOffset, there, room, here, unit] at absent
    · rfl

theorem other_header {header : TransportHeader} (is : h.transportHeader? = some header) {l : Layer}
    (absent : (h.speaks l && true) = false) : Layer.ofTransport header ≠ l := by
  obtain ⟨t, there, rfl⟩ := Option.map_eq_some_iff.mp is
  simpa [speaks, there] using absent

theorem map_of_isNone {α β : Type} {found found' : Option α} (value : α → β)
    (same : found'.isSome = found.isSome) (absent : (found.isSome && true) = false) :
    found.map value = found'.map value := by
  rw [Bool.and_true] at absent
  have bare : found = none := Option.isNone_iff_eq_none.mp (by simpa using absent)
  have bare' : found' = none := Option.isNone_iff_eq_none.mp (by simpa using same.trans absent)
  rw [bare, bare']

/-- A value without a cell is told by the layers. -/
theorem reads_blank_of_layers {r : Reading} (uncelled : r.cells = []) :
    PacketView.reads ⟨h, k⟩ r = PacketView.reads ⟨h.blank, k⟩ r := by
  cases r with
  | field f =>
    cases f with
    | inPort | inPhyPort | metadata | tunnelId | ethType => rfl
    | ipProto =>
      show h.ip?.map (·.proto) = h.blank.ip?.map (·.proto)
      rw [blank_ip?, Option.map_map]
      rfl
    | icmpv6Type =>
      show h.icmpv6?.map (·.type) = h.blank.icmpv6?.map (·.type)
      rw [blank_icmpv6?, Option.map_map]
      rfl
    | ipv6Exthdr =>
      simp only [PacketView.reads, PacketView.field?, blank_version?]
      cases h.version? with
      | none => rfl
      | some version => cases version <;> rfl
    | _ => cases uncelled
  | _ => cases uncelled

theorem version_ne_v4 (absent : (h.ip?.any (·.isV4) && true) = false) {src dst : BitVec 32} :
    h.version? ≠ some (.v4 src dst) := by
  intro is
  obtain ⟨ip, there, version⟩ := Option.map_eq_some_iff.mp is
  simp [there, IpHeader.isV4, version] at absent

theorem version_ne_v6 (absent : (h.ip?.any (·.isV6) && true) = false) {src dst : BitVec 128}
    {label : BitVec 32} {extensions : Extensions} :
    h.version? ≠ some (.v6 src dst label extensions) := by
  intro is
  obtain ⟨ip, there, version⟩ := Option.map_eq_some_iff.mp is
  simp [there, IpHeader.isV6, IpHeader.isV4, version] at absent

/-- A value whose header, or whose place in it, is missing is told by the layers. -/
theorem reads_blank_of_missing (read : parse d = .ok h) {r : Reading} (celled : r.cells ≠ [])
    (absent : h.carries d r = false) :
    PacketView.reads ⟨h, k⟩ r = PacketView.reads ⟨h.blank, k⟩ r := by
  have ip : h.blank.ip?.isSome = h.ip?.isSome := by rw [blank_ip?, Option.isSome_map]
  cases r with
  | field f =>
    cases f with
    | inPort | inPhyPort | metadata | ipv6Exthdr | tunnelId | ethType | ipProto | icmpv6Type =>
      exact absurd rfl celled
    | ethDst | ethSrc => cases absent
    | vlanVid =>
      simp only [carries, bears, hasRoom, Bool.and_true] at absent
      have bare : h.vlan = none := Option.isNone_iff_eq_none.mp (by simpa using absent)
      simp only [PacketView.reads, PacketView.field?, blank, bare, Option.map_none]
      rfl
    | vlanPcp => exact map_of_isNone _ Option.isSome_map absent
    | mplsLabel | mplsTc | mplsBos => exact map_of_isNone _ Option.isSome_map absent
    | pbbIsid => exact map_of_isNone _ Option.isSome_map absent
    | arpOp | arpSpa | arpTpa | arpSha | arpTha =>
      exact map_of_isNone _ h.blank_isSome_arp? absent
    | ipDscp | ipEcn => exact map_of_isNone _ ip absent
    | ipv4Src | ipv4Dst =>
      simp only [PacketView.reads, PacketView.field?, blank_version?]
      cases is : h.version? with
      | none => rfl
      | some version =>
        cases version with
        | v4 => exact absurd is (version_ne_v4 absent)
        | v6 => rfl
    | ipv6Src | ipv6Dst | ipv6Flabel =>
      simp only [PacketView.reads, PacketView.field?, blank_version?]
      cases is : h.version? with
      | none => rfl
      | some version =>
        cases version with
        | v4 => rfl
        | v6 => exact absurd is (version_ne_v6 absent)
    | tcpSrc | tcpDst | udpSrc | udpDst | sctpSrc | sctpDst | icmpv4Type | icmpv4Code
    | icmpv6Code =>
      simp only [PacketView.reads, PacketView.field?, icmpv6?, blank_transportHeader?]
      cases is : h.transportHeader? with
      | none => rfl
      | some header =>
        have other := other_header is absent
        cases header <;> first | rfl | exact absurd rfl other
    | ipv6NdTarget =>
      show h.neighbor?.map (·.target) = h.blank.neighbor?.map (·.target)
      rw [target_absent read absent, blank_neighbor?, Option.map_map]
      rfl
    | ipv6NdSll =>
      show h.neighbor?.map (·.sourceLinkLayer) = h.blank.neighbor?.map (·.sourceLinkLayer)
      rw [link_absent .source read absent, blank_neighbor?, Option.map_map]
      exact congrArg (h.neighbor?.map ·) (funext fun _ => (ite_self 0).symm)
    | ipv6NdTll =>
      show h.neighbor?.map (·.targetLinkLayer) = h.blank.neighbor?.map (·.targetLinkLayer)
      rw [link_absent .target read absent, blank_neighbor?, Option.map_map]
      exact congrArg (h.neighbor?.map ·) (funext fun _ => (ite_self 0).symm)
  | ipTtl => exact map_of_isNone _ ip absent
  | mplsTtl => exact map_of_isNone _ Option.isSome_map absent
  | dei => exact map_of_isNone _ Option.isSome_map absent

theorem reads_blank (read : parse d = .ok h) {r : Reading}
    (absent : r.cells = [] ∨ h.carries d r = false) :
    PacketView.reads ⟨h, k⟩ r = PacketView.reads ⟨h.blank, k⟩ r := by
  by_cases celled : r.cells = []
  · exact reads_blank_of_layers celled
  · exact reads_blank_of_missing read celled (absent.resolve_left celled)

/-! ## What frames of the same layers carry -/

section

variable (same : h'.blank = h.blank)
include same

theorem bears_congr (r : Reading) : h'.bears r = h.bears r := by
  rw [← blank_bears, same, blank_bears]

theorem networkStop_congr : h'.networkStop = h.networkStop := by
  rw [← blank_networkStop, same, blank_networkStop]

theorem transportOffset_congr : h'.transportOffset = h.transportOffset := by
  have blank_transportOffset (h : Headers) : h.blank.transportOffset = h.transportOffset := by
    rw [transportOffset, blank_transport, Option.map_map]
    rfl
  rw [← blank_transportOffset, same, blank_transportOffset]

/-- The first option of a message is no part of any field. -/
theorem option_congr (laid : h.Laid d) (inside : h.Inside d d d') {m : Icmpv6Header}
    (is : h.icmpv6? = some m) (type : UInt8) : h'.option d' type = h.option d type := by
  obtain ⟨o, p, there⟩ := transport_of_icmpv6? is
  have bytes (i : Nat) (within : i = o + 24 ∨ i = o + 25) : d'[i]? = d[i]? :=
    inside.outside i fun s q at_ => by
      have := place?_option laid at_ there
      omega
  rw [option, option, transportOffset_congr same, networkStop_congr same, transportOffset, there,
    Option.map_some, Option.any_some, Option.any_some, bytes _ (.inl rfl), bytes _ (.inr rfl)]

theorem carries_congr (laid : h.Laid d) (inside : h.Inside d d d') (r : Reading) :
    h'.carries d' r = h.carries d r := by
  rw [carries, carries, bears_congr same]
  cases r with
  | field f =>
    cases f with
    | ipv6NdTarget => rw [hasRoom, hasRoom, transportOffset_congr same, networkStop_congr same]
    | ipv6NdSll | ipv6NdTll =>
      rw [bears, hasRoom, hasRoom]
      cases is : h.icmpv6? with
      | none => rfl
      | some m => rw [option_congr same laid inside is]
    | _ => rfl
  | _ => rfl

end

/-! ## Headers are their layers and their values -/

/-- The parts of a tag are all of it. -/
theorem tci_of_parts {x y : BitVec 16}
    (id : (x &&& 0x0fff) ||| Vlan.present = (y &&& 0x0fff) ||| Vlan.present)
    (priority : (x >>> 13).setWidth 8 = (y >>> 13).setWidth 8)
    (dei : x.extractLsb' 12 1 = y.extractLsb' 12 1) : x = y := by
  have low (z : BitVec 16) : ((z &&& 0x0fff) ||| Vlan.present).setWidth 12 = z.setWidth 12 := by
    have ones : (0x0fff : BitVec 16).setWidth 12 = BitVec.allOnes 12 := by decide
    have zeros : Vlan.present.setWidth 12 = 0 := by decide
    rw [BitVec.setWidth_or, BitVec.setWidth_and, ones, zeros, BitVec.and_allOnes]
    exact BitVec.or_zero
  have id := congrArg (·.toNat) ((low x).symm.trans ((congrArg (·.setWidth 12) id).trans (low y)))
  have priority := congrArg (·.toNat) priority
  have dei := congrArg (·.toNat) dei
  simp only [BitVec.toNat_setWidth, BitVec.extractLsb'_toNat, BitVec.toNat_ushiftRight,
    Nat.shiftRight_eq_div_pow] at id priority dei
  have small := x.isLt
  have small' := y.isLt
  exact BitVec.eq_of_toNat_eq (by omega)

/-- The parts of a label stack entry are all of it. -/
theorem entry_of_parts {x y : BitVec 32} (label : x >>> 12 = y >>> 12)
    (tc : ((x >>> 9) &&& 7).setWidth 8 = ((y >>> 9) &&& 7).setWidth 8)
    (bottom : ((x >>> 8) &&& 1).setWidth 8 = ((y >>> 8) &&& 1).setWidth 8)
    (ttl : x.setWidth 8 = y.setWidth 8) : x = y := by
  have three : (BitVec.allOnes 3).setWidth 32 = 7 := by decide
  have one : (BitVec.allOnes 1).setWidth 32 = 1 := by decide
  rw [Bytes.ushiftRight_and _ three, Bytes.ushiftRight_and _ three] at tc
  rw [Bytes.ushiftRight_and _ one, Bytes.ushiftRight_and _ one] at bottom
  have label := congrArg (·.toNat) label
  have tc := congrArg (·.toNat) tc
  have bottom := congrArg (·.toNat) bottom
  have ttl := congrArg (·.toNat) ttl
  simp only [BitVec.toNat_setWidth, BitVec.extractLsb'_toNat, BitVec.toNat_ushiftRight,
    Nat.shiftRight_eq_div_pow] at label tc bottom ttl
  have small := x.isLt
  have small' := y.isLt
  exact BitVec.eq_of_toNat_eq (by omega)

/-- Parts that are blank alike are the same, if those that are there are. -/
theorem eq_of_map {α β : Type} {strip : α → β} {found found' : Option α}
    (like : found'.map strip = found.map strip)
    (each : ∀ a a', found = some a → found' = some a' → strip a' = strip a → a' = a) :
    found' = found := by
  cases is : found with
  | none =>
    rw [is] at like
    exact Option.map_eq_none_iff.mp like
  | some a =>
    rw [is] at like
    obtain ⟨a', is', alike⟩ := Option.map_eq_some_iff.mp like
    rw [is', each a a' is is' alike]

theorem value_of_map {α β : Type} {found found' : Option α} {a a' : α} (is : found = some a)
    (is' : found' = some a') {value : α → β} (same : found'.map value = found.map value) :
    value a' = value a := by
  rw [is, is'] at same
  exact Option.some.inj same

section

variable (values : ∀ r, PacketView.reads ⟨h', k⟩ r = PacketView.reads ⟨h, k⟩ r)
include values

theorem arp_of_reads {a a' : ArpHeader} (is : h.arp? = some a) (is' : h'.arp? = some a')
    (offset : a'.offset = a.offset) : a' = a := by
  have op := value_of_map is is' (values (.field .arpOp))
  have senderMac := value_of_map is is' (values (.field .arpSha))
  have senderIp := value_of_map is is' (values (.field .arpSpa))
  have targetMac := value_of_map is is' (values (.field .arpTha))
  have targetIp := value_of_map is is' (values (.field .arpTpa))
  exact ArpHeader.mk.injEq .. ▸ ⟨offset, op, senderMac, senderIp, targetMac, targetIp⟩

theorem version_of_reads {version version' : IpVersion} (is : h.version? = some version)
    (is' : h'.version? = some version') (like : version'.blank = version.blank) :
    version' = version := by
  match version, version', like with
  | .v4 src dst, .v4 src' dst', like =>
    have source := values (.field .ipv4Src)
    have destination := values (.field .ipv4Dst)
    simp only [PacketView.reads, PacketView.field?, is, is'] at source destination
    have source : src' = src := Option.some.inj source
    have destination : dst' = dst := Option.some.inj destination
    rw [source, destination]
  | .v6 src dst label extensions, .v6 src' dst' label' extensions', like =>
    obtain ⟨-, -, -, rfl⟩ := IpVersion.v6.inj like
    have source := values (.field .ipv6Src)
    have destination := values (.field .ipv6Dst)
    have flow := values (.field .ipv6Flabel)
    simp only [PacketView.reads, PacketView.field?, is, is'] at source destination flow
    have source : src' = src := Option.some.inj source
    have destination : dst' = dst := Option.some.inj destination
    have flow : label' = label := Option.some.inj flow
    rw [source, destination, flow]

theorem ip_of_reads {ip ip' : IpHeader} (is : h.ip? = some ip) (is' : h'.ip? = some ip')
    (like : ip'.blank = ip.blank) : ip' = ip := by
  have dscp := value_of_map is is' (values (.field .ipDscp))
  have ecn := value_of_map is is' (values (.field .ipEcn))
  have ttl := value_of_map is is' (values .ipTtl)
  obtain ⟨offset, stop, -, -, -, proto, like⟩ := IpHeader.mk.inj like
  have version : ip'.version = ip.version := version_of_reads values
    (by rw [version?, is, Option.map_some]) (by rw [version?, is', Option.map_some]) like
  exact IpHeader.mk.injEq .. ▸ ⟨offset, stop, dscp, ecn, ttl, proto, version⟩

theorem icmpv6_of_reads (read : parse d = .ok h) (read' : parse d' = .ok h')
    {m m' : Icmpv6Header} (is : h.icmpv6? = some m) (is' : h'.icmpv6? = some m')
    (type : m'.type = m.type) : m' = m := by
  have code := value_of_map is is' (values (.field .icmpv6Code))
  have kind : m'.isNeighbor = m.isNeighbor := by
    rw [Icmpv6Header.isNeighbor, type, Icmpv6Header.isNeighbor]
  have addresses : m'.target = m.target ∧ m'.linkLayer = m.linkLayer := by
    cases neighbor : m.isNeighbor with
    | false =>
      obtain ⟨o, p, -, told, -⟩ := icmpv6_told read is
      obtain ⟨o', p', -, told', -⟩ := icmpv6_told read' is'
      obtain ⟨target, link⟩ := Parse.icmpv6_other (told ▸ neighbor)
      obtain ⟨target', link'⟩ := Parse.icmpv6_other (told' ▸ kind.trans neighbor)
      rw [told, told', target, target', link, link']
      exact ⟨rfl, rfl⟩
    | true =>
      have found : h.neighbor? = some m := by
        rw [neighbor?, is, Option.filter_some, if_pos neighbor]
      have found' : h'.neighbor? = some m' := by
        rw [neighbor?, is', Option.filter_some, if_pos (kind.trans neighbor)]
      refine ⟨value_of_map found found' (values (.field .ipv6NdTarget)), ?_⟩
      rcases Bool.or_eq_true_iff.mp neighbor with solicitation | advertisement
      · have link := value_of_map found found' (values (.field .ipv6NdSll))
        rwa [Icmpv6Header.sourceLinkLayer, type, if_pos solicitation, Icmpv6Header.sourceLinkLayer,
          if_pos solicitation] at link
      · have link := value_of_map found found' (values (.field .ipv6NdTll))
        rwa [Icmpv6Header.targetLinkLayer, type, if_pos advertisement,
          Icmpv6Header.targetLinkLayer, if_pos advertisement] at link
  exact Icmpv6Header.mk.injEq .. ▸ ⟨type, code, addresses⟩

variable (same : h'.blank = h.blank)
include same

theorem vlan_of_reads : h'.vlan = h.vlan := by
  refine eq_of_map (congrArg (·.vlan) same) ?_
  rintro ⟨o, tpid, tci⟩ ⟨o', tpid', tci'⟩ is is' like
  obtain ⟨rfl, rfl, -⟩ := VlanTag.mk.inj like
  have id := values (.field .vlanVid)
  simp only [PacketView.reads, PacketView.field?, is, is'] at id
  have word : tci' = tci := tci_of_parts (Option.some.inj id)
    (value_of_map is is' (values (.field .vlanPcp))) (value_of_map is is' (values .dei))
  rw [word]

theorem mpls_of_reads : h'.mpls = h.mpls := by
  refine eq_of_map (congrArg (·.mpls) same) ?_
  rintro ⟨o, word⟩ ⟨o', word'⟩ is is' like
  obtain ⟨rfl, -⟩ := MplsEntry.mk.inj like
  have word : word' = word := entry_of_parts
    (value_of_map is is' (values (.field .mplsLabel)))
    (value_of_map is is' (values (.field .mplsTc)))
    (value_of_map is is' (values (.field .mplsBos))) (value_of_map is is' (values .mplsTtl))
  rw [word]

theorem pbb_of_reads : h'.pbb = h.pbb := by
  refine eq_of_map (congrArg (·.pbb) same) ?_
  rintro ⟨o, isid⟩ ⟨o', isid'⟩ is is' like
  obtain ⟨rfl, -⟩ := PbbTag.mk.inj like
  have isid : isid' = isid := value_of_map is is' (values (.field .pbbIsid))
  rw [isid]

theorem network_of_reads : h'.network = h.network := by
  refine eq_of_map (congrArg (·.network) same) fun n n' is is' like => ?_
  match n, n', like with
  | .arp a, .arp a', like =>
    rw [arp_of_reads values (arp?_eq_some.mpr is) (arp?_eq_some.mpr is')
      (ArpHeader.mk.inj (Network.arp.inj like)).1]
  | .ip ip, .ip ip', like =>
    rw [ip_of_reads values (ip?_eq_some.mpr is) (ip?_eq_some.mpr is') (Network.ip.inj like)]

variable (read : parse d = .ok h) (read' : parse d' = .ok h')
include read read'

theorem transport_of_reads : h'.transport = h.transport := by
  refine eq_of_map (congrArg (·.transport) same) ?_
  rintro ⟨o, header, p⟩ ⟨o', header', p'⟩ is is' like
  obtain ⟨rfl, like, rfl⟩ := Transport.mk.inj like
  have said : h.transportHeader? = some header := transportHeader?_of_transport is
  have said' : h'.transportHeader? = some header' := transportHeader?_of_transport is'
  have whole : header' = header := by
    match header, header', like with
    | .tcp a b, .tcp a' b', _ =>
      have first := values (.field .tcpSrc)
      have second := values (.field .tcpDst)
      simp only [PacketView.reads, PacketView.field?, said, said'] at first second
      exact TransportHeader.tcp.injEq .. ▸ ⟨Option.some.inj first, Option.some.inj second⟩
    | .udp a b, .udp a' b', _ =>
      have first := values (.field .udpSrc)
      have second := values (.field .udpDst)
      simp only [PacketView.reads, PacketView.field?, said, said'] at first second
      exact TransportHeader.udp.injEq .. ▸ ⟨Option.some.inj first, Option.some.inj second⟩
    | .sctp a b, .sctp a' b', _ =>
      have first := values (.field .sctpSrc)
      have second := values (.field .sctpDst)
      simp only [PacketView.reads, PacketView.field?, said, said'] at first second
      exact TransportHeader.sctp.injEq .. ▸ ⟨Option.some.inj first, Option.some.inj second⟩
    | .icmpv4 a b, .icmpv4 a' b', _ =>
      have first := values (.field .icmpv4Type)
      have second := values (.field .icmpv4Code)
      simp only [PacketView.reads, PacketView.field?, said, said'] at first second
      exact TransportHeader.icmpv4.injEq .. ▸ ⟨Option.some.inj first, Option.some.inj second⟩
    | .icmpv6 m, .icmpv6 m', like =>
      rw [icmpv6_of_reads values read read' (icmpv6?_of_transport is)
        (icmpv6?_of_transport is') (Icmpv6Header.mk.inj (TransportHeader.icmpv6.inj like)).1]
  rw [whole]

/-- Headers that were read are their layers and their values. -/
theorem eq_of_reads : h' = h := by
  have ethDst : h'.ethDst = h.ethDst := Option.some.inj (values (.field .ethDst))
  have ethSrc : h'.ethSrc = h.ethSrc := Option.some.inj (values (.field .ethSrc))
  have vlan := vlan_of_reads values same
  have mpls := mpls_of_reads values same
  have pbb := pbb_of_reads values same
  have network := network_of_reads values same
  have transport := transport_of_reads values same read read'
  obtain ⟨length, -, -, ethType, framing, -, payload, -⟩ := Headers.mk.inj same
  exact Headers.mk.injEq .. ▸
    ⟨length, ethDst, ethSrc, ethType, framing, vlan, payload, mpls, pbb, network, transport⟩

end

end Headers

end FlowSwitch
