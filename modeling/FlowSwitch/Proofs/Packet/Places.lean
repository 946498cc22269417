import FlowSwitch.Proofs.Packet.Layout

/-!
# Words of a header

A word of a frame is named by the layer it belongs to and its number in that layer. Layers are
ranked in the order in which they lie in a frame, and at most one layer of a rank is there; so
two words that have different names do not overlap.
-/

namespace FlowSwitch

/-- The parts of a frame whose words are written. The last three are the parts of a neighbour
message. -/
inductive Layer
  | ethernet
  | tci
  | etherType
  | mpls
  | pbb
  | arp
  | ipv4
  | ipv6
  | tcp
  | udp
  | sctp
  | icmpv4
  | icmpv6
  | target
  | sourceLink
  | targetLink
  deriving DecidableEq, Repr

namespace Layer

/-- How many words of the layer are always there. -/
def words : Layer → Nat
  | ethernet => 6
  | tci | etherType => 1
  | mpls | pbb | icmpv4 | icmpv6 => 2
  | arp => 14
  | ipv4 | tcp => 10
  | ipv6 => 20
  | udp => 4
  | sctp => 6
  | target => 8
  | sourceLink | targetLink => 3

/-- The place of the layer in the order of a frame. -/
def rank : Layer → Nat
  | ethernet => 0
  | tci => 1
  | etherType => 2
  | mpls | pbb => 3
  | arp | ipv4 | ipv6 => 4
  | tcp | udp | sctp | icmpv4 | icmpv6 => 5
  | target => 6
  | sourceLink | targetLink => 7

/-- The layer of a transport header. -/
def ofTransport : TransportHeader → Layer
  | .tcp .. => tcp
  | .udp .. => udp
  | .sctp .. => sctp
  | .icmpv4 .. => icmpv4
  | .icmpv6 .. => icmpv6

end Layer

/-- A word by its layer and its number in it. -/
abbrev Spot := Layer × Nat

namespace Headers

/-- Where the address in the option of a neighbour message is. -/
def linkOffset? (h : Headers) (d : Bytes) (type : BitVec 8) (optionType : UInt8) : Option Nat :=
  (FieldWrite.icmpv6Offset? h (· == type)).bind fun o =>
    if d[o + 24]? = some optionType ∧ d[o + 25]? = some 1 ∧ o + 32 ≤ d.length then some (o + 26)
    else none

/-- Where a layer begins in the frame `d`. -/
def base? (h : Headers) (d : Bytes) : Layer → Option Nat
  | .ethernet => some 0
  | .tci => h.vlan.map (·.offset + 2)
  | .etherType =>
    if h.framing.ethernet2 || h.framing.snap then h.payload.map (· - 2) else none
  | .mpls => h.mpls.map (·.offset)
  | .pbb => h.pbb.map (·.offset)
  | .arp => h.arp?.map (·.offset)
  | .ipv4 => (h.ip?.filter (·.isV4)).map (·.offset)
  | .ipv6 => (h.ip?.filter (·.isV6)).map (·.offset)
  | .target =>
    (FieldWrite.icmpv6Offset? h fun t =>
      t == 0 || t == Icmpv6Header.neighborSolicitation
        || t == Icmpv6Header.neighborAdvertisement).bind fun o =>
          if o + 24 ≤ d.length then some (o + 8) else none
  | .sourceLink => h.linkOffset? d Icmpv6Header.neighborSolicitation 1
  | .targetLink => h.linkOffset? d Icmpv6Header.neighborAdvertisement 2
  | layer => (h.transport.filter fun t => Layer.ofTransport t.header = layer).map (·.offset)

/-- No layer of rank `r` begins before here, and every layer of a lower rank has ended. -/
def floor (h : Headers) : Nat → Nat
  | 0 => 0
  | 1 => 12
  | 2 => h.body - 2
  | 3 => h.body
  | 4 => h.networkOffset.getD h.length
  | 5 => h.transportOffset.getD h.length
  | 6 => (h.transport.map fun t => t.offset + t.header.least).getD h.length
  | 7 => (h.transport.map fun t => t.offset + t.header.least).getD h.length + 20
  | _ => (h.transport.map fun t => t.offset + t.header.least).getD h.length + 28

variable {h : Headers} {d : Bytes}

theorem arp?_eq_some {a : ArpHeader} : h.arp? = some a ↔ h.network = some (.arp a) := by
  unfold arp?
  split <;> simp_all

theorem ip?_eq_some {ip : IpHeader} : h.ip? = some ip ↔ h.network = some (.ip ip) := by
  unfold ip?
  split <;> simp_all

theorem ip_unique {ip ip' : IpHeader} (is : h.network = some (.ip ip))
    (also : h.network = some (.ip ip')) : ip' = ip := by
  rw [is] at also
  cases also
  rfl

theorem icmpv6Offset?_eq_some {accepts : BitVec 8 → Bool} {o : Nat} :
    FieldWrite.icmpv6Offset? h accepts = some o ↔
      ∃ m p, h.transport = some ⟨o, .icmpv6 m, p⟩ ∧ accepts m.type = true := by
  unfold FieldWrite.icmpv6Offset?
  split
  · rename_i o' m p is
    simp only [is, Option.ite_none_right_eq_some, Option.some.injEq]
    constructor
    · rintro ⟨accepted, rfl⟩
      exact ⟨m, p, rfl, accepted⟩
    · rintro ⟨m', p', same, accepted⟩
      cases same
      exact ⟨accepted, rfl⟩
  · rename_i other
    constructor
    · intro is
      cases is
    · rintro ⟨m, p, is, -⟩
      exact absurd is (other o m p)

theorem floor_le_succ (laid : h.Laid d) (r : Nat) : h.floor r ≤ h.floor (r + 1) := by
  have behind := laid.behind
  have inside := laid.inside
  have length := laid.length
  match r with
  | 0 => exact Nat.zero_le _
  | 1 =>
    simp only [floor]
    omega
  | 2 => exact Nat.sub_le ..
  | 3 =>
    simp only [floor, networkOffset]
    cases network : h.network with
    | none => simpa [length] using inside
    | some n =>
      cases n with
      | arp a => exact Nat.le_of_eq (laid.upper.arp a network).1.symm
      | ip ip => exact (laid.upper.ip ip network).1
  | 4 =>
    simp only [floor, networkOffset, transportOffset]
    cases transport : h.transport with
    | some t =>
      obtain ⟨ip, network, after, -, -⟩ := laid.upper.transport t transport
      have network : h.network = some (.ip ip) := network
      simp only [network, Option.map_some, Option.getD_some]
      omega
    | none =>
      cases network : h.network with
      | none => exact Nat.le_refl _
      | some n =>
        cases n with
        | arp a =>
          have here := laid.upper.arp a network
          simp only [Option.map_none, Option.getD_none, Option.getD_some]
          omega
        | ip ip =>
          have within := (laid.upper.ip ip network).2
          have size := within.size
          have stop := within.stop
          simp only [Option.map_none, Option.getD_none, Option.getD_some]
          omega
  | 5 =>
    simp only [floor, transportOffset]
    cases h.transport with
    | none => exact Nat.le_refl _
    | some t => exact Nat.le_add_right ..
  | 6 => exact Nat.le_add_right ..
  | 7 => exact Nat.add_le_add_left (by decide) _
  | r + 8 => exact Nat.le_refl _

theorem floor_mono (laid : h.Laid d) {r s : Nat} (le : r ≤ s) : h.floor r ≤ h.floor s := by
  induction le with
  | refl => exact Nat.le_refl _
  | step _ ih => exact Nat.le_trans ih (floor_le_succ laid _)

theorem transport_of_base? {l : Layer} {b : Nat}
    (there : (h.transport.filter fun t => Layer.ofTransport t.header = l).map (·.offset) = some b) :
    ∃ t, h.transport = some t ∧ Layer.ofTransport t.header = l ∧ t.offset = b := by
  obtain ⟨t, found, here⟩ := Option.map_eq_some_iff.mp there
  obtain ⟨is, kind⟩ := Option.filter_eq_some_iff.mp found
  exact ⟨t, is, of_decide_eq_true kind, here⟩

theorem ip_of_base? {accepts : IpHeader → Bool} {b : Nat}
    (there : (h.ip?.filter accepts).map (·.offset) = some b) :
    ∃ ip, h.network = some (.ip ip) ∧ accepts ip = true ∧ ip.offset = b := by
  obtain ⟨ip, found, here⟩ := Option.map_eq_some_iff.mp there
  obtain ⟨is, accepted⟩ := Option.filter_eq_some_iff.mp found
  exact ⟨ip, ip?_eq_some.mp is, accepted, here⟩

theorem message_of_linkOffset? {type : BitVec 8} {optionType : UInt8} {b : Nat}
    (there : h.linkOffset? d type optionType = some b) :
    ∃ o m p, h.transport = some ⟨o, .icmpv6 m, p⟩ ∧ m.type = type ∧ b = o + 26 ∧
      o + 32 ≤ d.length := by
  obtain ⟨o, found, rest⟩ := Option.bind_eq_some_iff.mp there
  obtain ⟨m, p, is, typed⟩ := icmpv6Offset?_eq_some.mp found
  rw [Option.ite_none_right_eq_some] at rest
  obtain ⟨⟨-, -, fits⟩, here⟩ := rest
  exact ⟨o, m, p, is, eq_of_beq typed, (Option.some.inj here).symm, fits⟩

theorem message_of_target {b : Nat} (there : h.base? d .target = some b) :
    ∃ o m p, h.transport = some ⟨o, .icmpv6 m, p⟩ ∧ b = o + 8 ∧ o + 24 ≤ d.length := by
  obtain ⟨o, found, rest⟩ := Option.bind_eq_some_iff.mp there
  obtain ⟨m, p, is, -⟩ := icmpv6Offset?_eq_some.mp found
  rw [Option.ite_none_right_eq_some] at rest
  exact ⟨o, m, p, is, (Option.some.inj rest.2).symm, rest.1⟩

/-- Only a message has parts behind its header. -/
theorem message_of_rank {t : Transport} (transport : h.transport = some t) {l : Layer} {b : Nat}
    (behind : 5 < l.rank) (base : h.base? d l = some b) : ∃ i, t.header = .icmpv6 i := by
  have message {o : Nat} {m : Icmpv6Header} {p : Option Nat}
      (is : h.transport = some ⟨o, .icmpv6 m, p⟩) : ∃ i, t.header = .icmpv6 i := by
    rw [transport] at is
    cases is
    exact ⟨m, rfl⟩
  cases l with
  | target =>
    obtain ⟨o, m, p, is, -⟩ := message_of_target base
    exact message is
  | sourceLink =>
    obtain ⟨o, m, p, is, -⟩ := message_of_linkOffset? base
    exact message is
  | targetLink =>
    obtain ⟨o, m, p, is, -⟩ := message_of_linkOffset? base
    exact message is
  | _ => exact absurd behind (by decide)

theorem words_ofTransport (t : TransportHeader) : 2 * (Layer.ofTransport t).words = t.least := by
  cases t <;> rfl

theorem rank_ofTransport (t : TransportHeader) : (Layer.ofTransport t).rank = 5 := by
  cases t <;> rfl

theorem transport_between {t : Transport} (is : h.transport = some t) :
    h.floor 5 = t.offset ∧ h.floor 6 = t.offset + t.header.least := by
  simp [floor, transportOffset, is]

theorem ip_between (laid : h.Laid d) {ip : IpHeader} (is : h.network = some (.ip ip)) :
    h.floor 4 = ip.offset ∧ ip.offset + ip.size d ≤ h.floor 5 := by
  obtain ⟨least, size, stop⟩ := (laid.upper.ip ip is).2
  have length := laid.length
  refine ⟨by simp [floor, networkOffset, is], ?_⟩
  cases transport : h.transport with
  | none =>
    simp only [floor, transportOffset, transport, Option.map_none, Option.getD_none]
    omega
  | some t =>
    obtain ⟨ip', network, after, -, -⟩ := laid.upper.transport t transport
    obtain rfl := ip_unique is network
    rw [(transport_between transport).1]
    omega

theorem transported_between {l : Layer} {b : Nat}
    (there : (h.transport.filter fun t => Layer.ofTransport t.header = l).map (·.offset) = some b) :
    h.floor l.rank ≤ b ∧ b + 2 * l.words ≤ h.floor (l.rank + 1) := by
  obtain ⟨t, is, rfl, rfl⟩ := transport_of_base? there
  obtain ⟨from_, until_⟩ := transport_between is
  rw [rank_ofTransport, words_ofTransport, from_, until_]
  exact ⟨Nat.le_refl _, Nat.le_refl _⟩

/-- The words that every header of a version has. -/
theorem network_between (laid : h.Laid d) {ip : IpHeader} (is : h.network = some (.ip ip))
    {l : Layer} (rank : l.rank = 4) (span : 2 * l.words = ip.least) :
    h.floor l.rank ≤ ip.offset ∧ ip.offset + 2 * l.words ≤ h.floor (l.rank + 1) := by
  obtain ⟨from_, until_⟩ := ip_between laid is
  have least := (laid.upper.ip ip is).2.least
  rw [rank, span]
  exact ⟨Nat.le_of_eq from_, Nat.le_trans (Nat.add_le_add_left least _) until_⟩

theorem labels_between (laid : h.Laid d) {e : MplsEntry} (is : h.mpls = some e) :
    h.floor 3 = e.offset ∧ e.offset + 4 ≤ h.floor 4 := by
  obtain ⟨here, fits, -, noArp, before⟩ := laid.upper.mpls e is
  refine ⟨here.symm, ?_⟩
  rw [here]
  simp only [floor, networkOffset]
  cases network : h.network with
  | none => simpa [laid.length] using fits
  | some n =>
    cases n with
    | arp a => exact absurd network (noArp a)
    | ip ip => exact before ip network

/-- The parts of a message have room for an address and for an option. -/
theorem message_between {o : Nat} {m : Icmpv6Header} {p : Option Nat}
    (is : h.transport = some ⟨o, .icmpv6 m, p⟩) :
    h.floor 6 = o + 4 ∧ h.floor 7 = o + 24 ∧ h.floor 8 = o + 32 := by
  simp [floor, is, TransportHeader.least]

/-- A layer lies between the floor of its rank and the next floor. -/
theorem base?_between (laid : h.Laid d) {l : Layer} {b : Nat} (there : h.base? d l = some b) :
    h.floor l.rank ≤ b ∧ b + 2 * l.words ≤ h.floor (l.rank + 1) := by
  have behind := laid.behind
  cases l with
  | ethernet =>
    cases there
    exact ⟨Nat.le_refl _, Nat.le_refl _⟩
  | tci =>
    obtain ⟨tag, is, rfl⟩ := Option.map_eq_some_iff.mp there
    have := laid.tag tag is
    simp only [Layer.rank, Layer.words, floor]
    omega
  | etherType =>
    obtain ⟨-, there⟩ := Option.ite_none_right_eq_some.mp there
    obtain ⟨p, is, rfl⟩ := Option.map_eq_some_iff.mp there
    have body : h.body = p := by rw [body, is]; rfl
    simp only [Layer.rank, Layer.words, floor]
    omega
  | mpls =>
    obtain ⟨e, is, rfl⟩ := Option.map_eq_some_iff.mp there
    obtain ⟨from_, until_⟩ := labels_between laid is
    exact ⟨Nat.le_of_eq from_, until_⟩
  | pbb =>
    obtain ⟨tag, is, rfl⟩ := Option.map_eq_some_iff.mp there
    obtain ⟨here, fits, bare⟩ := laid.upper.pbb tag is
    have bare : h.network = none := bare
    refine ⟨Nat.le_of_eq here.symm, ?_⟩
    rw [here]
    simpa [Layer.rank, Layer.words, floor, networkOffset, bare, laid.length] using fits
  | arp =>
    obtain ⟨a, is, rfl⟩ := Option.map_eq_some_iff.mp there
    have network := arp?_eq_some.mp is
    obtain ⟨here, fits, bare⟩ := laid.upper.arp a network
    have bare : h.transport = none := bare
    simp only [Layer.rank, Layer.words, floor, networkOffset, transportOffset, network, bare,
      Option.map_none, Option.getD_none, Option.getD_some, laid.length]
    omega
  | ipv4 =>
    obtain ⟨ip, is, isV4, rfl⟩ := ip_of_base? there
    exact network_between laid is rfl (IpHeader.least_v4 isV4).symm
  | ipv6 =>
    obtain ⟨ip, is, isV6, rfl⟩ := ip_of_base? there
    exact network_between laid is rfl (IpHeader.least_v6 (IpHeader.isV6_iff.mp isV6)).symm
  | tcp | udp | sctp | icmpv4 | icmpv6 => exact transported_between there
  | target =>
    obtain ⟨o, m, p, is, rfl, -⟩ := message_of_target there
    obtain ⟨from_, until_, -⟩ := message_between is
    show h.floor 6 ≤ o + 8 ∧ o + 8 + 2 * 8 ≤ h.floor 7
    omega
  | sourceLink =>
    obtain ⟨o, m, p, is, -, rfl, -⟩ := message_of_linkOffset? there
    obtain ⟨-, from_, until_⟩ := message_between is
    show h.floor 7 ≤ o + 26 ∧ o + 26 + 2 * 3 ≤ h.floor 8
    omega
  | targetLink =>
    obtain ⟨o, m, p, is, -, rfl, -⟩ := message_of_linkOffset? there
    obtain ⟨-, from_, until_⟩ := message_between is
    show h.floor 7 ≤ o + 26 ∧ o + 26 + 2 * 3 ≤ h.floor 8
    omega

/-- A layer lies inside the frame. -/
theorem base?_fits (laid : h.Laid d) {l : Layer} {b : Nat} (there : h.base? d l = some b) :
    b + 2 * l.words ≤ d.length := by
  have ends : h.floor 6 ≤ d.length := by
    have length := laid.length
    simp only [floor]
    cases transport : h.transport with
    | none => simp [length]
    | some t =>
      obtain ⟨ip, network, -, -, fits⟩ := laid.upper.transport t transport
      have stop := (laid.upper.ip ip network).2.stop
      simp only [Option.map_some, Option.getD_some]
      omega
  have low (small : l.rank + 1 ≤ 6) : b + 2 * l.words ≤ d.length :=
    Nat.le_trans (base?_between laid there).2 (Nat.le_trans (floor_mono laid small) ends)
  cases l with
  | target =>
    obtain ⟨o, m, p, -, rfl, fits⟩ := message_of_target there
    simp only [Layer.words]
    omega
  | sourceLink =>
    obtain ⟨o, m, p, -, -, rfl, fits⟩ := message_of_linkOffset? there
    simp only [Layer.words]
    omega
  | targetLink =>
    obtain ⟨o, m, p, -, -, rfl, fits⟩ := message_of_linkOffset? there
    simp only [Layer.words]
    omega
  | _ => exact low (by decide)

/-- The layer of rank `r`, if one can be there. -/
def occupant? (h : Headers) : Nat → Option Layer
  | 0 => some .ethernet
  | 1 => some .tci
  | 2 => some .etherType
  | 3 => some (if h.mpls.isSome then .mpls else .pbb)
  | 4 =>
    h.network.map fun n =>
      match n with
      | .arp _ => .arp
      | .ip ip => if ip.isV4 then .ipv4 else .ipv6
  | 5 => h.transport.map fun t => Layer.ofTransport t.header
  | 6 => some .target
  | 7 =>
    h.icmpv6?.map fun m =>
      if m.type = Icmpv6Header.neighborSolicitation then .sourceLink else .targetLink
  | _ => none

theorem occupant?_rank (laid : h.Laid d) {l : Layer} {b : Nat} (there : h.base? d l = some b) :
    h.occupant? l.rank = some l := by
  have transported {l : Layer}
      (there : (h.transport.filter fun t => Layer.ofTransport t.header = l).map (·.offset)
        = some b) : h.occupant? l.rank = some l := by
    obtain ⟨t, is, rfl, -⟩ := transport_of_base? there
    rw [rank_ofTransport]
    simp [occupant?, is]
  cases l with
  | ethernet | tci | etherType | target => rfl
  | mpls =>
    obtain ⟨e, is, -⟩ := Option.map_eq_some_iff.mp there
    simp [Layer.rank, occupant?, is]
  | pbb =>
    obtain ⟨tag, is, -⟩ := Option.map_eq_some_iff.mp there
    have unlabelled : h.mpls = none := by
      cases labelled : h.mpls with
      | none => rfl
      | some e =>
        have bare : h.pbb = none := (laid.upper.mpls e labelled).2.2.1
        rw [bare] at is
        cases is
    simp [Layer.rank, occupant?, unlabelled]
  | arp =>
    obtain ⟨a, is, -⟩ := Option.map_eq_some_iff.mp there
    simp [Layer.rank, occupant?, arp?_eq_some.mp is]
  | ipv4 =>
    obtain ⟨ip, is, isV4, -⟩ := ip_of_base? there
    simp [Layer.rank, occupant?, is, isV4]
  | ipv6 =>
    obtain ⟨ip, is, isV6, -⟩ := ip_of_base? there
    have isV4 := IpHeader.isV6_iff.mp isV6
    simp [Layer.rank, occupant?, is, isV4]
  | tcp | udp | sctp | icmpv4 | icmpv6 => exact transported there
  | sourceLink =>
    obtain ⟨o, m, p, is, type, -, -⟩ := message_of_linkOffset? there
    simp [Layer.rank, occupant?, icmpv6?, transportHeader?, is, type]
  | targetLink =>
    obtain ⟨o, m, p, is, type, -, -⟩ := message_of_linkOffset? there
    simp [Layer.rank, occupant?, icmpv6?, transportHeader?, is, type,
      Icmpv6Header.neighborAdvertisement, Icmpv6Header.neighborSolicitation]

/-- At most one layer of a rank is there. -/
theorem layer_unique (laid : h.Laid d) {l m : Layer} {b c : Nat} (there : h.base? d l = some b)
    (also : h.base? d m = some c) (rank : l.rank = m.rank) : l = m := by
  have one := occupant?_rank laid there
  rw [rank, occupant?_rank laid also] at one
  exact (Option.some.inj one).symm

/-! ## Named words -/

/-- Where a word is in the frame `d`. -/
def place? (h : Headers) (d : Bytes) (s : Spot) : Option Nat :=
  if s.2 < s.1.words then (h.base? d s.1).map (· + 2 * s.2) else none

variable {s t : Spot} {i j : Nat}

theorem place?_eq_some : h.place? d s = some i ↔
    s.2 < s.1.words ∧ ∃ b, h.base? d s.1 = some b ∧ i = b + 2 * s.2 := by
  rw [place?, Option.ite_none_right_eq_some, Option.map_eq_some_iff]
  exact and_congr_right fun _ => exists_congr fun b => and_congr_right fun _ => eq_comm

theorem place?_fits (laid : h.Laid d) (there : h.place? d s = some i) : i + 2 ≤ d.length := by
  obtain ⟨small, b, at_, rfl⟩ := place?_eq_some.mp there
  have := base?_fits laid at_
  omega

theorem place?_upto (laid : h.Laid d) (there : h.place? d s = some i) {r : Nat}
    (below : s.1.rank < r) : i + 2 ≤ h.floor r := by
  obtain ⟨small, b, at_, rfl⟩ := place?_eq_some.mp there
  have upto := (base?_between laid at_).2
  have rise : h.floor (s.1.rank + 1) ≤ h.floor r := floor_mono laid below
  omega

theorem place?_from (laid : h.Laid d) (there : h.place? d s = some i) {r : Nat}
    (above : r ≤ s.1.rank) : h.floor r ≤ i := by
  obtain ⟨-, b, at_, rfl⟩ := place?_eq_some.mp there
  have from_ := (base?_between laid at_).1
  have rise := floor_mono laid above
  omega

/-- Words with different names do not overlap. -/
theorem apart_of_ne (laid : h.Laid d) (there : h.place? d s = some i)
    (also : h.place? d t = some j) (ne : s ≠ t) : Bytes.Apart i j := by
  obtain ⟨small, b, at_, rfl⟩ := place?_eq_some.mp there
  obtain ⟨small', c, at_', rfl⟩ := place?_eq_some.mp also
  obtain ⟨l, k⟩ := s
  obtain ⟨m, n⟩ := t
  have lower {s t : Spot} {i j : Nat} (there : h.place? d s = some i) (also : h.place? d t = some j)
      (below : s.1.rank < t.1.rank) : i + 2 ≤ j :=
    Nat.le_trans (place?_upto laid there below) (place?_from laid also (Nat.le_refl _))
  rcases Nat.lt_trichotomy l.rank m.rank with below | same | above
  · exact .inl (lower there also below)
  · obtain rfl := layer_unique laid at_ at_' same
    obtain rfl : b = c := Option.some.inj (at_.symm.trans at_')
    have different : k ≠ n := fun same => ne (by rw [same])
    simp only [Bytes.Apart]
    omega
  · exact .inr (lower also there above)

end Headers

end FlowSwitch
