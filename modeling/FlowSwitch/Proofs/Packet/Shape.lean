import FlowSwitch.Proofs.Packet.Reread

/-!
# Fields that leave the layers alone

Four fields tell the layers of a frame apart: the ethertype, the IP protocol, the type of an
ICMPv6 message and the mark at the bottom of a label stack. When none of them is set, the frame
has the same layers when it is read again.
-/

namespace FlowSwitch

/-- The bits of the times to live. -/
def Headers.ttlSpots : List (Spot × BitVec 16) :=
  [((.ipv4, 4), 0xff00), ((.ipv6, 3), 0x00ff), ((.mpls, 0), 0), ((.mpls, 1), 0x00ff)]

namespace Field

/-- The fields that say which layers a frame has. -/
def isStructural : Field → Bool
  | ethType | ipProto | icmpv6Type | mplsBos => true
  | _ => false

/-- The word is no checksum, and of these bits of it only structural fields own any. -/
def spares (s : Spot) (kept : BitVec 16) : Bool :=
  !Headers.checksums.contains s && !Headers.sealSpots.contains s &&
    (Headers.ttlSpots.all fun t => t.1 != s || t.2 &&& kept == 0) &&
      all.all fun f => f.isStructural || f.spots.all fun t => t.1 != s || t.2 &&& kept == 0

theorem spares_cases {s : Spot} {kept : BitVec 16} (spared : spares s kept = true) :
    s ∉ Headers.checksums ∧ s ∉ Headers.sealSpots ∧
      (∀ t ∈ Headers.ttlSpots, t.1 = s → t.2 &&& kept = 0) ∧
      ∀ f : Field, f.isStructural = false → ∀ t ∈ f.spots, t.1 = s → t.2 &&& kept = 0 := by
  simp only [spares, Bool.and_eq_true, Bool.not_eq_true', List.contains_eq_mem,
    decide_eq_false_iff_not, List.all_eq_true, Bool.or_eq_true] at spared
  obtain ⟨⟨⟨outside, unsealed⟩, timeless⟩, free⟩ := spared
  refine ⟨outside, unsealed, fun t listed same => ?_, fun f plain t listed same => ?_⟩
  · simpa [same] using timeless t listed
  · rcases free f (mem_all f) with structural | free
    · rw [plain] at structural
      cases structural
    · simpa [same] using free t listed

end Field

/-- A match that gives no value to a structural field. -/
def Match.IsPlain (m : Match) : Prop := ∀ f, f.isStructural = true → (m.get f).valid = false

instance (m : Match) : Decidable m.IsPlain :=
  decidable_of_iff (∀ f ∈ Field.all, f.isStructural = true → (m.get f).valid = false)
    ⟨fun each f => each f (Field.mem_all f), fun each f _ => each f⟩

namespace Headers

open Parse (ipUpper ipv4? ipv6? mplsUpper transport? labelStackEnd)

variable {h : Headers} {d d' : Bytes}

/-- What tells the layers is the same in the frames `d` and `d'`. -/
structure Kept (h : Headers) (d d' : Bytes) : Prop extends h.Inside d d d' where
  word : ∀ s p kept, h.place? d s = some p → Field.spares s kept = true →
    d'.word 2 p &&& kept = d.word 2 p &&& kept

theorem kept_setField (laid : h.Laid d) {f : Field} (plain : f.isStructural = false)
    (v : BitVec f.width) : h.Kept d (FieldWrite.setField h d f v) := by
  refine ⟨inside_setField laid (steady_refl h d) f v, fun s p kept there spared => ?_⟩
  obtain ⟨outside, unsealed, -, free⟩ := Field.spares_cases spared
  refine word_setField laid there (steady_refl h d) outside unsealed (fun is => ?_) (free f plain) v
  rw [is] at plain
  cases plain

/-- A time to live tells no layer. -/
theorem kept_script (laid : h.Laid d) {spots : List (Spot × BitVec 16)} (times : spots ⊆ ttlSpots)
    (live : Bool) (ws : List (BitVec 16)) :
    h.Kept d ((h.script live d spots ws).foldl Edit.apply d) := by
  refine ⟨.script spots ws, fun s p kept there spared => ?_⟩
  obtain ⟨outside, -, timeless, -⟩ := Field.spares_cases spared
  exact word_script laid there outside (fun t listed => timeless t (times listed)) live ws

theorem kept_setFields (laid : h.Laid d) {m : Match} (plain : m.IsPlain) :
    h.Kept d (FieldWrite.setFields h m d) := by
  have unset {f : Field} (valid : (m.get f).valid = true) : f.isStructural = false :=
    Bool.eq_false_iff.mpr fun structural => by
      rw [plain f structural] at valid
      cases valid
  refine ⟨inside_setFields laid (steady_refl h d) m, fun s p kept there spared => ?_⟩
  obtain ⟨outside, unsealed, -, free⟩ := Field.spares_cases spared
  exact word_setFields laid there (steady_refl h d) m outside unsealed
    (fun valid => absurd (unset valid) (by decide)) fun f valid => free f (unset valid)

/-! ## Bytes that are kept -/

theorem transport_of_rank {l : Layer} {b : Nat} (there : h.base? d l = some b)
    (rank : 5 ≤ l.rank) : ∃ t, h.transport = some t := by
  have transported {l : Layer}
      (there : (h.transport.filter fun t => Layer.ofTransport t.header = l).map (·.offset)
        = some b) : ∃ t, h.transport = some t := by
    obtain ⟨t, is, -⟩ := transport_of_base? there
    exact ⟨t, is⟩
  cases l with
  | tcp => exact transported there
  | udp => exact transported there
  | sctp => exact transported there
  | icmpv4 => exact transported there
  | icmpv6 => exact transported there
  | target =>
    obtain ⟨o, m, p, is, -⟩ := message_of_target there
    exact ⟨_, is⟩
  | sourceLink =>
    obtain ⟨o, m, p, is, -⟩ := message_of_linkOffset? there
    exact ⟨_, is⟩
  | targetLink =>
    obtain ⟨o, m, p, is, -⟩ := message_of_linkOffset? there
    exact ⟨_, is⟩
  | _ => exact absurd rank (by decide)

theorem network_of_rank (laid : h.Laid d) {l : Layer} {b : Nat} (there : h.base? d l = some b)
    (rank : 4 ≤ l.rank) : ∃ n, h.network = some n ∧ h.floor 4 ≤ b := by
  have low := Nat.le_trans (floor_mono laid rank) (base?_between laid there).1
  by_cases transported : 5 ≤ l.rank
  · obtain ⟨t, is⟩ := transport_of_rank there transported
    obtain ⟨ip, network, -⟩ := laid.upper.transport t is
    exact ⟨_, network, low⟩
  · cases l with
    | arp =>
      obtain ⟨a, is, -⟩ := Option.map_eq_some_iff.mp there
      exact ⟨_, arp?_eq_some.mp is, low⟩
    | ipv4 =>
      obtain ⟨ip, is, -⟩ := ip_of_base? there
      exact ⟨_, is, low⟩
    | ipv6 =>
      obtain ⟨ip, is, -⟩ := ip_of_base? there
      exact ⟨_, is, low⟩
    | ethernet | tci | etherType | mpls | pbb => exact absurd rank (by decide)
    | _ => exact absurd (by decide) transported

/-- What lies between an IP header and the transport header is not written. -/
theorem Inside.between (inside : h.Inside d d d') (laid : h.Laid d) {ip : IpHeader}
    (network : h.network = some (.ip ip)) {i : Nat}
    (behind : ip.offset + ip.least ≤ i) (before : h.transport = none ∨ i < h.floor 5) :
    d'[i]? = d[i]? := by
  refine inside.outside i fun s p there => ?_
  obtain ⟨small, b, base, here⟩ := place?_eq_some.mp there
  obtain ⟨l, k⟩ := s
  by_cases rank : 5 ≤ l.rank
  · obtain ⟨t, is⟩ := transport_of_rank base rank
    rcases before with none | before
    · rw [none] at is
      cases is
    · have from_ := place?_from laid there rank
      omega
  · have upto (rank : l.rank < 4) : i < p ∨ p + 2 ≤ i := by
      have upto := place?_upto laid there rank
      have floor := (ip_between laid network).1
      omega
    cases l with
    | arp =>
      obtain ⟨a, is, -⟩ := Option.map_eq_some_iff.mp base
      rw [arp?_eq_some, network] at is
      cases is
    | ipv4 =>
      obtain ⟨ip', is, isV4, rfl⟩ := ip_of_base? base
      obtain rfl := ip_unique network is
      simp only [Layer.words] at small
      rw [IpHeader.least_v4 isV4] at behind
      omega
    | ipv6 =>
      obtain ⟨ip', is, isV6, rfl⟩ := ip_of_base? base
      obtain rfl := ip_unique network is
      simp only [Layer.words] at small
      rw [IpHeader.least_v6 (IpHeader.isV6_iff.mp isV6)] at behind
      omega
    | ethernet | tci | etherType | mpls | pbb => exact upto (by decide)
    | _ => exact absurd (by decide) rank

namespace Kept

variable (kept : h.Kept d d') (laid : h.Laid d)
include kept laid

section

variable {s : Spot} {p : Nat} (there : h.place? d s = some p)
include there

theorem byte (spared : Field.spares s 0xff00 = true) : d'.byte p = d.byte p :=
  Bytes.byte_congr_of_word (place?_fits laid there) kept.length (kept.word s p _ there spared)

theorem byte_succ (spared : Field.spares s 0x00ff = true) : d'.byte (p + 1) = d.byte (p + 1) :=
  Bytes.byte_succ_congr_of_word (place?_fits laid there) kept.length
    (kept.word s p _ there spared)

omit laid in
theorem whole (spared : Field.spares s 0xffff = true) : d'.word 2 p = d.word 2 p := by
  have same := kept.word s p _ there spared
  have all : (0xffff : BitVec 16) = BitVec.allOnes 16 := by decide
  rwa [all, BitVec.and_allOnes, BitVec.and_allOnes] at same

theorem nibble (spared : Field.spares s 0xf000 = true) :
    Parse.nibble? d' p = Parse.nibble? d p := by
  have fits := place?_fits laid there
  have same := Bytes.byte_and_congr fits kept.length (kept.word s p _ there spared)
  rw [Parse.nibble?, Parse.nibble?, Bytes.getElem?_of_byte (by rw [kept.length]; omega),
    Bytes.getElem?_of_byte (by omega), Option.map_some, Option.map_some]
  exact congrArg some (Parse.nibble_congr same)

theorem mark (spared : Field.spares s 0x0100 = true) :
    (d'[p]?).map (· &&& 1) = (d[p]?).map (· &&& 1) := by
  have fits := place?_fits laid there
  have same := Bytes.byte_and_congr fits kept.length (kept.word s p _ there spared)
  rw [Bytes.getElem?_of_byte (by rw [kept.length]; omega), Bytes.getElem?_of_byte (by omega),
    Option.map_some, Option.map_some]
  exact congrArg some (UInt8.toBitVec_inj.mp same)

theorem getElem? (spared : Field.spares s 0xffff = true) :
    d'[p]? = d[p]? ∧ d'[p + 1]? = d[p + 1]? := by
  have fits := place?_fits laid there
  rw [(Bytes.getElem?_of_word fits).1, (Bytes.getElem?_of_word fits).2,
    ← kept.whole there spared]
  exact Bytes.getElem?_of_word (by rwa [kept.length])

end

/-- Before the layers above Ethernet only the value of a tag can differ. -/
theorem below {i : Nat} (from_ : 12 ≤ i) (before : i < h.body)
    (tag : ∀ tag, h.vlan = some tag → i < tag.offset + 2 ∨ tag.offset + 4 ≤ i) :
    d'[i]? = d[i]? := by
  by_cases type : ∃ b, h.base? d .etherType = some b ∧ (i = b ∨ i = b + 1)
  · obtain ⟨b, base, here⟩ := type
    have word := kept.getElem? laid (place?_of_base? base (k := 0) (by decide)) (by decide)
    rcases here with rfl | rfl
    · exact word.1
    · exact word.2
  · refine kept.outside i fun s p there => ?_
    obtain ⟨small, b, base, here⟩ := place?_eq_some.mp there
    obtain ⟨l, k⟩ := s
    by_contra covers
    have first : l.rank ≠ 0 := fun rank => by
      have upto := place?_upto laid there (r := 1) (by simp only [rank]; decide)
      have floor : h.floor 1 = 12 := rfl
      omega
    have last : l.rank < 3 := Nat.lt_of_not_le fun rank => by
      have from_ := place?_from laid there rank
      have floor : h.floor 3 = h.body := rfl
      omega
    cases l with
    | tci =>
      obtain ⟨t, is, rfl⟩ := Option.map_eq_some_iff.mp base
      have apart := tag t is
      simp only [Layer.words] at small
      omega
    | etherType =>
      simp only [Layer.words] at small
      exact type ⟨b, base, by omega⟩
    | ethernet => exact first rfl
    | _ => exact absurd last (by decide)

/-- Without a layer above Ethernet nothing is written there. -/
theorem bare (mpls : h.mpls = none) (pbb : h.pbb = none) (network : h.network = none) {i : Nat}
    (behind : h.body ≤ i) : d'[i]? = d[i]? := by
  refine kept.outside i fun s p there => ?_
  obtain ⟨-, b, base, -⟩ := place?_eq_some.mp there
  obtain ⟨l, k⟩ := s
  have low : l.rank < 4 := Nat.lt_of_not_le fun rank => by
    obtain ⟨n, is, -⟩ := network_of_rank laid base rank
    rw [network] at is
    cases is
  have upto (rank : l.rank < 3) : i < p ∨ p + 2 ≤ i :=
    .inr (Nat.le_trans (place?_upto laid there rank) behind)
  cases l with
  | mpls =>
    obtain ⟨e, is, -⟩ := Option.map_eq_some_iff.mp base
    rw [mpls] at is
    cases is
  | pbb =>
    obtain ⟨tag, is, -⟩ := Option.map_eq_some_iff.mp base
    rw [pbb] at is
    cases is
  | ethernet | tci | etherType => exact upto (by decide)
  | _ => exact absurd low (by decide)

/-- Of a label stack only the first entry is written. -/
theorem labels {i : Nat} (behind : h.body + 4 ≤ i) (before : h.network = none ∨ i < h.floor 4) :
    d'[i]? = d[i]? := by
  refine kept.outside i fun s p there => ?_
  obtain ⟨small, b, base, here⟩ := place?_eq_some.mp there
  obtain ⟨l, k⟩ := s
  by_cases rank : 4 ≤ l.rank
  · obtain ⟨n, is, from_⟩ := network_of_rank laid base rank
    rcases before with none | before
    · rw [none] at is
      cases is
    · have from_ := place?_from laid there rank
      omega
  · have upto (rank : l.rank < 3) : i < p ∨ p + 2 ≤ i := by
      have upto := place?_upto laid there rank
      have floor : h.floor 3 = h.body := rfl
      omega
    cases l with
    | mpls =>
      obtain ⟨e, is, rfl⟩ := Option.map_eq_some_iff.mp base
      have first := (laid.upper.mpls e is).1
      simp only [Layer.words] at small
      omega
    | pbb =>
      obtain ⟨tag, is, rfl⟩ := Option.map_eq_some_iff.mp base
      have first := (laid.upper.pbb tag is).1
      simp only [Layer.words] at small
      omega
    | ethernet | tci | etherType => exact upto (by decide)
    | _ => exact absurd (by decide) rank

/-! ## Reading the layers again -/

/-- The transport header that an IP header leads to. -/
theorem ipUpper {ip ip' : IpHeader} {next : Option Nat} (same : ip'.blank = ip.blank)
    (network : h.network = some (.ip ip)) (transport : h.transport = next.bind (transport? d ip))
    (behind : ∀ q, next = some q → ip.offset + ip.least ≤ q) :
    (Parse.ipUpper d' (some (ip', next))).blank = (Parse.ipUpper d (some (ip, next))).blank := by
  have found : (next.bind (transport? d' ip')).map Transport.blank =
      (next.bind (transport? d ip)).map Transport.blank := by
    cases next with
    | none => rfl
    | some q =>
      have leads : h.transport = transport? d ip q := transport
      have behind := behind q rfl
      cases read : transport? d ip q with
      | none =>
        rw [read] at leads
        have kept (i : Nat) (after : q ≤ i) : d'.byte i = d.byte i := by
          rw [Bytes.byte, Bytes.byte, kept.toInside.between laid network (by omega) (.inl leads)]
        rw [Option.bind_some, Option.bind_some]
        exact Parse.transport?_congr same (fun _ => kept _ (Nat.le_add_right ..))
          fun _ => kept _ (Nat.le_refl _)
      | some t =>
        rw [read] at leads
        obtain ⟨rfl, -⟩ := Parse.transport?_within read
        obtain ⟨o, header, p⟩ := t
        rw [Option.bind_some, Option.bind_some]
        refine Parse.transport?_congr same (fun is => ?_) fun is => ?_
        · obtain ⟨a, b, rfl⟩ := (Parse.transport?_kind read).1 is
          have there : h.place? d (.tcp, 6) = some (o + 12) :=
            place?_of_transport leads 6 (show 6 < Layer.tcp.words by decide)
          exact kept.byte laid there (by decide)
        · obtain ⟨m, rfl⟩ := (Parse.transport?_kind read).2 is
          have there : h.place? d (.icmpv6, 0) = some o :=
            place?_of_transport leads 0 (show 0 < Layer.icmpv6.words by decide)
          exact kept.byte laid there (by decide)
  simp only [Parse.ipUpper, Parse.Upper.blank, Option.map_some, Network.blank, same, found]

theorem ipv4 {o : Nat} (network : h.network = (Parse.ipUpper d (ipv4? d o)).network)
    (transport : h.transport = (Parse.ipUpper d (ipv4? d o)).transport)
    (bare : h.network = none → ∀ i, o ≤ i → d'[i]? = d[i]?) :
    (Parse.ipUpper d' (ipv4? d' o)).blank = (Parse.ipUpper d (ipv4? d o)).blank := by
  have again (size : d'.byte o = d.byte o) (total : d'.word 2 (o + 2) = d.word 2 (o + 2))
      (fragment : d'.word 2 (o + 6) = d.word 2 (o + 6))
      (proto : d'.byte (o + 9) = d.byte (o + 9)) :=
    Parse.ipv4?_congr kept.length size total fragment proto
  cases read : ipv4? d o with
  | none =>
    rw [read] at network again
    have rest := bare network
    have byte (i : Nat) (behind : o ≤ i) : d'.byte i = d.byte i := by
      rw [Bytes.byte, Bytes.byte, rest i behind]
    have word (i : Nat) (behind : o ≤ i) : d'.word 2 i = d.word 2 i :=
      Bytes.word_congr kept.length fun j from_ _ => rest j (Nat.le_trans behind from_)
    have none := again (byte _ (Nat.le_refl _)) (word _ (by omega)) (word _ (by omega))
      (byte _ (by omega))
    rw [Option.map_eq_none_iff.mp none]
    rfl
  | some found =>
    obtain ⟨ip, next⟩ := found
    rw [read] at network transport again
    obtain ⟨rfl, within, isV4, behind⟩ := Parse.ipv4?_within read
    have network : h.network = some (.ip ip) := network
    have base : h.base? d .ipv4 = some ip.offset := base?_ipv4 (ip?_eq_some.mpr network) isV4
    have size := kept.byte laid (place?_of_base? base (k := 0) (by decide)) (by decide)
    have total := kept.whole (place?_of_base? base (k := 1) (by decide)) (by decide)
    have fragment := kept.whole (place?_of_base? base (k := 3) (by decide)) (by decide)
    have proto : d'.byte (ip.offset + 9) = d.byte (ip.offset + 9) :=
      kept.byte_succ laid (place?_of_base? base (k := 4) (by decide)) (by decide)
    obtain ⟨ip', found, same⟩ := Parse.eq_some_of_blankNext (again size total fragment proto)
    rw [found]
    refine kept.ipUpper laid same network transport fun q is => ?_
    have least := within.least
    rw [behind q is]
    omega

theorem ipv6 {o : Nat} (network : h.network = (Parse.ipUpper d (ipv6? d o)).network)
    (transport : h.transport = (Parse.ipUpper d (ipv6? d o)).transport)
    (bare : h.network = none → ∀ i, o ≤ i → d'[i]? = d[i]?) :
    (Parse.ipUpper d' (ipv6? d' o)).blank = (Parse.ipUpper d (ipv6? d o)).blank := by
  cases read : ipv6? d o with
  | none =>
    rw [read] at network
    have rest := bare network
    have payload : d'.word 2 (o + 4) = d.word 2 (o + 4) :=
      Bytes.word_congr kept.length fun j from_ _ => rest j (by omega)
    have first : d'.byte (o + 6) = d.byte (o + 6) := by
      rw [Bytes.byte, Bytes.byte, rest _ (Nat.le_add_right ..)]
    have tail : d'.drop (o + 40) = d.drop (o + 40) :=
      Parse.drop_congr fun j from_ => rest j (by omega)
    have again := Parse.ipv6?_congr kept.length payload (by rw [first, tail])
    rw [read] at again
    rw [Option.map_eq_none_iff.mp again]
    rfl
  | some found =>
    obtain ⟨ip, next⟩ := found
    have chained := Parse.ipv6?_next read
    rw [read] at network transport
    obtain ⟨rfl, within, isV4, behind⟩ := Parse.ipv6?_within read
    have network : h.network = some (.ip ip) := network
    have least := IpHeader.least_v6 isV4
    have size : ip.size d = 40 := by rw [IpHeader.size, if_neg (by simp [isV4])]
    have base : h.base? d .ipv6 = some ip.offset := base?_ipv6 (ip?_eq_some.mpr network) isV4
    have payload := kept.whole (place?_of_base? base (k := 2) (by decide)) (by decide)
    have first := kept.byte laid (place?_of_base? base (k := 3) (by decide)) (by decide)
    have chain : Parse.extensionChain (d'.byte (ip.offset + 6)) (ip.offset + 40) {}
          (d'.drop (ip.offset + 40)) =
        Parse.extensionChain (d.byte (ip.offset + 6)) (ip.offset + 40) {}
          (d.drop (ip.offset + 40)) := by
      rw [first]
      cases next with
      | none =>
        rw [Parse.drop_congr fun j from_ =>
          kept.toInside.between laid network (by omega) (.inl transport)]
      | some q =>
        refine Parse.extensionChain_congr ?_ chained.symm fun j before => ?_
        · rw [List.length_drop, List.length_drop, kept.length]
        · rw [List.getElem?_drop, List.getElem?_drop]
          refine kept.toInside.between laid network (by omega) ?_
          cases leads : h.transport with
          | none => exact .inl rfl
          | some t =>
            rw [leads] at transport
            obtain ⟨here, -⟩ := Parse.transport?_within transport.symm
            have floor := (transport_between leads).1
            exact .inr (by omega)
    have again := Parse.ipv6?_congr kept.length payload chain
    rw [read] at again
    obtain ⟨ip', found, same⟩ := Parse.eq_some_of_blankNext again
    rw [found]
    refine kept.ipUpper laid same network transport fun q is => ?_
    have after := behind q is
    omega

theorem labelled {next : Nat} (behind : h.body + 4 ≤ next)
    (network : h.network = (Parse.labelled d next).network)
    (transport : h.transport = (Parse.labelled d next).transport) :
    (Parse.labelled d' next).blank = (Parse.labelled d next).blank := by
  have bare (none : h.network = none) (i : Nat) (from_ : next ≤ i) : d'[i]? = d[i]? :=
    kept.labels laid (Nat.le_trans behind from_) (.inl none)
  have nibble : Parse.nibble? d' next = Parse.nibble? d next := by
    cases is : h.network with
    | none => rw [Parse.nibble?, Parse.nibble?, bare is next (Nat.le_refl _)]
    | some n =>
      have found := network.symm.trans is
      unfold Parse.labelled at found
      split at found
      · obtain ⟨ip, after, read, rfl⟩ := Parse.ipUpper_network found
        obtain ⟨rfl, -, isV4, -⟩ := Parse.ipv4?_within read
        exact kept.nibble laid (place?_of_base? (base?_ipv4 (ip?_eq_some.mpr is) isV4) (k := 0)
          (by decide)) (by decide)
      · split at found
        · obtain ⟨ip, after, read, rfl⟩ := Parse.ipUpper_network found
          obtain ⟨rfl, -, isV4, -⟩ := Parse.ipv6?_within read
          exact kept.nibble laid (place?_of_base? (base?_ipv6 (ip?_eq_some.mpr is) isV4) (k := 0)
            (by decide)) (by decide)
        · cases found
  unfold Parse.labelled at network transport ⊢
  rw [nibble]
  split at network
  · rename_i version
    rw [if_pos version] at transport
    rw [if_pos version, if_pos version]
    exact kept.ipv4 laid network transport bare
  · rename_i other
    rw [if_neg other] at transport
    rw [if_neg other, if_neg other]
    split at network
    · rename_i version
      rw [if_pos version] at transport
      rw [if_pos version, if_pos version]
      exact kept.ipv6 laid network transport bare
    · rename_i unknown
      rw [if_neg unknown, if_neg unknown]

theorem mpls (upper : h.upper = mplsUpper d h.body) :
    (mplsUpper d' h.body).blank = (mplsUpper d h.body).blank := by
  have word := Bytes.isSome_word?_congr (n := 4) (o := h.body) kept.length
  cases there : d.word? 4 h.body with
  | none =>
    rw [there, Option.isSome_none, Option.isSome_eq_false_iff, Option.isNone_iff_eq_none] at word
    rw [mplsUpper, mplsUpper, there, word]
  | some w =>
    rw [there, Option.isSome_some] at word
    obtain ⟨w', there'⟩ := Option.isSome_iff_exists.mp word
    rw [Parse.mplsUpper_eq there] at upper ⊢
    rw [Parse.mplsUpper_eq there']
    have here : h.mpls = some ⟨h.body, w⟩ := congrArg (·.mpls) upper
    have behind {end_ : Nat × Bytes} (ended : labelStackEnd h.body (d.drop h.body) = some end_) :
        h.body + 4 ≤ end_.1 := Parse.labelStackEnd_behind ended
    have reach (n : Network) (is : h.network = some n) :
        ∃ end_ ∈ labelStackEnd h.body (d.drop h.body), h.floor 4 = end_.1 := by
      have found := (congrArg (·.network) upper).symm.trans is
      unfold Parse.stackEnd at found
      cases ended : labelStackEnd h.body (d.drop h.body) with
      | none =>
        rw [ended] at found
        cases found
      | some end_ =>
        rw [ended] at found
        obtain ⟨ip, rfl, offset⟩ := Parse.labelled_network found
        exact ⟨end_, rfl, (ip_between laid is).1.trans offset⟩
    have ends : Parse.stackEnd d' h.body = Parse.stackEnd d h.body := by
      refine Parse.labelStackEnd_congr ?_ fun k inside => ?_
      · rw [List.length_drop, List.length_drop, kept.length]
      · rw [List.getElem?_drop, List.getElem?_drop]
        cases k with
        | zero =>
          have base : h.base? d .mpls = some h.body := by rw [base?, here]; rfl
          exact kept.mark laid (place?_of_base? base (k := 1) (by decide)) (by decide)
        | succ k =>
          rw [kept.labels laid (by omega)]
          cases is : h.network with
          | none => exact .inl rfl
          | some n =>
            obtain ⟨end_, ended, floor⟩ := reach n is
            have := inside end_ ended
            exact .inr (by omega)
    rw [ends]
    cases ended : Parse.stackEnd d h.body with
    | none => rfl
    | some next =>
      obtain ⟨end_, stack, rfl⟩ := Option.map_eq_some_iff.mp ended
      rw [ended] at upper
      have same := kept.labelled laid (behind stack) (congrArg (·.network) upper)
        (congrArg (·.transport) upper)
      simp only [Parse.Upper.blank, Parse.Upper.mk.injEq] at same
      simp only [Option.elim_some, Parse.Upper.blank, same, Option.map_some]

theorem upper {t : BitVec 16} (upper : h.upper = Parse.upper d t h.body) :
    (Parse.upper d' t h.body).blank = (Parse.upper d t h.body).blank := by
  -- Without labels a network header comes first.
  have bare (mpls : h.mpls = none) (pbb : h.pbb = none) (network : h.network = none) (i : Nat)
      (behind : h.body ≤ i) : d'[i]? = d[i]? := kept.bare laid mpls pbb network behind
  have plain (read : Option (Parse.WithPayload IpHeader)) (is : h.upper = Parse.ipUpper d read) :
      h.mpls = none ∧ h.pbb = none ∧ h.network = (Parse.ipUpper d read).network ∧
        h.transport = (Parse.ipUpper d read).transport := by
    cases read with
    | none => exact ⟨congrArg (·.mpls) is, congrArg (·.pbb) is, congrArg (·.network) is,
        congrArg (·.transport) is⟩
    | some found => exact ⟨congrArg (·.mpls) is, congrArg (·.pbb) is, congrArg (·.network) is,
        congrArg (·.transport) is⟩
  unfold Parse.upper at upper ⊢
  split at upper
  · rename_i type
    rw [if_pos type, if_pos type]
    have same := Parse.arp?_congr kept.length h.body
    simp only [Parse.Upper.blank, same]
  · rename_i noArp
    rw [if_neg noArp, if_neg noArp]
    split at upper
    · rename_i type
      rw [if_pos type, if_pos type]
      obtain ⟨mpls, pbb, network, transport⟩ := plain _ upper
      exact kept.ipv4 laid network transport (bare mpls pbb)
    · rename_i noV4
      rw [if_neg noV4, if_neg noV4]
      split at upper
      · rename_i type
        rw [if_pos type, if_pos type]
        obtain ⟨mpls, pbb, network, transport⟩ := plain _ upper
        exact kept.ipv6 laid network transport (bare mpls pbb)
      · rename_i noV6
        rw [if_neg noV6, if_neg noV6]
        split at upper
        · rename_i type
          rw [if_pos type, if_pos type]
          exact kept.mpls laid upper
        · rename_i noLabels
          rw [if_neg noLabels, if_neg noLabels]
          split
          · have word := Bytes.isSome_word?_congr (n := 4) (o := h.body) kept.length
            cases there : d.word? 4 h.body with
            | none =>
              rw [there, Option.isSome_none, Option.isSome_eq_false_iff,
                Option.isNone_iff_eq_none] at word
              rw [word]
            | some w =>
              rw [there, Option.isSome_some] at word
              obtain ⟨w', there'⟩ := Option.isSome_iff_exists.mp word
              rw [there']
              rfl
          · rfl

end Kept

/-- A frame in which what tells the layers was kept is read as it was, but for values. -/
theorem parse_kept (read : parse d = .ok h) (kept : h.Kept d d') :
    ∃ h', parse d' = .ok h' ∧ h'.blank = h.blank := by
  have laid := laid_of_parse read
  obtain ⟨long, rfl⟩ := eq_assemble read
  have first : d'.word 2 12 = d.word 2 12 := by
    refine Bytes.word_congr kept.length fun i from_ before => ?_
    have behind := laid.behind
    refine kept.below laid from_ (by omega) fun tag is => ?_
    have := laid.tag tag is
    omega
  refine ⟨_, parse_of_long (by rwa [kept.length]), assemble_congr kept.length ?_ fun p at_ => ?_⟩
  · refine Parse.etherEnd_congr long kept.length first fun i from_ reads => ?_
    by_cases before : i < (assemble d (Parse.etherEnd d)).body
    · exact kept.below laid (by omega) before reads.1
    · have none : (assemble d (Parse.etherEnd d)).upper = {} := by
        rw [upper_assemble]
        cases at_ : (assemble d (Parse.etherEnd d)).payload with
        | none => rfl
        | some p =>
          rcases reads.2 with length | inside
          · rw [length]
            rfl
          · have := inside p (Option.filter_eq_some_iff.mp at_).1
            have body : (assemble d (Parse.etherEnd d)).body = p := by rw [body, at_]; rfl
            omega
      exact kept.bare laid (congrArg (·.mpls) none) (congrArg (·.pbb) none)
        (congrArg (·.network) none) (Nat.not_lt.mp before)
  · have body : (assemble d (Parse.etherEnd d)).body = p := by rw [body, at_]; rfl
    have upper : (assemble d (Parse.etherEnd d)).upper =
        Parse.upper d (Parse.etherEnd d).ethType p := by
      rw [upper_assemble, at_]
      rfl
    rw [← body] at upper ⊢
    exact kept.upper laid upper

end Headers

end FlowSwitch
