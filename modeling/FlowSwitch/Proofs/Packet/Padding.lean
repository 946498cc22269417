import FlowSwitch.Proofs.Packet.Agree

/-!
# Bytes behind the datagram

An Ethernet frame may go on after the IP datagram that it carries. Nothing in an IPv4 header says
what such padding is, and it is not read. The walk over the extension headers of IPv6 is bounded
by the frame and not by the datagram, so a chain that the datagram does not end is walked on into
the padding: what is met there decides the protocol number and the extension headers that are
recorded, and nothing else, because a transport header is only read inside the datagram.
-/

namespace FlowSwitch

/-- An IPv6 header with the outcome of another walk over its extension headers. -/
def IpHeader.chained (ip : IpHeader) (c : Parse.ChainEnd) : IpHeader :=
  match ip.version with
  | .v4 .. => ip
  | .v6 src dst flowLabel _ => { ip with proto := c.proto, version := .v6 src dst flowLabel c.seen }

namespace IpHeader

theorem chained_v4 {ip : IpHeader} (isV4 : ip.isV4 = true) (c : Parse.ChainEnd) :
    ip.chained c = ip := by
  obtain ⟨_, _, _, _, _, _, version⟩ := ip
  cases version with
  | v4 => rfl
  | v6 => cases isV4

theorem chained_proto {ip : IpHeader} (isV6 : ip.isV4 = false) (c : Parse.ChainEnd) :
    (ip.chained c).proto = c.proto := by
  obtain ⟨_, _, _, _, _, _, version⟩ := ip
  cases version with
  | v4 => cases isV6
  | v6 => rfl

theorem chained_stop (ip : IpHeader) (c : Parse.ChainEnd) : (ip.chained c).stop = ip.stop := by
  obtain ⟨_, _, _, _, _, _, version⟩ := ip
  cases version <;> rfl

theorem chained_congr (ip : IpHeader) {c c' : Parse.ChainEnd} (seen : c'.seen = c.seen)
    (proto : c'.proto = c.proto) : ip.chained c' = ip.chained c := by
  rw [chained, chained, seen, proto]

end IpHeader

namespace Parse

open Bytes (AgreeBelow)

variable {d d' : Bytes} {n o q stop : Nat} {proto : BitVec 8} {seen : Extensions}

/-! ## The chain and the end of the datagram -/

/-- What follows the chain is found inside the datagram by the bytes of the datagram. -/
theorem chainOf_agree (agree : AgreeBelow n d d') (header : o + 40 ≤ n) {p : Nat}
    (payload : (chainOf d o).payload = some p) (inside : p ≤ n) : chainOf d' o = chainOf d o := by
  rw [chainOf, agree.byte (by omega)]
  refine chainAt_congr agree.length _ _ _ fun e q passes => ?_
  have before := passes.before_payload payload
  exact ⟨agree.byte (by omega), agree.byte (by omega)⟩

/-- Behind the datagram no header is read that has to lie inside, so the walk is at its end. -/
theorem chainAt_behind {p p' : Nat} (behind : stop ≤ p) (behind' : stop ≤ p')
    (inside : ∀ e q, Passes d proto p e q → q < stop)
    (inside' : ∀ e q, Passes d' proto p' e q → q < stop) :
    (chainAt d' proto p' seen).seen = (chainAt d proto p seen).seen ∧
      (chainAt d' proto p' seen).proto = (chainAt d proto p seen).proto := by
  cases known : Extension.ofProtocol? proto with
  | none =>
    obtain ⟨_, ended⟩ := chainAt_ended known seen
    rw [ended, ended]
    exact ⟨rfl, rfl⟩
  | some e =>
    have cut {d : Bytes} {p : Nat} (behind : stop ≤ p)
        (inside : ∀ e q, Passes d proto p e q → q < stop) : d.length < p + 2 := by
      by_contra fits
      have := inside e p (.here known (Nat.not_lt.mp fits))
      omega
    rw [chainAt_cut known (cut behind inside), chainAt_cut known (cut behind' inside')]
    exact ⟨rfl, rfl⟩

/-- Two walks that read headers inside the datagram only meet the same headers. -/
theorem chainAt_agree (agree : AgreeBelow stop d d') (proto : BitVec 8) (o : Nat)
    (seen : Extensions) (inside : ∀ e q, Passes d proto o e q → q < stop)
    (inside' : ∀ e q, Passes d' proto o e q → q < stop) :
    (chainAt d' proto o seen).seen = (chainAt d proto o seen).seen ∧
      (chainAt d' proto o seen).proto = (chainAt d proto o seen).proto := by
  have length := agree.length
  induction proto, o, seen using chain_induction d with
  | ended proto o seen unknown =>
    obtain ⟨_, ended⟩ := chainAt_ended unknown seen
    rw [ended, ended]
    exact ⟨rfl, rfl⟩
  | cut proto o seen e known short =>
    rw [chainAt_cut known short, chainAt_cut known (by omega)]
    exact ⟨rfl, rfl⟩
  | step proto o seen e known fits ih =>
    have fits' : o + 2 ≤ d'.length := by omega
    have next : d'.byte o = d.byte o := agree.byte (inside e o (.here known fits))
    rw [chainAt_step known fits, chainAt_step known fits', next]
    have onward (e' : Extension) (q : Nat)
        (passes : Passes d (d.byte o) (o + e.length (d.byte (o + 1))) e' q) : q < stop :=
      inside e' q (.further known fits passes)
    have onward' (e' : Extension) (q : Nat)
        (passes : Passes d' (d.byte o) (o + e.length (d'.byte (o + 1))) e' q) : q < stop :=
      inside' e' q (.further known fits' (by rw [next]; exact passes))
    by_cases whole : o + 2 ≤ stop
    · rw [agree.byte whole] at onward' ⊢
      exact ih onward onward'
    · -- The datagram ends between the two bytes: the length is read from the padding.
      have long := e.length_ge (d.byte (o + 1))
      have long' := e.length_ge (d'.byte (o + 1))
      exact chainAt_behind (by omega) (by omega) onward onward'

/-! ## The layers from the IP header on -/

theorem ipv6?_agree (agree : AgreeBelow (o + 40) d d') :
    ipv6? d' o =
      (ipv6? d o).map fun (ip, _) => (ip.chained (chainOf d' o), (chainOf d' o).payload) := by
  unfold ipv6?
  rw [agree.length]
  by_cases short : d.length < o + 40
  · rw [if_pos short, if_pos short]
    rfl
  · rw [if_neg short, if_neg short, agree.word 4 (by omega), agree.word 2 (by omega),
      agree.byte (show o + 7 < o + 40 by omega), agree.word 16 (by omega),
      agree.word 16 (by omega)]
    rfl

/-- A transport header is read inside the datagram, so padding says nothing of it. -/
theorem transport?_chained {ip : IpHeader} (agree : AgreeBelow ip.stop d d')
    (header : o + 40 ≤ ip.stop) :
    (chainOf d' o).payload.bind (transport? d' (ip.chained (chainOf d' o))) =
      (chainOf d o).payload.bind (transport? d (ip.chained (chainOf d o))) := by
  -- Where one walk ends inside the datagram, the other is the same walk.
  have same {d d' : Bytes} (agree : AgreeBelow ip.stop d d') {p : Nat}
      (payload : (chainOf d o).payload = some p) (inside : p < ip.stop) :
      (chainOf d' o).payload.bind (transport? d' (ip.chained (chainOf d' o))) =
        (chainOf d o).payload.bind (transport? d (ip.chained (chainOf d o))) := by
    rw [chainOf_agree agree header payload (Nat.le_of_lt inside), payload]
    exact transport?_agree agree.length fun i _ below =>
      agree.same i (by rwa [ip.chained_stop] at below)
  have outside {d : Bytes} (behind : ∀ p, (chainOf d o).payload = some p → ip.stop ≤ p) :
      (chainOf d o).payload.bind (transport? d (ip.chained (chainOf d o))) = none := by
    refine Option.bind_eq_none_iff.mpr fun p payload => transport?_behind ?_
    rw [ip.chained_stop]
    exact behind p payload
  by_cases inside : ∃ p, (chainOf d o).payload = some p ∧ p < ip.stop
  · obtain ⟨p, payload, inside⟩ := inside
    exact same agree payload inside
  · by_cases inside' : ∃ p, (chainOf d' o).payload = some p ∧ p < ip.stop
    · obtain ⟨p, payload, inside⟩ := inside'
      exact (same agree.symm payload inside).symm
    · push Not at inside inside'
      rw [outside inside, outside inside']

/-- What the bytes of the datagram leave open is where the chain of extension headers leads. -/
theorem ipLayers_chained {ip : IpHeader}
    (is : (ipLayers d ip.isV4 ip.offset).network = some (.ip ip))
    (agree : AgreeBelow ip.stop d d') (header : ip.offset + ip.least ≤ ip.stop) :
    ipLayers d' ip.isV4 ip.offset =
      { ipLayers d ip.isV4 ip.offset with
        network := some (.ip (ip.chained (chainOf d' ip.offset))) } := by
  obtain ⟨ip', next, found, same⟩ := ipUpper_network is
  obtain rfl := Network.ip.inj same
  unfold ipLayers
  cases version : ip.isV4 with
  | true =>
    rw [version, if_pos rfl] at found
    rw [IpHeader.least_v4 version] at header
    rw [if_pos rfl, ipv4?_agree (agree.mono header), found, ip.chained_v4 version]
    have transport : next.bind (transport? d' ip) = next.bind (transport? d ip) :=
      Option.bind_congr fun p _ => transport?_agree agree.length fun i _ below => agree.same i below
    simp only [if_pos, ipUpper, transport]
  | false =>
    rw [version, if_neg Bool.false_ne_true] at found
    rw [IpHeader.least_v6 version] at header
    have again := ipv6?_agree (.refl (ip.offset + 40) d)
    rw [found] at again
    obtain ⟨own, rfl⟩ := Prod.mk.inj (Option.some.inj again)
    rw [if_neg Bool.false_ne_true, if_neg Bool.false_ne_true, ipv6?_agree (agree.mono header),
      found]
    have transport := transport?_chained agree header
    rw [← own] at transport
    simp only [ipUpper, Option.map_some, transport]

end Parse

namespace Headers

open Bytes (AgreeBelow)
open Parse (chainOf Extends)

variable {d d' : Bytes} {h : Headers} {ip : IpHeader}

/-- The header lies inside its datagram. -/
theorem header_inside (read : parse d = .ok h) (is : h.ip? = some ip) :
    ip.offset + ip.least ≤ ip.stop := by
  have within := ((laid_of_parse read).upper.ip ip (ip?_eq_some.mp is)).2
  exact Nat.le_trans (Nat.add_le_add_left within.least _) within.size

theorem parse_chained (read : parse d = .ok h) (is : h.ip? = some ip)
    (agree : AgreeBelow ip.stop d d') :
    parse d' = .ok { h with network := some (.ip (ip.chained (chainOf d' ip.offset))) } := by
  have network : h.network = some (.ip ip) := ip?_eq_some.mp is
  have here := eq_replaced read is
  rw [here] at network
  have header := header_inside read is
  have least := ip.least_ge
  rw [parse_replaced read is (agree.mono (by omega)), Parse.ipLayers_chained network agree header]
  conv_rhs => rw [here]
  rfl

/-- The walk over the chain is the one that the header was read with. -/
theorem chained_self (read : parse d = .ok h) (is : h.ip? = some ip) :
    ip.chained (chainOf d ip.offset) = ip := by
  have again := Except.ok.inj (read.symm.trans (parse_chained read is (.refl _ d)))
  have network : some (Network.ip ip) = some (.ip (ip.chained (chainOf d ip.offset))) :=
    (ip?_eq_some.mp is).symm.trans (congrArg (·.network) again)
  exact (Network.ip.inj (Option.some.inj network)).symm

/-- A header that is read behind the datagram can be made to end the chain, in two ways. -/
theorem inside_of_parse_eq (read : parse d = .ok h) (is : h.ip? = some ip)
    (isV6 : ip.isV4 = false) (same : ∀ d', AgreeBelow ip.stop d d' → parse d' = .ok h)
    (agree : AgreeBelow ip.stop d d') {e : Parse.Extension} {q : Nat}
    (extends_ : Extends d' ip.offset e q) : q < ip.stop := by
  by_contra outside
  have behind := Nat.not_lt.mp outside
  have fits := Parse.Passes.fits extends_
  have ended (last : UInt8) (unknown : Parse.Extension.ofProtocol? last.toBitVec = none) :
      ip.proto = last.toBitVec := by
    have overwritten : AgreeBelow q d' (d'.overwrite q [last]) := .overwrite q d' _ (Nat.le_refl q)
    have written : (d'.overwrite q [last]).byte q = last.toBitVec := by
      rw [Bytes.byte, Bytes.getElem?_overwrite (by simp; omega)]
      simp
    have agree := agree.trans (overwritten.mono behind)
    have again := Except.ok.inj ((same _ agree).symm.trans (parse_chained read is agree))
    have network : some (Network.ip ip) = some (.ip (ip.chained (chainOf _ ip.offset))) :=
      (ip?_eq_some.mp is).symm.trans (congrArg (·.network) again)
    have carried : Parse.Passes (d'.overwrite q [last]) (d'.byte (ip.offset + 6))
        (ip.offset + 40) e q :=
      Parse.Passes.carry extends_ overwritten.length fun i below => overwritten.byte below
    have proto := carried.proto_eq (by rw [written]; exact unknown) {}
    rw [← overwritten.byte (o := ip.offset + 6) (by omega), written] at proto
    calc
      ip.proto = (ip.chained (chainOf (d'.overwrite q [last]) ip.offset)).proto :=
        congrArg IpHeader.proto (Network.ip.inj (Option.some.inj network))
      _ = last.toBitVec := (IpHeader.chained_proto isV6 _).trans proto
  exact absurd ((ended 50 rfl).symm.trans (ended 59 rfl)) (by decide)

/-- Padding decides nothing but where the chain of extension headers of an IPv6 header leads, and
it decides nothing at all exactly if there is none: in an IPv4 frame, and in an IPv6 frame whose
chain is not walked beyond the end of the datagram, whatever the padding. -/
theorem parse_padding (read : parse d = .ok h) (is : h.ip? = some ip) :
    (∀ d', AgreeBelow ip.stop d d' →
      parse d' = .ok { h with network := some (.ip (ip.chained (chainOf d' ip.offset))) }) ∧
    ((∀ d', AgreeBelow ip.stop d d' → parse d' = .ok h) ↔
      ip.isV4 = true ∨
        ∀ d', AgreeBelow ip.stop d d' → ∀ e q, Extends d' ip.offset e q → q < ip.stop) := by
  have network : h.network = some (.ip ip) := ip?_eq_some.mp is
  have unchanged (d' : Bytes) (agree : AgreeBelow ip.stop d d')
      (own : ip.chained (chainOf d' ip.offset) = ip) : parse d' = .ok h := by
    rw [parse_chained read is agree, own, ← network]
  refine ⟨fun d' => parse_chained read is, fun same => ?_, ?_⟩
  · cases version : ip.isV4 with
    | true => exact .inl rfl
    | false => exact .inr fun d' agree e q => inside_of_parse_eq read is version same agree
  · rintro (isV4 | inside) d' agree
    · exact unchanged d' agree (ip.chained_v4 isV4 _)
    · refine unchanged d' agree ?_
      have header := header_inside read is
      have least := ip.least_ge
      have first : d'.byte (ip.offset + 6) = d.byte (ip.offset + 6) := agree.byte (by omega)
      have chain := Parse.chainAt_agree agree (d.byte (ip.offset + 6)) (ip.offset + 40) {}
        (inside d (.refl _ d)) fun e q passes => inside d' agree e q (by rwa [Extends, first])
      calc
        ip.chained (chainOf d' ip.offset) = ip.chained (chainOf d ip.offset) := by
          rw [chainOf, first]
          exact ip.chained_congr chain.1 chain.2
        _ = ip := chained_self read is

/-- The smallest Ethernet frame, with an IPv6 header that promises options and has no payload.
What follows the header is padding. -/
def unended (padding : UInt8) : Bytes := [
  0x02, 0x00, 0x00, 0x00, 0x00, 0x02, 0x02, 0x00, 0x00, 0x00, 0x00, 0x01, 0x86, 0xdd,
  0x60, 0x00, 0x00, 0x00, 0x00, 0x00, 0x00, 0x40,
  0x20, 0x01, 0x0d, 0xb8, 0x00, 0x00, 0x00, 0x00, 0x00, 0x00, 0x00, 0x00, 0x00, 0x00, 0x00, 0x01,
  0x20, 0x01, 0x0d, 0xb8, 0x00, 0x00, 0x00, 0x00, 0x00, 0x00, 0x00, 0x00, 0x00, 0x00, 0x00, 0x02,
  padding, 0x00, 0x00, 0x00, 0x00, 0x00]

/-- The header of `unended`, with what the padding makes of it. -/
def unendedIp (proto : BitVec 8) (extensions : Extensions) : IpHeader :=
  ⟨14, 54, 0, 0, 64, proto, .v6 0x20010db8000000000000000000000001
    0x20010db8000000000000000000000002 0 extensions⟩

def unendedHeaders (proto : BitVec 8) (extensions : Extensions) : Headers where
  length := 60
  ethDst := 0x020000000002
  ethSrc := 0x020000000001
  ethType := EtherType.ipv6
  framing := { ethernet2 := true }
  vlan := none
  payload := some 14
  mpls := none
  pbb := none
  network := some (.ip (unendedIp proto extensions))
  transport := none

theorem parse_unended :
    parse (unended 59) = .ok (unendedHeaders 59 { noNext := true, hop := true }) := by
  decide +kernel

theorem parse_padding_unended :
    parse (unended 59) = .ok (unendedHeaders 59 { noNext := true, hop := true }) ∧
      AgreeBelow 54 (unended 59) (unended 6) ∧
      parse (unended 6) = .ok (unendedHeaders 6 { hop := true }) ∧
      ∃ d', AgreeBelow 54 (unended 59) d' ∧ ∃ e q, Extends d' 14 e q ∧ 54 ≤ q := by
  have agree : AgreeBelow 54 (unended 59) (unended 6) := ⟨rfl, by decide⟩
  obtain ⟨chained, exactly⟩ := parse_padding parse_unended rfl
  have other : parse (unended 6) = .ok (unendedHeaders 6 { hop := true }) := by
    rw [chained _ agree]
    decide +kernel
  refine ⟨parse_unended, agree, other, ?_⟩
  have differ : ¬∀ d', AgreeBelow 54 (unended 59) d' →
      parse d' = .ok (unendedHeaders 59 { noNext := true, hop := true }) := by
    intro same
    exact absurd (other.symm.trans (same _ agree)) (by decide)
  have outside : ¬∀ d', AgreeBelow 54 (unended 59) d' → ∀ e q, Extends d' 14 e q → q < 54 :=
    fun inside => differ (exactly.mpr (.inr inside))
  push Not at outside
  obtain ⟨d', agree, e, q, extends_, behind⟩ := outside
  exact ⟨d', agree, e, q, extends_, behind⟩

/-- Options that an IPv6 header promises and the datagram does not hold are read from the
padding. -/
theorem not_parse_padding :
    ¬∀ (d d' : Bytes) (h : Headers) (ip : IpHeader), parse d = .ok h → h.ip? = some ip →
      AgreeBelow ip.stop d d' → parse d' = parse d := by
  intro claimed
  have same := claimed (unended 59) (unended 6) _ (unendedIp 59 { noNext := true, hop := true })
    parse_unended rfl ⟨rfl, by decide⟩
  rw [parse_unended] at same
  exact absurd same (by decide +kernel)

end Headers

end FlowSwitch
