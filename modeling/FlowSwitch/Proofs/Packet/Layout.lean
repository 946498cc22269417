import FlowSwitch.Proofs.Packet.Words

/-!
# Where headers are

Headers that were read from a frame lie in it one after the other: tag, ethertype, labels,
network header and transport header in this order, none reaching into the next, and the
transport header inside the IP datagram.
-/

namespace FlowSwitch

namespace IpHeader

/-- The bytes of the header itself, without extension headers, in the frame it was read from. -/
def size (ip : IpHeader) (d : Bytes) : Nat :=
  if ip.isV4 then (d.byte ip.offset &&& 0x0f).toNat * 4 else 40

/-- The bytes that every header of the version has. -/
def least (ip : IpHeader) : Nat := if ip.isV4 then 20 else 40

/-- The header fits into the datagram, and the datagram into the frame. -/
structure Within (ip : IpHeader) (d : Bytes) : Prop where
  least : ip.least ≤ ip.size d
  size : ip.offset + ip.size d ≤ ip.stop
  stop : ip.stop ≤ d.length

variable {ip : IpHeader} {d : Bytes}

theorem least_v4 (isV4 : ip.isV4 = true) : ip.least = 20 := if_pos isV4

theorem least_v6 (isV4 : ip.isV4 = false) : ip.least = 40 := if_neg (Bool.eq_false_iff.mp isV4)

theorem isV6_iff : ip.isV6 = true ↔ ip.isV4 = false := by
  rw [isV6, Bool.not_eq_true']

theorem least_ge (ip : IpHeader) : 20 ≤ ip.least := by
  rw [least]
  split <;> decide

/-- The header lies inside the frame. -/
theorem Within.inside (within : ip.Within d) : ip.offset + ip.least ≤ d.length :=
  Nat.le_trans (Nat.add_le_add_left within.least _) (Nat.le_trans within.size within.stop)

end IpHeader

namespace TransportHeader

/-- The bytes that every header of the kind has. -/
def least : TransportHeader → Nat
  | tcp .. => 20
  | udp .. => 8
  | sctp .. => 12
  | icmpv4 .. | icmpv6 .. => 4

theorem least_pos (t : TransportHeader) : 0 < t.least := by
  cases t <;> exact Nat.succ_pos _

end TransportHeader

namespace Parse

/-! ## The way to the innermost ethertype -/

/-- A SNAP header leads to the ethertype in it. -/
theorem etherTags_snap {t : BitVec 16} (low : t ≤ EtherType.maxLength) (o : Nat)
    (framing : Framing) (known : Option VlanTag) (c hi lo : UInt8) {tail : Bytes}
    (filled : tail ≠ []) :
    etherTags t o framing known (0xaa :: 0xaa :: c :: 0 :: 0 :: 0 :: hi :: lo :: tail) =
      etherTags (hi.toBitVec ++ lo.toBitVec) (o + 8) { framing with snap := true } known tail := by
  rw [etherTags.eq_def, if_pos low]
  exact if_pos ⟨rfl, rfl, rfl, rfl, rfl, filled⟩

theorem etherTags_stop {e : BitVec 16} (large : ¬ e ≤ EtherType.maxLength)
    (untagged : EtherType.isVlan e = false) (o : Nat) (framing : Framing) (known : Option VlanTag)
    (rest : Bytes) :
    etherTags e o framing known rest =
      ⟨e, { framing with ethernet2 := true }, known, some o⟩ := by
  rw [etherTags.eq_def, if_neg large]
  dsimp only
  rw [if_neg (by simp [untagged])]

theorem etherTags_tag {t : BitVec 16} (isVlan : EtherType.isVlan t = true) (o : Nat)
    (framing : Framing) (known : Option VlanTag) (tciHi tciLo hi lo : UInt8) (tail : Bytes) :
    etherTags t o framing known (tciHi :: tciLo :: hi :: lo :: tail) =
      etherTags (hi.toBitVec ++ lo.toBitVec) (o + 4) { framing with ethernet2 := true }
        (known.or (some ⟨o - 2, t, tciHi.toBitVec ++ tciLo.toBitVec⟩)) tail := by
  have large : ¬ t ≤ EtherType.maxLength := by
    simp only [EtherType.isVlan, Bool.or_eq_true, beq_iff_eq] at isVlan
    rcases isVlan with (rfl | rfl) | rfl <;> decide
  rw [etherTags.eq_def, if_neg large]
  dsimp only
  rw [if_pos isVlan]

/-- A walk that started at `offset` after the tag `known` ended inside the frame `d`, behind the
tag it recorded. -/
structure EtherEnd.Within (e : EtherEnd) (d : Bytes) (offset : Nat) (known : Option VlanTag) :
    Prop where
  payload : ∀ p, e.payload = some p → offset ≤ p ∧ p ≤ d.length
  kept : ∀ tag, known = some tag → e.vlan = some tag
  first : known = none → ∀ tag, e.vlan = some tag →
    offset ≤ tag.offset + 2 ∧ tag.offset + 6 ≤ d.length ∧
      (∀ p, e.payload = some p → tag.offset + 6 ≤ p) ∧
        d.word? 2 (tag.offset + 2) = some tag.tci

/-- The bytes from an offset on, when `s` comes first among them. -/
theorem drop_of_spelled {d s tail : Bytes} {offset : Nat} (spelled : d.drop offset = s ++ tail)
    (filled : s ≠ []) :
    d.drop (offset + s.length) = tail ∧ offset + s.length + tail.length = d.length := by
  have length : d.length - offset = s.length + tail.length := by
    rw [← List.length_drop, spelled, List.length_append]
  have positive : 0 < s.length := List.length_pos_iff.mpr filled
  refine ⟨?_, by omega⟩
  rw [← List.drop_drop, spelled, List.drop_left]

theorem etherTags_within (t : BitVec 16) (offset : Nat) (framing : Framing)
    (known : Option VlanTag) {rest d : Bytes} (spelled : d.drop offset = rest)
    (inside : offset ≤ d.length) (behind : 2 ≤ offset) :
    (etherTags t offset framing known rest).Within d offset known := by
  have ended {e : EtherEnd} {offset : Nat} {known : Option VlanTag} (vlan : e.vlan = known)
      (payload : ∀ p, e.payload = some p → p = offset) (inside : offset ≤ d.length) :
      e.Within d offset known := by
    refine ⟨fun p at_ => ?_, fun tag is => vlan.trans is, fun none tag is => ?_⟩
    · rw [payload p at_]
      exact ⟨Nat.le_refl _, inside⟩
    · rw [vlan, none] at is
      cases is
  fun_induction etherTags t offset framing known rest with
  | case1 t offset framing known _ dsap ssap c oui0 oui1 oui2 hi lo tail _ ih =>
    obtain ⟨next, length⟩ :=
      drop_of_spelled (s := [dsap, ssap, c, oui0, oui1, oui2, hi, lo]) spelled (by simp)
    simp only [List.length_cons, List.length_nil] at next length
    obtain ⟨payload, kept, first⟩ := ih next (by omega) (by omega)
    refine ⟨fun p at_ => ?_, kept, fun none tag is => ?_⟩
    · have := payload p at_
      omega
    · obtain ⟨after, rest⟩ := first none tag is
      exact ⟨by omega, rest⟩
  | case4 t offset framing known _ framing' _ tciHi tciLo hi lo tail tag ih =>
    obtain ⟨next, length⟩ := drop_of_spelled (s := [tciHi, tciLo, hi, lo]) spelled (by simp)
    simp only [List.length_cons, List.length_nil] at next length
    obtain ⟨payload, kept, first⟩ := ih next (by omega) (by omega)
    refine ⟨fun p at_ => ?_, fun old is => kept old (by rw [is]; rfl), fun none old is => ?_⟩
    · have := payload p at_
      omega
    · have new : old = tag := by
        rw [kept tag (by rw [none]; rfl)] at is
        exact (Option.some.inj is).symm
      have here : tag.offset + 2 = offset := by
        show offset - 2 + 2 = offset
        omega
      have word : d.word? 2 offset = some tag.tci := by
        have byte (i : Nat) : d[offset + i]? = (tciHi :: tciLo :: hi :: lo :: tail)[i]? := by
          rw [← spelled, List.getElem?_drop]
        rw [Bytes.word?_two, byte 1, ← Nat.add_zero offset, byte 0]
        rfl
      rw [new, here]
      refine ⟨Nat.le_refl _, by omega, fun p at_ => ?_, word⟩
      have := payload p at_
      omega
  | case2 | case3 | case6 => exact ended rfl (fun p at_ => (Option.some.inj at_).symm) inside
  | case5 => exact ended rfl (fun p at_ => by cases at_) inside

/-! ## The way to the transport header -/

theorem labelStackEnd_within {offset next : Nat} {rest tail d : Bytes}
    (spelled : d.drop offset = rest) (ended : labelStackEnd offset rest = some (next, tail)) :
    offset + 4 ≤ next ∧ d.drop next = tail := by
  fun_induction labelStackEnd offset rest with
  | case1 offset b c tcBos e tail' bottom =>
    obtain ⟨rfl, rfl⟩ := Prod.mk.inj (Option.some.inj ended)
    exact ⟨Nat.le_refl _, (drop_of_spelled (s := [b, c, tcBos, e]) spelled (by simp)).1⟩
  | case2 offset b c tcBos e tail' _ ih =>
    obtain ⟨further, at_⟩ := ih (drop_of_spelled (s := [b, c, tcBos, e]) spelled (by simp)).1 ended
    exact ⟨by omega, at_⟩
  | case3 => cases ended

theorem extensionChain_within {proto : BitVec 8} {offset p : Nat} {seen : Extensions} {rest : Bytes}
    (payload : (extensionChain proto offset seen rest).payload = some p) : offset ≤ p := by
  fun_induction extensionChain proto offset seen rest with
  | case1 | case2 => cases payload
  | case3 => exact Nat.le_of_eq (Option.some.inj payload)
  | case4 _ _ _ _ _ _ _ _ _ _ _ ih => exact Nat.le_trans (Nat.le_add_right ..) (ih payload)
  | case5 => cases payload

theorem ipv4?_within {d : Bytes} {offset : Nat} {ip : IpHeader} {next : Option Nat}
    (read : ipv4? d offset = some (ip, next)) :
    ip.offset = offset ∧ ip.Within d ∧ ip.isV4 = true ∧
      ∀ p, next = some p → p = offset + ip.size d := by
  unfold ipv4? at read
  simp only [Bool.or_eq_true, decide_eq_true_eq, Option.ite_none_left_eq_some] at read
  obtain ⟨fits, read⟩ := read
  obtain ⟨rfl, rfl⟩ := Prod.mk.inj (Option.some.inj read)
  refine ⟨rfl, ⟨?_, ?_, ?_⟩, rfl, fun p is => ?_⟩
  · simp only [IpHeader.least, IpHeader.size, IpHeader.isV4, if_pos]
    omega
  · simp only [IpHeader.size, IpHeader.isV4, if_pos]
    split
    · exact Nat.le_min.mpr ⟨by omega, by omega⟩
    · omega
  · show (if _ then _ else _) ≤ _
    split
    · exact Nat.min_le_right ..
    · exact Nat.le_refl _
  · split at is
    · exact (Option.some.inj is).symm
    · cases is

/-- The values of an IPv4 header. -/
theorem ipv4?_told {d : Bytes} {offset : Nat} {ip : IpHeader} {next : Option Nat}
    (read : ipv4? d offset = some (ip, next)) :
    ip.dscp = d.byte (offset + 1) >>> 2 ∧ ip.ecn = d.byte (offset + 1) &&& 3 ∧
      ip.ttl = d.byte (offset + 8) ∧
      ip.version = .v4 (d.word 4 (offset + 12)) (d.word 4 (offset + 16)) := by
  unfold ipv4? at read
  simp only [Option.ite_none_left_eq_some] at read
  obtain ⟨rfl, -⟩ := Prod.mk.inj (Option.some.inj read.2)
  exact ⟨rfl, rfl, rfl, rfl⟩

theorem ipv6?_next {d : Bytes} {offset : Nat} {ip : IpHeader} {next : Option Nat}
    (read : ipv6? d offset = some (ip, next)) :
    next =
      (extensionChain (d.byte (offset + 6)) (offset + 40) {} (d.drop (offset + 40))).payload := by
  unfold ipv6? at read
  rw [Option.ite_none_left_eq_some] at read
  exact (Prod.mk.inj (Option.some.inj read.2)).2.symm

theorem ipv6?_within {d : Bytes} {offset : Nat} {ip : IpHeader} {next : Option Nat}
    (read : ipv6? d offset = some (ip, next)) :
    ip.offset = offset ∧ ip.Within d ∧ ip.isV4 = false ∧
      ∀ p, next = some p → offset + ip.size d ≤ p := by
  unfold ipv6? at read
  rw [Option.ite_none_left_eq_some] at read
  obtain ⟨fits, read⟩ := read
  obtain ⟨rfl, rfl⟩ := Prod.mk.inj (Option.some.inj read)
  refine ⟨rfl, ⟨Nat.le_refl _, ?_, Nat.min_le_right ..⟩, rfl, fun p is => extensionChain_within is⟩
  show offset + 40 ≤ min _ _
  omega

/-- The values of an IPv6 header. -/
theorem ipv6?_told {d : Bytes} {offset : Nat} {ip : IpHeader} {next : Option Nat}
    (read : ipv6? d offset = some (ip, next)) :
    ip.dscp = (d.word 4 offset >>> 20).setWidth 8 >>> 2 ∧
      ip.ecn = (d.word 4 offset >>> 20).setWidth 8 &&& 3 ∧ ip.ttl = d.byte (offset + 7) ∧
      ∃ extensions, ip.version = .v6 (d.word 16 (offset + 8)) (d.word 16 (offset + 24))
        (d.word 4 offset &&& 0x000fffff) extensions := by
  unfold ipv6? at read
  rw [Option.ite_none_left_eq_some] at read
  obtain ⟨rfl, -⟩ := Prod.mk.inj (Option.some.inj read.2)
  exact ⟨rfl, rfl, rfl, _, rfl⟩

theorem transport?_within {d : Bytes} {ip : IpHeader} {offset : Nat} {t : Transport}
    (read : transport? d ip offset = some t) :
    t.offset = offset ∧ offset + t.header.least ≤ ip.stop := by
  obtain ⟨⟨header, length⟩, found, rfl⟩ := Option.map_eq_some_iff.mp read
  refine ⟨rfl, ?_⟩
  unfold transportHeader? at found
  dsimp only at found
  split at found
  · simp only [Bool.or_eq_true, decide_eq_true_eq, Option.ite_none_left_eq_some] at found
    obtain ⟨enough, found⟩ := found
    obtain ⟨rfl, rfl⟩ := Prod.mk.inj (Option.some.inj found)
    simp only [TransportHeader.least]
    omega
  · have fixed {n : Nat} {made : TransportHeader}
        (found : (if ip.stop - offset < n then none else some (made, n)) = some (header, length))
        (is : n = made.least) : offset + header.least ≤ ip.stop := by
      rw [Option.ite_none_left_eq_some] at found
      obtain ⟨enough, found⟩ := found
      obtain ⟨rfl, rfl⟩ := Prod.mk.inj (Option.some.inj found)
      have positive := made.least_pos
      omega
    split at found
    · exact fixed found rfl
    · split at found
      · exact fixed found rfl
      · split at found
        · exact fixed found rfl
        · split at found
          · exact fixed found rfl
          · cases found

/-! ## The layers above Ethernet -/

/-- Layers that start at `p` lie one after the other in the frame `d`. -/
structure Upper.Within (u : Upper) (d : Bytes) (p : Nat) : Prop where
  mpls : ∀ e, u.mpls = some e → e.offset = p ∧ p + 4 ≤ d.length ∧ u.pbb = none ∧
    (∀ a, u.network ≠ some (.arp a)) ∧ ∀ ip, u.network = some (.ip ip) → p + 4 ≤ ip.offset
  pbb : ∀ tag, u.pbb = some tag → tag.offset = p ∧ p + 4 ≤ d.length ∧ u.network = none
  arp : ∀ a, u.network = some (.arp a) → a.offset = p ∧ p + 28 ≤ d.length ∧ u.transport = none
  ip : ∀ ip, u.network = some (.ip ip) → p ≤ ip.offset ∧ ip.Within d
  transport : ∀ t, u.transport = some t → ∃ ip, u.network = some (.ip ip) ∧
    ip.offset + ip.size d ≤ t.offset ∧ (ip.isV4 = true → t.offset = ip.offset + ip.size d) ∧
      t.offset + t.header.least ≤ ip.stop

theorem Upper.none_within (d : Bytes) (p : Nat) : Upper.Within {} d p := by
  constructor <;> intro _ is <;> cases is

theorem ipUpper_within {d : Bytes} {offset : Nat} {read : Option (WithPayload IpHeader)}
    (header : ∀ ip next, read = some (ip, next) → ip.offset = offset ∧ ip.Within d ∧
      ∀ p, next = some p → offset + ip.size d ≤ p ∧ (ip.isV4 = true → p = offset + ip.size d)) :
    (ipUpper d read).Within d offset ∧ (ipUpper d read).pbb = none ∧
      ∀ a, (ipUpper d read).network ≠ some (.arp a) := by
  match read, header with
  | none, _ => exact ⟨Upper.none_within d offset, rfl, fun a is => by cases is⟩
  | some (ip, next), header =>
    obtain ⟨rfl, within, behind⟩ := header ip next rfl
    refine ⟨⟨fun e is => ?_, fun tag is => ?_, fun a is => ?_, fun ip' is => ?_, fun t is => ?_⟩,
      rfl, fun a is => ?_⟩
    · cases is
    · cases is
    · cases is
    · cases is
      exact ⟨Nat.le_refl _, within⟩
    · obtain ⟨p, at_, read⟩ := Option.bind_eq_some_iff.mp is
      obtain ⟨here, fits⟩ := transport?_within read
      exact ⟨ip, rfl, here ▸ (behind p at_).1, here ▸ (behind p at_).2, here ▸ fits⟩
    · cases is

theorem ipv4_within (d : Bytes) (offset : Nat) :
    (ipUpper d (ipv4? d offset)).Within d offset ∧ (ipUpper d (ipv4? d offset)).pbb = none ∧
      ∀ a, (ipUpper d (ipv4? d offset)).network ≠ some (.arp a) :=
  ipUpper_within fun ip next read => by
    obtain ⟨here, within, -, behind⟩ := ipv4?_within read
    exact ⟨here, within, fun p is => ⟨Nat.le_of_eq (behind p is).symm, fun _ => behind p is⟩⟩

theorem ipv6_within (d : Bytes) (offset : Nat) :
    (ipUpper d (ipv6? d offset)).Within d offset ∧ (ipUpper d (ipv6? d offset)).pbb = none ∧
      ∀ a, (ipUpper d (ipv6? d offset)).network ≠ some (.arp a) :=
  ipUpper_within fun ip next read => by
    obtain ⟨here, within, isV6, behind⟩ := ipv6?_within read
    exact ⟨here, within, fun p is => ⟨behind p is, fun isV4 => absurd isV4 (by simp [isV6])⟩⟩

theorem mplsUpper_within (d : Bytes) (p : Nat) : (mplsUpper d p).Within d p := by
  unfold mplsUpper
  cases read : d.word? 4 p with
  | none => exact Upper.none_within d p
  | some word =>
    have fits := Bytes.word?_fits read
    -- What follows the stack lies behind its first entry.
    have labelled {u : Upper} {next : Nat} (behind : p + 4 ≤ next) (within : u.Within d next)
        (pbb : u.pbb = none) (arp : ∀ a, u.network ≠ some (.arp a)) :
        Upper.Within { u with mpls := some ⟨p, word⟩ } d p := by
      refine ⟨fun e is => ?_, fun tag is => ?_, fun a is => absurd is (arp a), fun ip is => ?_,
        within.transport⟩
      · cases is
        exact ⟨rfl, fits, pbb, arp, fun ip is => Nat.le_trans behind (within.ip ip is).1⟩
      · rw [show u.pbb = some tag from is] at pbb
        cases pbb
      · obtain ⟨after, within⟩ := within.ip ip is
        exact ⟨by omega, within⟩
    have unlabelled : Upper.Within { ({} : Upper) with mpls := some ⟨p, word⟩ } d p :=
      labelled (Nat.le_refl _) (Upper.none_within d _) rfl fun a is => by cases is
    dsimp only
    split
    · rename_i next first tail ended
      have behind := (labelStackEnd_within rfl ended).1
      split
      · exact labelled behind (ipv4_within d next).1 (ipv4_within d next).2.1
          (ipv4_within d next).2.2
      · split
        · exact labelled behind (ipv6_within d next).1 (ipv6_within d next).2.1
            (ipv6_within d next).2.2
        · exact unlabelled
    · exact unlabelled

/-- The layers above Ethernet are those that the ethertype names, or none. -/
@[elab_as_elim]
theorem upper_cases {d : Bytes} {motive : Upper → Prop} (t : BitVec 16) (p : Nat)
    (arp : t = EtherType.arp → motive { network := (arp? d p).map .arp })
    (ipv4 : t = EtherType.ipv4 → motive (ipUpper d (ipv4? d p)))
    (ipv6 : t = EtherType.ipv6 → motive (ipUpper d (ipv6? d p)))
    (mpls : EtherType.isMpls t = true → motive (mplsUpper d p))
    (pbb : t = EtherType.pbb →
      motive { pbb := (d.word? 4 p).map fun tci => ⟨p, tci &&& 0x00ffffff⟩ })
    (none : motive {}) : motive (upper d t p) := by
  unfold upper
  split
  · exact arp ‹_›
  split
  · exact ipv4 ‹_›
  split
  · exact ipv6 ‹_›
  split
  · exact mpls ‹_›
  split
  · exact pbb ‹_›
  · exact none

theorem upper_within (d : Bytes) (t : BitVec 16) (p : Nat) : (upper d t p).Within d p := by
  refine upper_cases t p (fun _ => ?arp) (fun _ => (ipv4_within d p).1)
    (fun _ => (ipv6_within d p).1) (fun _ => mplsUpper_within d p) (fun _ => ?pbb)
    (Upper.none_within d p)
  case arp =>
    refine ⟨fun _ is => ?_, fun _ is => ?_, fun a is => ?_, fun _ is => ?_, fun _ is => ?_⟩
    · cases is
    · cases is
    · obtain ⟨read, found, here⟩ := Option.map_eq_some_iff.mp is
      cases here
      rw [arp?, Option.ite_none_left_eq_some] at found
      obtain ⟨fits, here⟩ := found
      cases here
      exact ⟨rfl, Nat.not_lt.mp fits, rfl⟩
    · obtain ⟨read, found, here⟩ := Option.map_eq_some_iff.mp is
      cases here
    · cases is
  case pbb =>
    refine ⟨fun _ is => ?_, fun tag is => ?_, fun _ is => ?_, fun _ is => ?_, fun _ is => ?_⟩
    · cases is
    · obtain ⟨tci, read, rfl⟩ := Option.map_eq_some_iff.mp is
      exact ⟨rfl, Bytes.word?_fits read, rfl⟩
    · cases is
    · cases is
    · cases is

end Parse

namespace Headers

def upper (h : Headers) : Parse.Upper := ⟨h.mpls, h.pbb, h.network, h.transport⟩

/-- Where the layers above Ethernet begin; the end of the frame if there is nothing. -/
def body (h : Headers) : Nat := h.payload.getD h.length

/-- The headers lie in the frame `d` one after the other. -/
structure Laid (h : Headers) (d : Bytes) : Prop where
  length : h.length = d.length
  behind : 14 ≤ h.body
  inside : h.body ≤ d.length
  tag : ∀ tag, h.vlan = some tag → 12 ≤ tag.offset ∧ tag.offset + 6 ≤ h.body ∧
    d.word? 2 (tag.offset + 2) = some tag.tci
  upper : h.upper.Within d h.body

theorem laid_of_parse {d : Bytes} {h : Headers} (read : parse d = .ok h) : h.Laid d := by
  unfold parse at read
  split at read
  · cases read
  · split at read
    · cases read
    · rename_i long
      have long : 14 ≤ d.length := Nat.not_lt.mp long
      have walked := Parse.etherTags_within (d.word 2 12) 14 {} none (d := d) rfl long (by decide)
      generalize Parse.etherTags (d.word 2 12) 14 {} none (d.drop 14) = ether at read walked
      obtain rfl := Except.ok.inj read
      cases found : ether.payload.filter (· < d.length) with
      | none =>
        refine ⟨rfl, long, Nat.le_refl _, fun tag is => ?_, Parse.Upper.none_within d _⟩
        obtain ⟨after, inside, -, word⟩ := walked.first rfl tag is
        exact ⟨by omega, inside, word⟩
      | some p =>
        obtain ⟨at_, inside⟩ := Option.filter_eq_some_iff.mp found
        obtain ⟨after, inside⟩ := walked.payload p at_
        refine ⟨rfl, after, inside, fun tag is => ?_, Parse.upper_within d ether.ethType p⟩
        obtain ⟨after, -, before, word⟩ := walked.first rfl tag is
        exact ⟨by omega, before p at_, word⟩

end Headers

end FlowSwitch
