import FlowSwitch.Proofs.Packet.Balance

/-!
# Rewrites keep checksums

The sums that the checksums of a frame are about do not change modulo 65535 when fields are
set: the words of an IPv4 header, and the words of a TCP or ICMP message together with its pseudo
header, as long as the protocol itself is not set.
-/

namespace FlowSwitch

namespace IpHeader

/-- The bytes of the header in the frame `d`. -/
def block (ip : IpHeader) (d : Bytes) : Bytes := (d.drop ip.offset).take (ip.size d)

/-- The partial sum of the pseudo header for `length` bytes, with the addresses that are in `d`. -/
def pseudoHeader (ip : IpHeader) (length : Nat) (d : Bytes) : Nat :=
  match ip.version with
  | .v4 .. =>
    Checksum.pseudoHeader4 (d.word 4 (ip.offset + 12)) (d.word 4 (ip.offset + 16)) ip.proto length
  | .v6 .. =>
    Checksum.pseudoHeader6 (d.word 16 (ip.offset + 8)) (d.word 16 (ip.offset + 24)) ip.proto length

end IpHeader

namespace Transport

/-- The partial sum that the checksum of a TCP or ICMP message in `d` is about. The one of ICMPv4
has no pseudo header. -/
def partialSum (t : Transport) (ip : IpHeader) (d : Bytes) : Nat :=
  Checksum.sum ((d.drop t.offset).take (ip.stop - t.offset)) +
    match t.header with
    | .icmpv4 .. => 0
    | _ => ip.pseudoHeader (ip.stop - t.offset) d

end Transport

namespace Headers

open Bytes (weigh)

variable {h : Headers} {d d' : Bytes}

/-- An IPv4 header in `d'` sums up as it did in `d`: it verifies only if it did, and the other
way round. -/
structure HeaderKept (ip : IpHeader) (d d' : Bytes) : Prop where
  size : ip.size d' = ip.size d
  sum : Checksum.sum (ip.block d') % 65535 = Checksum.sum (ip.block d) % 65535
  verify : Checksum.verify (ip.block d') = Checksum.verify (ip.block d)

theorem sum_slice {start n : Nat} (fits : start + n ≤ d.length) :
    ((Checksum.sum ((d.drop start).take n) : Nat) : ZMod 65535) =
      weigh (Bytes.span start (start + n)) d := by
  have whole := Bytes.sum_residue (Nat.le_add_right start n) fits
  rwa [Nat.add_sub_cancel_left] at whole

theorem residue_eq {m n : Nat} (same : (m : ZMod 65535) = n) : m % 65535 = n % 65535 :=
  (ZMod.natCast_eq_natCast_iff' m n 65535).mp same

theorem headerKept_of_weigh (laid : h.Laid d) {ip : IpHeader} (is : h.network = some (.ip ip))
    (isV4 : ip.isV4 = true) (length : d'.length = d.length)
    (start : d'.byte ip.offset = d.byte ip.offset)
    (same : weigh (headerWeight ip d) d' = weigh (headerWeight ip d) d) : HeaderKept ip d d' := by
  obtain ⟨least, fits, stop⟩ := (laid.upper.ip ip is).2
  have size : ip.size d' = ip.size d := by
    unfold IpHeader.size
    rw [start]
  have sum : Checksum.sum (ip.block d') % 65535 = Checksum.sum (ip.block d) % 65535 := by
    apply residue_eq
    unfold IpHeader.block
    rw [size, sum_slice (by omega), sum_slice (by omega)]
    exact same
  -- The header length is in the first byte, so neither sum is zero.
  have filled {d : Bytes} (long : 0 < ip.size d) : 0 < Checksum.sum (ip.block d) := by
    have byte : d.byte ip.offset ≠ 0 := fun zero => by
      rw [IpHeader.size, if_pos isV4, zero] at long
      exact absurd long (by decide)
    cases first : d[ip.offset]? with
    | none => exact absurd (by rw [Bytes.byte, first]; rfl) byte
    | some b =>
      have starts : (ip.block d)[0]? = some b := by
        rw [IpHeader.block, List.getElem?_take, if_pos long, List.getElem?_drop, Nat.add_zero,
          first]
      exact Checksum.sum_pos starts fun zero => byte (by rw [Bytes.byte, first, zero]; rfl)
  rw [IpHeader.least_v4 isV4] at least
  exact ⟨size, sum, Checksum.verify_congr (filled (by omega)) (filled (by omega)) sum⟩

theorem sum_ofWord {n start : Nat} (fits : start + n ≤ d.length) :
    ((Checksum.sum (Bytes.ofWord n (d.word n start)) : Nat) : ZMod 65535) =
      weigh (Bytes.span start (start + n)) d := by
  rw [Bytes.ofWord_word fits, sum_slice fits]

/-- The pseudo header weighs what its addresses do, besides its protocol and length. -/
theorem pseudoHeader_residue (ip : IpHeader) (n : Nat) : ∃ c : ZMod 65535, ∀ d : Bytes,
    ip.offset + ip.least ≤ d.length →
      ((ip.pseudoHeader n d : Nat) : ZMod 65535) = weigh (addressWeight ip) d + c := by
  unfold IpHeader.pseudoHeader addressWeight addressStart IpHeader.least IpHeader.isV4
  cases ip.version with
  | v4 src dst =>
    refine ⟨(ip.proto.toNat + n % 0x10000 : Nat), fun d fits => ?_⟩
    simp only [if_true] at fits ⊢
    have middle : ∃ k, ip.offset + 16 = ip.offset + 12 + 2 * k := ⟨2, rfl⟩
    rw [Checksum.pseudoHeader4, ← Bytes.weigh_span_add middle (by omega)]
    push_cast
    rw [sum_ofWord (by omega), sum_ofWord (by omega)]
    ring
  | v6 src dst label extensions =>
    refine ⟨(ip.proto.toNat + n / 0x10000 + n % 0x10000 : Nat), fun d fits => ?_⟩
    simp only [if_false, Bool.false_eq_true] at fits ⊢
    have middle : ∃ k, ip.offset + 24 = ip.offset + 8 + 2 * k := ⟨8, rfl⟩
    rw [Checksum.pseudoHeader6, ← Bytes.weigh_span_add middle (by omega)]
    push_cast
    rw [sum_ofWord (by omega), sum_ofWord (by omega)]
    ring

theorem weigh_message (ip : IpHeader) (t : Transport) (d : Bytes) :
    weigh (messageWeight ip t) d = weigh (Bytes.span t.offset ip.stop) d +
      pseudoFactor t.header * weigh (addressWeight ip) d := by
  simp only [weigh, messageWeight, add_mul, Finset.sum_add_distrib, Finset.mul_sum, mul_assoc]

/-- With or without a pseudo header, the sum is the weight of the message up to a constant. -/
theorem partialSum_residue (laid : h.Laid d) {ip : IpHeader} {t : Transport}
    (network : h.network = some (.ip ip)) (transport : h.transport = some t) :
    ∃ c : ZMod 65535, ∀ d' : Bytes, d'.length = d.length →
      ((t.partialSum ip d' : Nat) : ZMod 65535) = weigh (messageWeight ip t) d' + c := by
  obtain ⟨least, size, stop⟩ := (laid.upper.ip ip network).2
  obtain ⟨ip', is, -, -, fits⟩ := laid.upper.transport t transport
  have is : h.network = some (.ip ip') := is
  rw [network] at is
  cases is
  obtain ⟨c, pseudo⟩ := pseudoHeader_residue ip (ip.stop - t.offset)
  refine ⟨pseudoFactor t.header * c, fun d' length => ?_⟩
  have message := Bytes.sum_residue (d := d') (show t.offset ≤ ip.stop by omega) (by omega)
  have addresses := pseudo d' (by omega)
  unfold Transport.partialSum
  rw [weigh_message, ← message]
  cases t.header with
  | icmpv4 type code =>
    simp [pseudoFactor]
  | _ =>
    simp only [pseudoFactor, one_mul]
    push_cast
    rw [addresses]
    ring

theorem partialSum_eq_iff (laid : h.Laid d) {ip : IpHeader} {t : Transport}
    (network : h.network = some (.ip ip)) (transport : h.transport = some t) {d₁ d₂ : Bytes}
    (length₁ : d₁.length = d.length) (length₂ : d₂.length = d.length) :
    t.partialSum ip d₁ % 65535 = t.partialSum ip d₂ % 65535 ↔
      weigh (messageWeight ip t) d₁ = weigh (messageWeight ip t) d₂ := by
  obtain ⟨c, residue⟩ := partialSum_residue laid network transport
  rw [← ZMod.natCast_eq_natCast_iff', residue d₁ length₁, residue d₂ length₂, add_left_inj]

theorem partialSum_of_weigh (laid : h.Laid d) {ip : IpHeader} {t : Transport}
    (network : h.network = some (.ip ip)) (transport : h.transport = some t)
    (length : d'.length = d.length)
    (same : weigh (messageWeight ip t) d' = weigh (messageWeight ip t) d) :
    t.partialSum ip d' % 65535 = t.partialSum ip d % 65535 :=
  (partialSum_eq_iff laid network transport length rfl).mpr same

end Headers

/-! ## Setting fields -/

/-- The checksum is the sum of words; that of UDP may be missing, and SCTP has another. -/
def TransportHeader.isSummed : TransportHeader → Bool
  | .tcp .. | .icmpv4 .. | .icmpv6 .. => true
  | .udp .. | .sctp .. => false

/-- Whether the match sets a part of a neighbour message. -/
def Match.setsNeighbor (m : Match) : Bool :=
  (m.get .ipv6NdTarget).valid || (m.get .ipv6NdSll).valid || (m.get .ipv6NdTll).valid

namespace Headers

variable {h : Headers} {d : Bytes}

/-- The word that begins with the length of an IPv4 header keeps its first byte. -/
theorem headLength_spots (f : Field) :
    ∀ t ∈ f.spots, t.1 = (.ipv4, 0) → t.2 &&& (0xff00 : BitVec 16) = 0 := by
  cases f <;> decide

theorem place?_head {ip : IpHeader} (is : h.network = some (.ip ip)) (isV4 : ip.isV4 = true) :
    h.place? d (.ipv4, 0) = some ip.offset :=
  place?_of_base? (base?_ipv4 (ip?_eq_some.mpr is) isV4) (by decide)

theorem headerKept_setFields (laid : h.Laid d) {ip : IpHeader} (is : h.network = some (.ip ip))
    (isV4 : ip.isV4 = true) (m : Match) : HeaderKept ip d (FieldWrite.setFields h m d) := by
  have steady := (steady_refl h d).setFields laid m
  have head := place?_head (d := d) is isV4
  refine headerKept_of_weigh laid is isV4 steady.length ?_ ?_
  · exact Bytes.byte_congr_of_word (place?_fits laid head) steady.length
      (word_setFields laid head (steady_refl h d) m (by decide) (by decide) (fun _ => by decide)
        fun f _ => headLength_spots f)
  · refine (balance_header laid is isV4).setFields laid m
      (fun d _ => weigh_header_reseal laid is d) (fun _ _ _ _ _ => trivial)
      fun _ => ⟨⟨trivial, trivial⟩, fun _ _ covers => pseudoSum_light covers⟩

theorem headerKept_script (laid : h.Laid d) {ip : IpHeader} (is : h.network = some (.ip ip))
    (isV4 : ip.isV4 = true) {spots : List (Spot × BitVec 16)}
    (free : ∀ t ∈ spots, t.1 = (.ipv4, 0) → t.2 &&& (0xff00 : BitVec 16) = 0) (live : Bool)
    (ws : List (BitVec 16)) :
    HeaderKept ip d ((h.script live d spots ws).foldl Edit.apply d) := by
  have steady := (steady_refl h d).script laid live spots ws
  have head := place?_head (d := d) is isV4
  refine headerKept_of_weigh laid is isV4 steady.length ?_ ?_
  · exact Bytes.byte_congr_of_word (place?_fits laid head) steady.length
      (word_script laid head (by decide) free live ws)
  · exact (balance_header laid is isV4).script laid (steady_refl h d) (fun _ _ => trivial) live ws

/-- Only the parts of a neighbour message lie behind a transport header. -/
theorem rank_spots {f : Field} (other : f ≠ .ipv6NdTarget ∧ f ≠ .ipv6NdSll ∧ f ≠ .ipv6NdTll) :
    ∀ s ∈ f.spots, s.1.1.rank ≤ 5 := by
  have listed : (f.spots.all fun s => s.1.1.rank ≤ 5) = true := by
    cases f with
    | ipv6NdTarget => exact absurd rfl other.1
    | ipv6NdSll => exact absurd rfl other.2.1
    | ipv6NdTll => exact absurd rfl other.2.2
    | _ => rfl
  simpa using listed

theorem partialSum_setFields (laid : h.Laid d) {ip : IpHeader} {t : Transport}
    (network : h.network = some (.ip ip)) (transport : h.transport = some t) {m : Match}
    (fixed : (m.get .ipProto).valid = false) (summed : t.header.isSummed = true)
    (room : m.setsNeighbor = true → (∃ i, t.header = .icmpv6 i) → t.offset + 32 ≤ ip.stop) :
    t.partialSum ip (FieldWrite.setFields h m d) % 65535 = t.partialSum ip d % 65535 := by
  have plain (a b : BitVec 16) : t.header ≠ .udp a b := fun is => by
    rw [is] at summed
    cases summed
  have unsealed (a b : BitVec 16) : t.header ≠ .sctp a b := fun is => by
    rw [is] at summed
    cases summed
  have steady := (steady_refl h d).setFields laid m
  refine partialSum_of_weigh laid network transport steady.length ?_
  refine (balance_message laid network transport plain unsealed).setFields laid m ?_ ?_ ?_
  · intro d steady
    have idle : h.reseal d = d := by
      unfold reseal
      split
      · rename_i o a b p is
        rw [transport] at is
        cases is
        exact absurd rfl (unsealed a b)
      · rfl
    rw [idle]
  · intro f valid _ s listed
    by_cases low : s.1.1.rank ≤ 5
    · exact .inl (.inl low)
    · cases base : h.base? d s.1.1 with
      | none => exact .inr rfl
      | some b =>
        obtain ⟨i, header⟩ := message_of_rank transport (by omega) base
        have neighbor : f = .ipv6NdTarget ∨ f = .ipv6NdSll ∨ f = .ipv6NdTll := by
          by_contra other
          simp only [not_or] at other
          exact low (rank_spots other s listed)
        have sets : m.setsNeighbor = true := by
          unfold Match.setsNeighbor
          rcases neighbor with rfl | rfl | rfl
          · rw [valid, Bool.true_or, Bool.true_or]
          · rw [valid, Bool.or_true, Bool.true_or]
          · rw [valid, Bool.or_true]
        exact .inl (.inr (room sets ⟨i, header⟩))
  · intro valid
    rw [fixed] at valid
    cases valid

end Headers

namespace Frame

/-- Setting fields keeps the residues of checksums. For an IPv4 header that holds whatever is set,
also by the actions on the time to live and the type of service. For a TCP or ICMP message it
holds when the protocol is not set, and a message whose neighbour fields are set has room for
them. -/
theorem setFields_keeps_residues {f : Frame} {h : Headers} (held : f.headers? = some h)
    (read : Headers.parse f.data = .ok h) (m : Match) (ttl dscp : BitVec 8) :
    (∃ g, f.setFields m = (.ok (), g) ∧
      (∀ ip, h.ip? = some ip → ip.isV4 = true → Headers.HeaderKept ip f.data g.data) ∧
      ∀ ip t, h.ip? = some ip → h.transport = some t → t.header.isSummed = true →
        (m.get .ipProto).valid = false →
        (m.setsNeighbor = true → (∃ i, t.header = .icmpv6 i) → t.offset + 32 ≤ ip.stop) →
          t.partialSum ip g.data % 65535 = t.partialSum ip f.data % 65535) ∧
    ∀ change ∈ [setIpTtl ttl, setDscp dscp, setMplsTtl ttl], ∃ g, change f = (.ok (), g) ∧
      ∀ ip, h.ip? = some ip → ip.isV4 = true → Headers.HeaderKept ip f.data g.data := by
  have laid := Headers.laid_of_parse read
  have steady := Headers.steady_refl h f.data
  have scripted {change : Headers → Bytes → Bytes} {spots : List (Spot × BitVec 16)}
      {ws : List (BitVec 16)}
      (spelled : change h f.data = (h.script true f.data spots ws).foldl Edit.apply f.data)
      (free : ∀ t ∈ spots, t.1 = (.ipv4, 0) → t.2 &&& (0xff00 : BitVec 16) = 0) :
      ∃ g, f.alter change = (.ok (), g) ∧
        ∀ ip, h.ip? = some ip → ip.isV4 = true → Headers.HeaderKept ip f.data g.data := by
    obtain ⟨g, altered, data, -, -⟩ := alter_data held read change
      (spelled ▸ (steady.script laid true spots ws).length)
    refine ⟨g, altered, fun ip is isV4 => ?_⟩
    rw [data, spelled]
    exact Headers.headerKept_script laid (Headers.ip?_eq_some.mp is) isV4 free true ws
  constructor
  · obtain ⟨g, set, data, -⟩ := setFields_ok held read m
    refine ⟨g, set, fun ip is isV4 => ?_, fun ip t is transport summed fixed room => ?_⟩
    · rw [data]
      exact Headers.headerKept_setFields laid (Headers.ip?_eq_some.mp is) isV4 m
    · rw [data]
      exact Headers.partialSum_setFields laid (Headers.ip?_eq_some.mp is) transport fixed summed
        room
  · intro change listed
    simp only [List.mem_cons, List.not_mem_nil, or_false] at listed
    rcases listed with rfl | rfl | rfl
    · exact scripted (Headers.setIpTtl_eq laid ttl) (by decide)
    · exact scripted (Headers.setTrafficClass_eq laid steady 0xfc _) (by decide)
    · exact scripted (Headers.setMpls_eq laid steady 0xff _) (by decide)

/-- A TCP segment over IPv4 that carries no data. -/
def segment : Bytes := [
  0x02, 0x00, 0x00, 0x00, 0x00, 0x02, 0x02, 0x00, 0x00, 0x00, 0x00, 0x01, 0x08, 0x00,
  0x45, 0x00, 0x00, 0x28, 0x00, 0x01, 0x00, 0x00, 0x40, 0x06, 0x66, 0xcd,
  0x0a, 0x00, 0x00, 0x01, 0x0a, 0x00, 0x00, 0x02,
  0x04, 0x00, 0x00, 0x50, 0x00, 0x00, 0x00, 0x01, 0x00, 0x00, 0x00, 0x00,
  0x50, 0x02, 0x04, 0x00, 0x93, 0x8f, 0x00, 0x00]

def segmentIp : IpHeader := ⟨14, 54, 0, 0, 64, 6, .v4 0x0a000001 0x0a000002⟩

def segmentTransport : Transport := ⟨34, .tcp 1024 80, none⟩

def segmentHeaders : Headers where
  length := 54
  ethDst := 0x020000000002
  ethSrc := 0x020000000001
  ethType := EtherType.ipv4
  framing := { ethernet2 := true }
  vlan := none
  payload := some 14
  mpls := none
  pbb := none
  network := some (.ip segmentIp)
  transport := some segmentTransport

/-- A new source address and a new destination port. -/
def readdressing : Match := (Match.any.set .ipv4Src (.exact 0x0a000003)).set .tcpDst (.exact 443)

theorem setFields_keeps_residues_segment :
    Headers.parse segment = .ok segmentHeaders ∧ (readdressing.get .ipProto).valid = false ∧
      ∃ g, setFields readdressing ⟨segment, some ⟨segmentHeaders, {}⟩⟩ = (.ok (), g) ∧
        g.data ≠ segment ∧ Headers.HeaderKept segmentIp segment g.data ∧
        Checksum.verify (segmentIp.block g.data) = true ∧
        segmentTransport.partialSum segmentIp g.data % 65535 = 0 := by
  have read : Headers.parse segment = .ok segmentHeaders := by decide +kernel
  have fixed : (readdressing.get .ipProto).valid = false := by decide
  obtain ⟨⟨g, set, header, message⟩, -⟩ :=
    setFields_keeps_residues (f := ⟨segment, some ⟨segmentHeaders, {}⟩⟩) rfl read readdressing 0 0
  have header := header segmentIp rfl rfl
  have message := message segmentIp segmentTransport rfl rfl rfl fixed nofun
  refine ⟨read, fixed, g, set, ?_, header, ?_, ?_⟩
  · have changed :
        (setFields readdressing ⟨segment, some ⟨segmentHeaders, {}⟩⟩).2.data ≠ segment := by
      decide +kernel
    rwa [set] at changed
  · rw [header.verify]
    decide +kernel
  · rw [message]
    decide +kernel

end Frame

end FlowSwitch
