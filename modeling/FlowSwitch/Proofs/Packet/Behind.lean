import FlowSwitch.Proofs.Packet.Commute

/-!
# Bytes behind the datagram

What follows an IP datagram in its frame is padding. Fields of headers lie before it, but the
addresses of a neighbour message are written as far as the frame reaches: with a message that is
too short for them they go to the padding. Nothing else is written there.
-/

namespace FlowSwitch

namespace Field

/-- The part of a neighbour message that an address field is. -/
def part? : Field → Option Layer
  | ipv6NdTarget => some .target
  | ipv6NdSll => some .sourceLink
  | ipv6NdTll => some .targetLink
  | _ => none

/-- Every other field is written to words of headers. -/
theorem rank_le_of_part? {f : Field} (other : f.part? = none) :
    ∀ s ∈ f.spots, s.1.1.rank ≤ 5 := by
  have all :
      (Field.all.all fun f => f.part?.isSome || f.spots.all fun s => s.1.1.rank ≤ 5) = true := by
    decide
  have one := List.all_eq_true.mp all f (mem_all f)
  simpa [other] using one

theorem size_pos (f : Field) : 0 < f.size := by
  cases f <;> exact Nat.succ_pos _

end Field

namespace Bytes

variable {d s : Bytes} {o i : Nat}

theorem getElem?_overwrite_or (fits : o + s.length ≤ d.length) :
    (d.overwrite o s)[i]? = (if o ≤ i then s[i - o]? else none).or d[i]? := by
  rw [getElem?_overwrite fits]
  by_cases from_ : o ≤ i
  · rw [if_pos from_]
    by_cases below : i < o + s.length
    · have inside : i - o < s.length := by omega
      rw [if_pos ⟨from_, below⟩, List.getElem?_eq_getElem inside, Option.some_or]
    · have outside : s.length ≤ i - o := by omega
      rw [if_neg fun within => below within.2, List.getElem?_eq_none outside, Option.none_or]
  · rw [if_neg fun within => from_ within.1, if_neg from_, Option.none_or]

end Bytes

namespace FieldWrite

/-- Apart from the checksums a patch is what it writes. -/
theorem getElem?_patch {d new : Bytes} {o i : Nat} {sums : List Nat}
    (apart : ∀ s ∈ sums, i < s ∨ s + 2 ≤ i) :
    (patch o new sums d)[i]? = (d.overwrite o new)[i]? := by
  by_cases fits : o + new.length ≤ d.length
  · rw [patch, Bytes.slice?, if_pos fits]
    dsimp only
    generalize d.overwrite o new = d'
    generalize List.zip _ _ = changes
    induction changes generalizing d' with
    | nil => rfl
    | cons change changes ih =>
      rw [List.foldl_cons, ih]
      split
      · rfl
      · exact getElem?_adjust_of_apart apart
  · rw [patch_of_short (Nat.not_le.mp fits), Bytes.overwrite, Bytes.overwrite?, if_neg fits]
    rfl

end FieldWrite

namespace Headers

variable {h : Headers} {d₀ d : Bytes} {live : Bool} {ip : IpHeader} {i : Nat}

/-! ## Headers are in the datagram -/

section

variable (laid : h.Laid d₀) (is : h.ip? = some ip)
include laid is

theorem floor_le_stop : h.floor 4 ≤ ip.stop ∧ ∀ t, h.transport = some t → h.floor 6 ≤ ip.stop := by
  have network := ip?_eq_some.mp is
  have within := (laid.upper.ip ip network).2
  constructor
  · rw [(ip_between laid network).1]
    exact Nat.le_trans (Nat.le_add_right ..) within.size
  · intro t transport
    obtain ⟨ip', network', -, -, fits⟩ := laid.upper.transport t transport
    obtain rfl := ip_unique network network'
    rw [(transport_between transport).2]
    exact fits

/-- A word of a header ends before the datagram does. -/
theorem place?_le_stop {s : Spot} (there : h.place? d₀ s = some i) (low : s.1.rank ≤ 5) :
    i + 2 ≤ ip.stop := by
  have network := ip?_eq_some.mp is
  have within := (laid.upper.ip ip network).2
  obtain ⟨small, b, base, rfl⟩ := place?_eq_some.mp there
  obtain ⟨l, k⟩ := s
  have small : k < l.words := small
  have upto (r : Nat) (below : l.rank < r) : b + 2 * k + 2 ≤ h.floor r :=
    place?_upto laid there below
  have transported (found : (h.transport.filter fun t => Layer.ofTransport t.header = l).map
      (·.offset) = some b) : b + 2 * k + 2 ≤ ip.stop := by
    obtain ⟨t, transport, -, -⟩ := transport_of_base? found
    exact Nat.le_trans (upto 6 (Nat.lt_succ_of_le low)) ((floor_le_stop laid is).2 t transport)
  have version {accepts : IpHeader → Bool}
      (found : (h.ip?.filter accepts).map (·.offset) = some b)
      (least : accepts ip = true → 2 * l.words = ip.least) : b + 2 * k + 2 ≤ ip.stop := by
    obtain ⟨ip', network', accepted, rfl⟩ := ip_of_base? found
    obtain rfl := ip_unique network network'
    have size := within.size
    have long := within.least
    have span := least accepted
    show ip'.offset + 2 * k + 2 ≤ _
    omega
  cases l with
  | ipv4 => exact version base fun isV4 => (IpHeader.least_v4 isV4).symm
  | ipv6 => exact version base fun isV6 => (IpHeader.least_v6 (IpHeader.isV6_iff.mp isV6)).symm
  | arp =>
    obtain ⟨a, found, -⟩ := Option.map_eq_some_iff.mp base
    rw [arp?_eq_some, network] at found
    cases found
  | tcp | udp | sctp | icmpv4 | icmpv6 => exact transported base
  | target => exact absurd (show 6 ≤ 5 from low) (by decide)
  | sourceLink | targetLink => exact absurd (show 7 ≤ 5 from low) (by decide)
  | _ => exact Nat.le_trans (upto 4 (by decide)) (floor_le_stop laid is).1

theorem checksums_le_stop : ∀ t ∈ checksums, ∀ p, h.place? d₀ t = some p → p + 2 ≤ ip.stop := by
  have low : ∀ t ∈ checksums, t.1.rank ≤ 5 := by decide
  exact fun t listed p there => place?_le_stop laid is there (low t listed)

theorem drop_resealIf (f : Field) : (h.resealIf f d).drop ip.stop = d.drop ip.stop := by
  unfold resealIf
  split
  · apply List.ext_getElem?
    intro i
    rw [List.getElem?_drop, List.getElem?_drop]
    cases transport : h.transport with
    | none => rw [reseal, transport]
    | some t =>
      obtain ⟨o, header, p⟩ := t
      cases header with
      | sctp a b =>
        have fits : h.floor 6 ≤ ip.stop := (floor_le_stop laid is).2 _ transport
        have top : h.floor 6 = o + 12 := (transport_between transport).2
        exact getElem?_reseal transport (by omega)
      | _ => simp only [reseal, transport]
  · rfl

/-- Every field but an address is written before the end. -/
theorem drop_setPlain (steady : h.Steady d₀ d) {f : Field} (other : f.part? = none)
    (v : BitVec f.width) : (FieldWrite.setField h d f v).drop ip.stop = d.drop ip.stop := by
  have sums := checksums_le_stop laid is
  by_cases proto : f = .ipProto
  · subst proto
    have low : ∀ s ∈ protocolSpots, s.1.rank ≤ 5 := by decide
    exact drop_setProtocol sums laid
      (fun s listed i there => place?_le_stop laid is there (low s listed)) v
  · rw [setField_eq laid steady proto, drop_resealIf laid is]
    exact drop_script sums (fun s listed i there =>
      place?_le_stop laid is there (Field.rank_le_of_part? other s listed)) _

end

/-! ## Addresses of neighbour messages -/

/-- Where an address field begins in the frame `d`. -/
def addressBase? (h : Headers) (d : Bytes) (f : Field) : Option Nat := f.part?.bind (h.base? d)

/-- The byte at `i` of an address that is written to a message of the frame `d`. -/
def addressByte? (h : Headers) (d : Bytes) (f : Field) (v : BitVec f.width) (i : Nat) :
    Option UInt8 :=
  (h.addressBase? d f).bind fun o => if o ≤ i then (Bytes.ofWord f.size v)[i - o]? else none

/-- What a match writes to the byte at `i` of the frame `d`, as far as addresses of messages go. -/
def spilt? (h : Headers) (m : Match) (d : Bytes) (i : Nat) : Option UInt8 :=
  Field.all.reverse.findSome? fun f =>
    if (m.get f).valid then h.addressByte? d f (m.get f).value i else none

section

variable (laid : h.Laid d₀) (steady : h.Steady d₀ d) (is : h.ip? = some ip)
include laid steady is

omit is in
/-- An address is written in one piece, from its base on. -/
theorem setField_part {l : Layer} {f : Field} (part : f.part? = some l) (v : BitVec f.width) :
    FieldWrite.setField h d f v = (h.base? d₀ l).elim d fun b =>
      FieldWrite.patch b (Bytes.ofWord f.size v) ([(.icmpv6, 1)].filterMap (h.place? d₀)) d := by
  have spots : f.spots = Field.whole l 0 l.words := by cases f <;> cases part <;> rfl
  have spelled : h.spell f v = Bytes.wordsOf l.words v.toNat := by cases f <;> cases part <;> rfl
  have size : f.size = 2 * l.words := by cases f <;> cases part <;> rfl
  have outside (k : Nat) : (l, k) ∉ checksums := by cases f <;> cases part <;> simp [checksums]
  have covered (k : Nat) : h.covering (h.live d) (l, k) = [(.icmpv6, 1)] := by
    cases f <;> cases part <;> rfl
  have plain : f ≠ .ipProto ∧ ¬(f = .sctpSrc ∨ f = .sctpDst) := by cases f <;> cases part <;> decide
  rw [setField_eq laid steady plain.1, resealIf, if_neg plain.2, edits, spots, spelled]
  cases base : h.base? d₀ l with
  | none =>
    rw [script_whole_of_none base]
    rfl
  | some b =>
    have fits : b + 2 * l.words ≤ d.length := by
      rw [steady.length]
      exact base?_fits laid base
    have address : Bytes.ofWords (Bytes.wordsOf l.words v.toNat) = Bytes.ofWord f.size v := by
      rw [Bytes.ofWords_wordsOf, ← size]
      rfl
    rw [script_whole base (Bytes.length_wordsOf ..) (by omega) fun k _ => covered (0 + k),
      Nat.mul_zero, Nat.add_zero, Option.elim_some, ← FieldWrite.patch_run, address]
    · rwa [Bytes.length_wordsOf]
    · intro s sum k small
      rw [Bytes.length_wordsOf] at small
      have placed := place?_of_base? base small
      refine apart_of_covering laid (h.live d) placed (outside k) s ?_
      rwa [covered]

/-- Behind the datagram an address is all that is written: its checksum is before the end. -/
theorem getElem?_setPart {l : Layer} {f : Field} (part : f.part? = some l) (v : BitVec f.width)
    (behind : ip.stop ≤ i) :
    (FieldWrite.setField h d f v)[i]? = (h.addressByte? d₀ f v i).or d[i]? := by
  have size : f.size = 2 * l.words := by cases f <;> cases part <;> rfl
  rw [setField_part laid steady part, addressByte?, addressBase?, part, Option.bind_some]
  cases base : h.base? d₀ l with
  | none => rfl
  | some b =>
    have fits : b + (Bytes.ofWord f.size v).length ≤ d.length := by
      rw [Bytes.ofWord, Bytes.length_ofNat, size, steady.length]
      exact base?_fits laid base
    rw [Option.elim_some, FieldWrite.getElem?_patch, Bytes.getElem?_overwrite_or fits,
      Option.bind_some]
    intro p sum
    obtain ⟨t, listed, there⟩ := List.mem_filterMap.mp sum
    have within : ([(.icmpv6, 1)] : List Spot) ⊆ checksums := by decide
    have := checksums_le_stop laid is t (within listed) p there
    omega

theorem getElem?_setField (f : Field) (v : BitVec f.width) (behind : ip.stop ≤ i) :
    (FieldWrite.setField h d f v)[i]? = (h.addressByte? d₀ f v i).or d[i]? := by
  cases part : f.part? with
  | some l => exact getElem?_setPart laid steady is part v behind
  | none =>
    have none : h.addressByte? d₀ f v i = none := by
      rw [addressByte?, addressBase?, part, Option.bind_none, Option.bind_none]
    rw [none, Option.none_or]
    exact Bytes.getElem?_of_drop (drop_setPlain laid is steady part v) behind

/-- Induction on the fields. What the last of them writes to a byte stands there. -/
theorem getElem?_foldl_setFrom (m : Match) (fields : List Field) (behind : ip.stop ≤ i) :
    (fields.foldl (h.setFrom m) d)[i]? =
      (fields.reverse.findSome? fun f =>
        if (m.get f).valid then h.addressByte? d₀ f (m.get f).value i else none).or d[i]? := by
  induction fields generalizing d with
  | nil => rfl
  | cons f fields ih =>
    have first : (h.setFrom m d f)[i]? =
        (if (m.get f).valid then h.addressByte? d₀ f (m.get f).value i else none).or d[i]? := by
      unfold setFrom
      split
      · exact getElem?_setField laid steady is f _ behind
      · rfl
    rw [List.foldl_cons, ih (steady.setFrom laid m f), first, List.reverse_cons,
      List.findSome?_append, Option.or_assoc, List.findSome?_singleton]

end

/-- Nothing is spilt just if each address ends in the datagram. -/
theorem spilt?_eq_none_iff {m : Match} {stop : Nat} :
    (∀ i, stop ≤ i → h.spilt? m d i = none) ↔
      ∀ f, (m.get f).valid = true → ∀ o, h.addressBase? d f = some o → o + f.size ≤ stop := by
  constructor
  · intro clean f valid o base
    by_contra beyond
    have positive := f.size_pos
    have inside : o + f.size - 1 - o < (Bytes.ofWord f.size (m.get f).value).length := by
      rw [Bytes.ofWord, Bytes.length_ofNat]
      omega
    have none := List.findSome?_eq_none_iff.mp (clean (o + f.size - 1) (by omega)) f
      (List.mem_reverse.mpr (Field.mem_all f))
    rw [if_pos valid, addressByte?, base, Option.bind_some, if_pos (by omega),
      List.getElem?_eq_getElem inside] at none
    cases none
  · intro within i behind
    refine List.findSome?_eq_none_iff.mpr fun f _ => ?_
    split
    · rename_i valid
      rw [addressByte?]
      cases base : h.addressBase? d f with
      | none => rfl
      | some o =>
        have ends := within f valid o base
        have outside : (Bytes.ofWord f.size (m.get f).value).length ≤ i - o := by
          rw [Bytes.ofWord, Bytes.length_ofNat]
          omega
        rw [Option.bind_some, List.getElem?_eq_none outside, ite_self]
    · rfl

end Headers

namespace Frame

/-- A change of the frame keeps its length and, from `stop` on, every byte but those it `put`s. -/
def Spills (f : Frame) (stop : Nat) (change : Frame → Except SwitchError Unit × Frame)
    (put : Nat → Option UInt8) : Prop :=
  ∃ g, change f = (.ok (), g) ∧ g.length = f.length ∧
    ∀ i, stop ≤ i → g.data[i]? = (put i).or f.data[i]?

section

variable {f : Frame} {h : Headers} {ip : IpHeader} (held : f.headers? = some h)
  (read : Headers.parse f.data = .ok h) (is : h.ip? = some ip)
include held read is

/-- A script of words of headers spills nothing. -/
theorem spills_none {change : Headers → Bytes → Bytes} (live : Bool)
    {spots : List (Spot × BitVec 16)} {ws : List (BitVec 16)}
    (low : ∀ s ∈ spots, s.1.1.rank ≤ 5)
    (made : change h f.data = (h.script live f.data spots ws).foldl Edit.apply f.data) :
    f.Spills ip.stop (alter change) fun _ => none := by
  have laid := Headers.laid_of_parse read
  have length : (change h f.data).length = f.data.length := by
    rw [made]
    exact Edit.length_foldl _ f.data
  have kept : (change h f.data).drop ip.stop = f.data.drop ip.stop := by
    rw [made]
    exact Headers.drop_script (Headers.checksums_le_stop laid is)
      (fun s listed i there => Headers.place?_le_stop laid is there (low s listed)) ws
  obtain ⟨g, altered, data, -⟩ := alter_data held read change length
  refine ⟨g, altered, (congrArg List.length data).trans length, fun i behind => ?_⟩
  rw [data, Option.none_or]
  exact Bytes.getElem?_of_drop kept behind

theorem setFields_spills (m : Match) :
    f.Spills ip.stop (·.setFields m) (h.spilt? m f.data) := by
  have laid := Headers.laid_of_parse read
  have steady := Headers.steady_refl h f.data
  obtain ⟨g, set, data, -⟩ := setFields_ok held read m
  refine ⟨g, set, ?_, fun i behind => ?_⟩
  · rw [Frame.length, data]
    exact (Headers.inside_setFields laid steady m).length
  · rw [data]
    exact Headers.getElem?_foldl_setFrom laid steady is m Field.all behind

/-- Behind the datagram, in the padding, a match writes the bytes of the addresses of a neighbour
message that reach there and no others; so it writes nothing there just if all of the addresses
end in the datagram. The times to live and the code point do not reach there. -/
theorem setFields_behind :
    (∀ m, f.Spills ip.stop (·.setFields m) (h.spilt? m f.data) ∧
      ((∀ i, ip.stop ≤ i → h.spilt? m f.data i = none) ↔ ∀ field, (m.get field).valid = true →
        ∀ o, h.addressBase? f.data field = some o → o + field.size ≤ ip.stop)) ∧
      (∀ ttl, f.Spills ip.stop (setIpTtl ttl) fun _ => none) ∧
      (∀ ttl, f.Spills ip.stop (setMplsTtl ttl) fun _ => none) ∧
      ∀ dscp, f.Spills ip.stop (setDscp dscp) fun _ => none := by
  have laid := Headers.laid_of_parse read
  have steady := Headers.steady_refl h f.data
  refine ⟨fun m => ⟨setFields_spills held read is m, Headers.spilt?_eq_none_iff⟩, fun ttl => ?_,
    fun ttl => ?_, fun dscp => ?_⟩
  · exact spills_none held read is true (by decide) (Headers.setIpTtl_eq laid ttl)
  · exact spills_none held read is true (by decide) (Headers.setMpls_eq laid steady _ _)
  · exact spills_none held read is true (by decide)
      (Headers.setTrafficClass_eq laid steady _ _)

end

/-- A solicitation that ends before its target, and sixteen bytes of padding. -/
def cutShort : Bytes := [
  0x02, 0x00, 0x00, 0x00, 0x00, 0x02, 0x02, 0x00, 0x00, 0x00, 0x00, 0x01, 0x86, 0xdd,
  0x60, 0x00, 0x00, 0x00, 0x00, 0x08, 0x3a, 0xff,
  0x20, 0x01, 0x0d, 0xb8, 0, 0, 0, 0, 0, 0, 0, 0, 0, 0, 0, 0x01,
  0x20, 0x01, 0x0d, 0xb8, 0, 0, 0, 0, 0, 0, 0, 0, 0, 0, 0, 0x02,
  0x87, 0x00, 0x1d, 0x48, 0, 0, 0, 0,
  0, 0, 0, 0, 0, 0, 0, 0, 0, 0, 0, 0, 0, 0, 0, 0]

def cutShortIp : IpHeader := ⟨14, 62, 0, 0, 255, 58,
  .v6 0x20010db8000000000000000000000001 0x20010db8000000000000000000000002 0 {}⟩

def cutShortHeaders : Headers where
  length := 78
  ethDst := 0x020000000002
  ethSrc := 0x020000000001
  ethType := EtherType.ipv6
  framing := { ethernet2 := true }
  vlan := none
  payload := some 14
  mpls := none
  pbb := none
  network := some (.ip cutShortIp)
  transport := some ⟨54, .icmpv6 ⟨135, 0, 0, 0⟩, some 58⟩

theorem parse_cutShort : Headers.parse cutShort = .ok cutShortHeaders := by
  decide +kernel

/-- Sets the target to the address of ones only. -/
def aiming : Match := Match.any.set .ipv6NdTarget (.exact (BitVec.allOnes 128))

theorem setFields_behind_cutShort :
    Headers.parse cutShort = .ok cutShortHeaders ∧ cutShortHeaders.ip? = some cutShortIp ∧
      ∃ g, setFields aiming ⟨cutShort, some ⟨cutShortHeaders, {}⟩⟩ = (.ok (), g) ∧
        g.data[62]? = some 0xff := by
  obtain ⟨fields, -⟩ := setFields_behind (f := ⟨cutShort, some ⟨cutShortHeaders, {}⟩⟩)
    rfl parse_cutShort rfl
  obtain ⟨g, set, -, bytes⟩ := (fields aiming).1
  have written : cutShortHeaders.spilt? aiming cutShort 62 = some 0xff := by decide
  refine ⟨parse_cutShort, rfl, g, set, ?_⟩
  rw [bytes 62 (by decide), written]
  rfl

/-- The target of a message that ends before it is written to the padding. -/
theorem not_setFields_behind :
    ¬∀ (f : Frame) (h : Headers) (ip : IpHeader) (m : Match), f.headers? = some h →
      Headers.parse f.data = .ok h → h.ip? = some ip →
        ∀ i, ip.stop ≤ i → (f.setFields m).2.data[i]? = f.data[i]? := by
  intro claimed
  have kept := claimed ⟨cutShort, some ⟨cutShortHeaders, {}⟩⟩ cutShortHeaders cutShortIp aiming rfl
    parse_cutShort rfl 62 (by decide)
  revert kept
  decide +kernel

end Frame

end FlowSwitch
