import FlowSwitch.Proofs.Packet.Compose
import FlowSwitch.Proofs.Packet.Layout
import FlowSwitch.Proofs.Packet.Spelling

/-!
# Layers that are read as they were composed

Each reader, started where a composed layer begins, tells this layer and stops where the next one
begins, whatever follows. The walks over tags, labels and extension headers go by induction on the
list that was composed.
-/

namespace FlowSwitch.Compose

open Bytes Parse

/-! ## Tags, labels and extension headers -/

theorem Tag.isVlan (t : Tag) :
    EtherType.isVlan t.tpid = true ∧ ¬ t.tpid ≤ EtherType.maxLength := by
  rcases t.known with known | known | known <;> rw [known] <;> decide

/-- The walk over tags stops at the ethertype behind them and has recorded the first tag. -/
theorem etherTags_of_tags {type : BitVec 16} (large : ¬ type ≤ EtherType.maxLength)
    (plain : EtherType.isVlan type = false) {rest : Bytes} (tags : List Tag) {t : BitVec 16}
    {offset : Nat} {framing : Framing} {known : Option VlanTag} {after : Bytes}
    (spelled : tags.flatMap Tag.bytes ++ (ofWord 2 type ++ rest) = ofWord 2 t ++ after) :
    etherTags t offset framing known after =
      ⟨type, { framing with ethernet2 := true },
        known.or (tags.head?.map fun tag => ⟨offset - 2, tag.tpid, tag.tci⟩),
        some (offset + 4 * tags.length)⟩ := by
  induction tags generalizing t offset framing known after with
  | nil =>
    rw [List.flatMap_nil, List.nil_append] at spelled
    obtain ⟨here, rfl⟩ := List.append_inj spelled (by rw [length_ofWord, length_ofWord])
    obtain rfl := ofWord_inj here
    rw [etherTags_stop large plain]
    simp
  | cons tag more ih =>
    rw [List.flatMap_cons, Tag.bytes, List.append_assoc, List.append_assoc] at spelled
    obtain ⟨here, rfl⟩ := List.append_inj spelled (by rw [length_ofWord, length_ofWord])
    obtain rfl := ofWord_inj here
    obtain ⟨t, after, next⟩ : ∃ t after,
        more.flatMap Tag.bytes ++ (ofWord 2 type ++ rest) = ofWord 2 t ++ after := by
      cases more with
      | nil => exact ⟨type, rest, rfl⟩
      | cons tag more =>
        rw [List.flatMap_cons, Tag.bytes, List.append_assoc, List.append_assoc]
        exact ⟨_, _, rfl⟩
    rw [next, ofWord_two, ofWord_two]
    simp only [List.cons_append, List.nil_append, etherTags_tag tag.isVlan.1, append_high_low]
    rw [ih next, List.length_cons, List.head?_cons, Option.map_some]
    cases known <;> simp <;> omega

theorem and_one_ne_zero (b : BitVec 8) : ((⟨b⟩ : UInt8) &&& 1 != 0) = b.getLsbD 0 := by
  have masked : (⟨b⟩ : UInt8) &&& 1 = ⟨(BitVec.ofBool (b.getLsbD 0)).setWidth 8⟩ := by
    apply UInt8.toBitVec_inj.mp
    show b &&& 1#8 = _
    rw [BitVec.and_one_eq_setWidth_ofBool_getLsbD]
  rw [masked]
  cases b.getLsbD 0 <;> rfl

/-- The third byte of a label entry has the mark of the bottom. -/
theorem labelStackEnd_of_word (offset : Nat) (w : BitVec 32) (rest : Bytes) :
    labelStackEnd offset (ofWord 4 w ++ rest) =
      if w.getLsbD 8 then some (offset + 4, rest) else labelStackEnd (offset + 4) rest := by
  have bottom : (w.extractLsb' 8 8).getLsbD 0 = w.getLsbD 8 := by
    rw [BitVec.getLsbD_extractLsb']
    rfl
  rw [ofWord_four, List.cons_append, List.cons_append, List.cons_append, List.cons_append,
    labelStackEnd, and_one_ne_zero, bottom]
  rfl

theorem labelStackEnd_of_stack (offset : Nat) (l : Label) (more : List Label) (rest : Bytes) :
    labelStackEnd offset (Label.stack (l :: more) ++ rest) =
      some (offset + 4 * (more.length + 1), rest) := by
  induction more generalizing offset l with
  | nil =>
    rw [Label.stack, List.append_assoc, labelStackEnd_of_word, Label.bottom_word]
    rfl
  | cons next more ih =>
    rw [Label.stack, List.append_assoc, labelStackEnd_of_word, Label.bottom_word,
      List.isEmpty_cons, if_neg Bool.false_ne_true, if_neg (by decide), ih, List.length_cons]
    congr 2
    omega

/-- The header as the reader of a chain has it. -/
def Kind.read : Kind → Parse.Extension
  | hop => .hop
  | routing => .router
  | destination => .dest

theorem Kind.ofProtocol?_protocol (k : Kind) :
    Parse.Extension.ofProtocol? k.protocol = some k.read ∧ k.protocol ≠ 50 ∧ k.protocol ≠ 59 := by
  cases k <;> decide

theorem Kind.length_read (k : Kind) (field : BitVec 8) :
    k.read.length field = (field.toNat + 1) * 8 := by
  cases k <;> rfl

/-- The walk over a chain meets its headers and ends at the protocol behind them. -/
theorem extensionChain_of_chain {upper : BitVec 8} (ordinary : upper ≠ 50 ∧ upper ≠ 59)
    (last : Parse.Extension.ofProtocol? upper = none) (extensions : List Extension) (offset : Nat)
    (seen : Extensions) (rest : Bytes) :
    extensionChain (Extension.first upper extensions) offset seen
        (Extension.chain upper extensions ++ rest) =
      ⟨(extensions.map (·.kind.read)).foldl Parse.Extension.mark seen, upper,
        some (offset + (Extension.chain upper extensions).length)⟩ := by
  induction extensions generalizing offset seen with
  | nil =>
    rw [Extension.first, extensionChain, if_neg ordinary.1, if_neg ordinary.2, last]
    rfl
  | cons e more ih =>
    obtain ⟨kind, notEsp, notLast⟩ := e.kind.ofProtocol?_protocol
    have whole := e.whole
    have behind : (e.body ++ (Extension.chain upper more ++ rest)).drop
        ((e.field.toNat + 1) * 8 - 2) = Extension.chain upper more ++ rest :=
      List.drop_left' (by omega)
    rw [Extension.first, extensionChain, if_neg notEsp, if_neg notLast, kind, Extension.chain,
      ofWord_one, ofWord_one]
    simp only [List.cons_append, List.nil_append, List.append_assoc, e.kind.length_read]
    rw [behind, ih, List.map_cons, List.foldl_cons]
    simp only [List.length_cons, List.length_append]
    congr 2
    omega

/-- A header comes more than once if it came before or comes again. -/
theorem repeated_iff (k : Kind) (more : List Kind) (seen : Bool) :
    decide (1 < more.count k + 1 + seen.toNat) = (seen || decide (k ∈ more)) := by
  cases seen with
  | true => simp
  | false => simp [List.count_pos_iff]

theorem mark_foldl (kinds : List Kind) (seen : Extensions) :
    (kinds.map Kind.read).foldl Parse.Extension.mark seen =
      { seen with
        hop := seen.hop || decide (.hop ∈ kinds)
        router := seen.router || decide (.routing ∈ kinds)
        dest := seen.dest || decide (.destination ∈ kinds)
        repeated := seen.repeated || decide (1 < kinds.count .hop + seen.hop.toNat) ||
          decide (1 < kinds.count .routing + seen.router.toNat) } := by
  induction kinds generalizing seen with
  | nil =>
    have hop := seen.hop.toNat_le
    have router := seen.router.toNat_le
    simp [Nat.not_lt.mpr hop, Nat.not_lt.mpr router]
  | cons k more ih =>
    rw [List.map_cons, List.foldl_cons, ih]
    cases k <;>
      simp [Kind.read, Parse.Extension.mark, repeated_iff, Bool.or_assoc, Bool.or_left_comm] <;>
        congr

/-- A chain of extension headers is told as the set of its kinds, and whether one is repeated
that should not be. -/
theorem met_of_mark (extensions : List Extension) :
    (extensions.map (·.kind.read)).foldl Parse.Extension.mark {} = Extension.met extensions := by
  have kinds : extensions.map (·.kind.read) = (extensions.map (·.kind)).map Kind.read := by
    rw [List.map_map]
    rfl
  rw [kinds, mark_foldl]
  simp [Extension.met]

/-! ## IP headers -/

/-- A protocol that no chain of extension headers goes on after. -/
def Final (upper : BitVec 8) : Prop :=
  (upper ≠ 50 ∧ upper ≠ 59) ∧ Parse.Extension.ofProtocol? upper = none

namespace Internet

variable {ip : Internet} {upper : BitVec 8} {d body : Bytes} {o : Nat}

/-- The reader for the version of the header. -/
def read? (ip : Internet) (d : Bytes) (o : Nat) : Option (Parse.WithPayload IpHeader) :=
  match ip.version with
  | .v4 .. => Parse.ipv4? d o
  | .v6 .. => Parse.ipv6? d o

/-- What a reader should tell of the header at `o`, before `n` bytes of the protocol `upper`. -/
def header (ip : Internet) (upper : BitVec 8) (n o : Nat) : IpHeader where
  offset := o
  stop := o + (ip.bytes upper n).length + n
  dscp := ip.dscp.setWidth 8
  ecn := ip.ecn.setWidth 8
  ttl := ip.ttl
  proto := upper
  version := ip.told

theorem read?_v4 {identification checksum : BitVec 16} {flags : BitVec 3} {src dst : Ipv4Address}
    {options : Options} (version : ip.version = .v4 identification flags checksum src dst options)
    (fits : ip.length body.length < 2 ^ 16)
    (spelled : ip.bytes upper body.length ++ body <+: d.drop o) :
    Parse.ipv4? d o = some (ip.header upper body.length o,
      some (o + (ip.bytes upper body.length).length)) := by
  have length : (ip.bytes upper body.length).length = 20 + options.bytes.length := by
    simp only [bytes, version, List.length_append, length_ofWord]
  have inside := length_of_start spelled (List.append_ne_nil_of_left_ne_nil
    (List.ne_nil_of_length_pos (by omega)) body)
  have counted : (BitVec.ofNat 16 (ip.length body.length)).toNat =
      20 + options.bytes.length + body.length := by
    rw [toNat_ofNat_of_lt fits]
    simp only [Internet.length, version]
  have told : ip.told = .v4 src dst := by rw [Internet.told, version]
  rw [List.length_append, length] at inside
  simp only [bytes, version, List.append_assoc] at spelled
  obtain ⟨control, spelled⟩ := byte_of_start spelled
  obtain ⟨tos, spelled⟩ := byte_of_start spelled
  obtain ⟨total, spelled⟩ := word_of_start spelled
  obtain ⟨-, spelled⟩ := word_of_start spelled
  obtain ⟨fragment, spelled⟩ := word_of_start spelled
  obtain ⟨ttl, spelled⟩ := byte_of_start spelled
  obtain ⟨proto, spelled⟩ := byte_of_start spelled
  obtain ⟨-, spelled⟩ := word_of_start spelled
  obtain ⟨source, spelled⟩ := word_of_start spelled
  obtain ⟨destination, -⟩ := word_of_start spelled
  have size := options.control_v4.1
  rw [← control] at size
  have guard : (decide (d.length < o + 20) || decide (20 + options.bytes.length < 20) ||
      decide (d.length < o + (20 + options.bytes.length))) = false := by
    simp
    omega
  have told8 := dscp_told ip.dscp ip.ecn
  have stop : (if 20 + options.bytes.length ≤ 20 + options.bytes.length + body.length then
      min (o + (20 + options.bytes.length + body.length)) d.length else d.length) =
        o + (20 + options.bytes.length) + body.length := by
    rw [if_pos (Nat.le_add_right ..)]
    omega
  rw [Parse.ipv4?]
  dsimp only
  rw [size, guard, total, counted, stop, tos, fragment, unfragmented, told8.1, told8.2, ttl, proto,
    source, destination, header, told, length]
  rfl

theorem chain_length (upper upper' : BitVec 8) (extensions : List Extension) :
    (Extension.chain upper extensions).length = (Extension.chain upper' extensions).length := by
  induction extensions with
  | nil => rfl
  | cons e more ih => simp only [Extension.chain, List.length_append, length_ofWord, ih]

theorem read?_v6 {flowLabel : BitVec 20} {src dst : Ipv6Address} {extensions : List Extension}
    (version : ip.version = .v6 flowLabel src dst extensions) (final : Final upper)
    (fits : ip.length body.length < 2 ^ 16)
    (spelled : ip.bytes upper body.length ++ body <+: d.drop o) :
    Parse.ipv6? d o = some (ip.header upper body.length o,
      some (o + (ip.bytes upper body.length).length)) := by
  have length : (ip.bytes upper body.length).length =
      40 + (Extension.chain upper extensions).length := by
    simp only [bytes, version, List.length_append, length_ofWord]
  have inside := length_of_start spelled (List.append_ne_nil_of_left_ne_nil
    (List.ne_nil_of_length_pos (by omega)) body)
  have counted : (BitVec.ofNat 16 (ip.length body.length)).toNat =
      (Extension.chain upper extensions).length + body.length := by
    rw [toNat_ofNat_of_lt fits, chain_length upper 0]
    simp only [Internet.length, version]
  have told : ip.told = .v6 src dst (flowLabel.setWidth 32) (Extension.met extensions) := by
    rw [Internet.told, version]
  rw [List.length_append, length] at inside
  simp only [bytes, version, List.append_assoc] at spelled
  obtain ⟨control, spelled⟩ := word_of_start spelled
  obtain ⟨total, spelled⟩ := word_of_start spelled
  obtain ⟨first, spelled⟩ := byte_of_start spelled
  obtain ⟨ttl, spelled⟩ := byte_of_start spelled
  obtain ⟨source, spelled⟩ := word_of_start spelled
  obtain ⟨destination, spelled⟩ := word_of_start spelled
  obtain ⟨rest, spelled⟩ := spelled
  have chain := extensionChain_of_chain final.1 final.2 extensions (o + 40) {} (body ++ rest)
  rw [← List.append_assoc, spelled] at chain
  obtain ⟨trafficClass, flow, -⟩ := control_v6 (ip.dscp ++ ip.ecn) flowLabel
  have told8 := dscp_told ip.dscp ip.ecn
  have long : ¬ d.length < o + 40 := by omega
  have stop : min (o + 40 + ((Extension.chain upper extensions).length + body.length)) d.length =
      o + (40 + (Extension.chain upper extensions).length) + body.length := by omega
  rw [Parse.ipv6?, if_neg long]
  dsimp only
  rw [first, chain, control, trafficClass, flow, total, counted, stop, told8.1, told8.2, ttl,
    source, destination, met_of_mark, header, told, length, Nat.add_assoc o 40]

/-- A header is read as it was composed, and leads to the body. -/
theorem read?_of_start (ip : Internet) (final : Final upper)
    (fits : ip.length body.length < 2 ^ 16)
    (spelled : ip.bytes upper body.length ++ body <+: d.drop o) :
    ip.read? d o = some (ip.header upper body.length o,
      some (o + (ip.bytes upper body.length).length)) := by
  unfold read?
  split
  · rename_i version
    exact read?_v4 version fits spelled
  · rename_i version
    exact read?_v6 version final fits spelled

end Internet

/-! ## Transport headers -/

namespace Segment

variable {d payload : Bytes} {o : Nat}

/-- What a reader should tell of the segment at `o`, before its payload. -/
def transport (s : Segment) (payload : Bytes) (o : Nat) : Transport where
  offset := o
  header := s.told
  payload := if payload = [] then none else some (o + s.bytes.length)

theorem final (s : Segment) : Final s.protocol := by
  cases s with
  | tcp =>
    show Final IpProtocol.tcp
    exact ⟨by decide, rfl⟩
  | udp =>
    show Final IpProtocol.udp
    exact ⟨by decide, rfl⟩

theorem transportHeader?_of_start (s : Segment) {ip : IpHeader} (proto : ip.proto = s.protocol)
    (stop : ip.stop = o + s.bytes.length + payload.length)
    (spelled : s.bytes ++ payload <+: d.drop o) :
    Parse.transportHeader? d ip o = some (s.told, s.bytes.length) := by
  have available : ip.stop - o = s.bytes.length + payload.length := by omega
  cases s with
  | tcp src dst sequence acknowledgment reserved flags window checksum urgent options =>
    have length : (Segment.tcp src dst sequence acknowledgment reserved flags window checksum urgent
        options).bytes.length = 20 + options.bytes.length := by
      simp only [bytes, List.length_append, length_ofWord]
    rw [length] at available ⊢
    simp only [bytes, List.append_assoc] at spelled
    obtain ⟨source, spelled⟩ := word_of_start spelled
    obtain ⟨destination, spelled⟩ := word_of_start spelled
    obtain ⟨-, spelled⟩ := word_of_start spelled
    obtain ⟨-, spelled⟩ := word_of_start spelled
    obtain ⟨words, -⟩ := byte_of_start spelled
    have words : d.byte (o + 12) = options.words ++ reserved := words
    have size := options.words_told reserved
    rw [← words] at size
    have proto : ip.proto = IpProtocol.tcp := proto
    have guard : (decide (20 + options.bytes.length + payload.length < 20) ||
        decide (20 + options.bytes.length < 20) ||
          decide (20 + options.bytes.length + payload.length < 20 + options.bytes.length)) =
            false := by
      simp
      omega
    rw [Parse.transportHeader?]
    dsimp only
    rw [if_pos proto, size, available, guard, source, destination]
    rfl
  | udp src dst length checksum =>
    have size : (Segment.udp src dst length checksum).bytes.length = 8 := by
      simp only [bytes, List.length_append, length_ofWord]
    rw [size] at available ⊢
    simp only [bytes, List.append_assoc] at spelled
    obtain ⟨source, spelled⟩ := word_of_start spelled
    obtain ⟨destination, -⟩ := word_of_start spelled
    have proto : ip.proto = IpProtocol.udp := proto
    have other : ¬ ip.proto = IpProtocol.tcp := by
      rw [proto]
      decide
    have long : ¬ ip.stop - o < 8 := by omega
    rw [Parse.transportHeader?]
    dsimp only
    rw [if_neg other, if_pos proto, if_neg long, source, destination, told]

theorem transport?_of_start (s : Segment) {ip : IpHeader} (proto : ip.proto = s.protocol)
    (stop : ip.stop = o + s.bytes.length + payload.length)
    (spelled : s.bytes ++ payload <+: d.drop o) :
    Parse.transport? d ip o = some (s.transport payload o) := by
  rw [Parse.transport?, transportHeader?_of_start s proto stop spelled, Option.map_some, stop,
    transport]
  cases payload with
  | nil => simp
  | cons b more => simp

end Segment

end FlowSwitch.Compose
