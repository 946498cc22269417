import FlowSwitch.Match.Packet
import FlowSwitch.Proofs.Tables.Entries

/-!
# What a wide match selects of a narrow one

`Match.covers` compares the values of two matches on the bits that both look at. Of the
bits that the wide match looks at and the narrow one leaves open it knows nothing about
the packets, and these bits decide whether a packet of the narrow match is one of the
wide match too.
-/

namespace FlowSwitch

namespace Pattern

variable {w : Nat}

/-- What a packet says of a field is `value` on the bits of `mask`. Without bits to compare it
need not say anything. -/
def Reads (mask value : BitVec w) (said : Option (BitVec w)) : Prop :=
  mask = 0 ∨ ∃ x, said = some x ∧ x &&& mask = value &&& mask

/-- The pattern of what a packet says of a field. -/
def ofSaid (said : Option (BitVec w)) : Pattern w := (said.map exact).getD wildcard

/-- The bits that a pattern looks at. -/
def bits (p : Pattern w) : BitVec w := if p.valid then p.mask else 0

theorem and_eq_and_iff {m x y : BitVec w} :
    x &&& m = y &&& m ↔ ∀ i (h : i < w), m[i] = true → x[i] = y[i] := by
  constructor
  · intro agree i h looked
    have := congrArg (fun z : BitVec w => z[i]) agree
    simpa [looked] using this
  · intro agree
    refine BitVec.eq_of_getElem_eq fun i h => ?_
    cases looked : m[i]
    · simp [looked]
    · simp [agree i h looked]

theorem reads_some {mask value x : BitVec w} :
    Reads mask value (some x) ↔ x &&& mask = value &&& mask := by
  constructor
  · rintro (rfl | ⟨_, same, agree⟩)
    · simp
    · exact Option.some.inj same ▸ agree
  · exact fun agree => .inr ⟨x, rfl, agree⟩

theorem covers_ofSaid (wide : Pattern w) (said : Option (BitVec w)) :
    wide.covers (ofSaid said) = true ↔ Reads wide.bits wide.value said := by
  cases valid : wide.valid with
  | false => simp [covers, Reads, bits, valid]
  | true =>
    cases said with
    | none => simp [covers, Reads, bits, ofSaid, wildcard, valid]
    | some x => simp [covers, Reads, bits, ofSaid, exact, masked, valid]

/-- What agrees with a value on some of the bits of a mask agrees on all of them just if it
does on the rest. -/
theorem reads_iff_reads_rest {m n value : BitVec w} {said : Option (BitVec w)}
    (part : Reads (m &&& n) value said) :
    Reads m value said ↔ Reads (m &&& ~~~n) value said := by
  rcases part with none | ⟨x, rfl, agree⟩
  · have rest : m &&& ~~~n = m := by
      refine BitVec.eq_of_getElem_eq fun i h => ?_
      have := congrArg (fun z : BitVec w => z[i]) none
      simp at this ⊢
      grind
    rw [rest]
  · rw [and_eq_and_iff] at agree
    simp only [Reads, Option.some.injEq, exists_eq_left', and_eq_and_iff]
    constructor
    · rintro (none | all)
      · exact .inl (by simp [none])
      · exact .inr fun i h looked => all i h (by simp at looked; exact looked.1)
    · rintro (none | rest)
      · have within (i : Nat) (h : i < w) (looked : m[i] = true) : n[i] = true := by
          have := congrArg (fun z : BitVec w => z[i]) none
          simpa [looked] using this
        exact .inr fun i h looked => agree i h (by simp [looked, within i h looked])
      · refine .inr fun i h looked => ?_
        cases shared : n[i]
        · exact rest i h (by simp [looked, shared])
        · exact agree i h (by simp [looked, shared])

/-- Of a packet that `narrow` selects, `wide` knows the bits that both look at. -/
theorem reads_shared_of_covers {wide narrow : Pattern w} {said : Option (BitVec w)}
    (covered : wide.covers narrow) (selected : Reads narrow.bits narrow.value said) :
    Reads (wide.bits &&& narrow.bits) wide.value said := by
  simp only [covers, Bool.or_eq_true, Bool.not_eq_true', beq_iff_eq, Bool.and_eq_true] at covered
  rcases covered with (invalid | unmasked) | ⟨valid, agree⟩
  · exact .inl (by simp [bits, invalid])
  · exact .inl (by simp [bits, unmasked])
  · have mask : narrow.bits = narrow.mask := by simp [bits, valid]
    rw [mask] at selected ⊢
    rcases selected with unmasked | ⟨x, rfl, same⟩
    · exact .inl (by simp [unmasked])
    · refine .inr ⟨x, rfl, ?_⟩
      rw [and_eq_and_iff] at agree same ⊢
      intro i h looked
      rw [BitVec.getElem_and, Bool.and_eq_true] at looked
      have here : wide.mask[i] = true := by
        have := looked.1
        simp only [bits] at this
        split at this <;> simp_all
      rw [same i h looked.2, ← agree i h here]
      simp [looked.2]

/-- A packet of the narrow pattern is one of the wide pattern just if it agrees with it on the
bits that the narrow one leaves open. -/
theorem covers_ofSaid_iff {wide narrow : Pattern w} {said : Option (BitVec w)}
    (covered : wide.covers narrow) (selected : narrow.covers (ofSaid said)) :
    wide.covers (ofSaid said) = true ↔ Reads (wide.bits &&& ~~~narrow.bits) wide.value said := by
  rw [covers_ofSaid] at selected ⊢
  exact reads_iff_reads_rest (reads_shared_of_covers covered selected)

end Pattern

namespace Vlan

open Pattern

/-- Whether a pattern selects the packets with a tag, whatever its id. -/
def isAnyTag (p : Pattern 16) : Bool := p.valid && (p.value == present && p.mask == present)

/-- Whether a pattern selects the packets with a tag of one id. -/
def isTag (p : Pattern 16) : Bool :=
  p.valid && (p.value &&& present != 0 && p.mask == BitVec.allOnes 16)

/-- The bits that a pattern of VLAN ids looks at, presence aside. -/
def bits (p : Pattern 16) : BitVec 16 := p.bits &&& ~~~present

theorem isUntagged_exact (x : BitVec 16) : isUntagged (exact x) = (x == 0) := by
  simp [isUntagged, exact, masked, untagged]

theorem value_of_isUntagged {p : Pattern 16} (none : isUntagged p) : p.value = 0 := by
  simp only [isUntagged, Bool.and_eq_true, beq_iff_eq] at none
  exact none.1.2

theorem isAnyTag_eq_false_of_isUntagged {p : Pattern 16} (none : isUntagged p) :
    isAnyTag p = false := by
  simp [isAnyTag, value_of_isUntagged none, present]

theorem isTag_eq_false_of_isUntagged {p : Pattern 16} (none : isUntagged p) :
    isTag p = false := by
  simp [isTag, value_of_isUntagged none]

theorem bits_of_isAnyTag {p : Pattern 16} (any : isAnyTag p) : bits p = 0 := by
  simp only [isAnyTag, Bool.and_eq_true, beq_iff_eq] at any
  simp [bits, Pattern.bits, any.1, any.2.2]

theorem isTag_eq_false_of_isAnyTag {p : Pattern 16} (any : isAnyTag p) : isTag p = false := by
  simp only [isAnyTag, Bool.and_eq_true, beq_iff_eq] at any
  simp [isTag, any.2.2, present]

/-- `covers` by the form of the wide pattern. -/
theorem covers_eq {wide narrow : Pattern 16} (valid : wide.valid = true) :
    covers wide narrow =
      if isUntagged wide then isUntagged narrow
      else if isAnyTag wide then narrow.valid && !isUntagged narrow
      else narrow.valid &&
        (!isTag wide || narrow.mask == BitVec.allOnes 16 && narrow.value &&& present != 0) &&
        narrow.value &&& (bits wide &&& narrow.mask) == wide.value &&& (bits wide &&& narrow.mask)
      := by
  have anyTag : isAnyTag wide = (wide.value == present && wide.mask == present) := by
    simp [isAnyTag, valid]
  have tag : isTag wide = (wide.value &&& present != 0 && wide.mask == BitVec.allOnes 16) := by
    simp [isTag, valid]
  have shared : ~~~present &&& narrow.mask &&& wide.mask = bits wide &&& narrow.mask := by
    simp only [bits, Pattern.bits, valid, if_true]
    ac_rfl
  unfold covers
  rw [← anyTag, ← tag, shared]
  cases isUntagged wide with
  | true => simp [valid]
  | false =>
    cases isAnyTag wide with
    | true => simp [valid]
    | false =>
      cases exact : isTag wide with
      | false => cases narrow.valid <;> simp [valid]
      | true =>
        rw [tag, Bool.and_eq_true, beq_iff_eq] at exact
        cases narrow.valid
        · simp [valid]
        · by_cases full : narrow.mask = BitVec.allOnes 16
          · have looked : bits wide &&& narrow.mask = ~~~present := by
              simp only [bits, Pattern.bits, valid, if_true, exact.2, full, BitVec.allOnes_and,
                BitVec.and_allOnes]
            rw [looked, full]
            simp [valid]
          · have partly : (narrow.mask == BitVec.allOnes 16) = false := beq_eq_false_iff_ne.mpr full
            simp only [partly]
            simp [valid]

/-- An id is one of a pattern just if it agrees with it apart from presence, has a tag where the
pattern wants one, and has none where the pattern wants none. -/
theorem covers_exact_iff {p : Pattern 16} {x : BitVec 16} (id : x = 0 ∨ x &&& present = present) :
    covers p (exact x) = true ↔
      x &&& bits p = p.value &&& bits p ∧ (isAnyTag p ∨ isTag p → x ≠ 0) ∧
        (isUntagged p → x = 0) := by
  have tagged : x &&& present ≠ 0 ↔ x ≠ 0 := by
    rcases id with rfl | tagged
    · simp
    · have : x ≠ 0 := by
        rintro rfl
        exact absurd tagged (by decide)
      simp only [tagged, ne_eq, this, not_false_eq_true, iff_true]
      decide
  cases valid : p.valid with
  | false => simp [covers, bits, Pattern.bits, isAnyTag, isTag, isUntagged, valid]
  | true =>
    rw [covers_eq valid, isUntagged_exact]
    cases none : isUntagged p with
    | true =>
      simp only [isAnyTag_eq_false_of_isUntagged none, isTag_eq_false_of_isUntagged none,
        value_of_isUntagged none]
      constructor
      · intro zero
        simp_all
      · simp_all
    | false =>
      cases any : isAnyTag p with
      | true =>
        simp [bits_of_isAnyTag any, exact, masked]
      | false =>
        have looked : bits p &&& (exact x).mask = bits p := BitVec.and_allOnes
        rw [looked]
        cases isTag p
        · simp [exact, masked]
        · simp [exact, masked, and_comm]
          exact fun _ => tagged

/-- What a wide pattern knows of a narrow one that it covers. -/
theorem facts_of_covers {wide narrow : Pattern 16} (covered : covers wide narrow) :
    (isUntagged wide → isUntagged narrow) ∧ (isTag wide → isTag narrow) ∧
      (bits wide = 0 ∨ narrow.valid = true ∧
        narrow.value &&& (bits wide &&& narrow.mask)
          = wide.value &&& (bits wide &&& narrow.mask)) := by
  cases valid : wide.valid with
  | false => simp [isUntagged, isTag, bits, Pattern.bits, valid]
  | true =>
    rw [covers_eq valid] at covered
    cases none : isUntagged wide with
    | true =>
      simp only [none, if_true] at covered
      have narrowValid : narrow.valid = true := by
        simp only [isUntagged, Bool.and_eq_true] at covered
        exact covered.1.1
      refine ⟨fun _ => covered, ?_, .inr ⟨narrowValid, ?_⟩⟩
      · simp [isTag_eq_false_of_isUntagged none]
      · rw [value_of_isUntagged none, value_of_isUntagged covered]
    | false =>
      cases any : isAnyTag wide with
      | true =>
        have looked := bits_of_isAnyTag any
        have tag := isTag_eq_false_of_isAnyTag any
        simp [looked, tag]
      | false =>
        simp only [none, any, Bool.false_eq_true, if_false, Bool.and_eq_true, Bool.or_eq_true,
          Bool.not_eq_true', beq_iff_eq, bne_iff_ne] at covered
        obtain ⟨⟨narrowValid, exactly⟩, agree⟩ := covered
        refine ⟨by simp, fun tag => ?_, .inr ⟨narrowValid, agree⟩⟩
        obtain ⟨full, tagged⟩ := exactly.resolve_left (by simp [tag])
        simp only [isTag, Bool.and_eq_true, beq_iff_eq, bne_iff_ne]
        exact ⟨narrowValid, tagged, full⟩

/-- A packet of the narrow pattern is one of the wide pattern just if it agrees with it on the
bits that the narrow one leaves open and has a tag where the wide one wants any. -/
theorem covers_exact_iff_open {wide narrow : Pattern 16} {x : BitVec 16}
    (id : x = 0 ∨ x &&& present = present) (covered : covers wide narrow)
    (selected : covers narrow (exact x)) :
    covers wide (exact x) = true ↔
      Reads (bits wide &&& ~~~narrow.bits) wide.value (some x) ∧ (isAnyTag wide → x ≠ 0) := by
  obtain ⟨noTag, oneTag, shared⟩ := facts_of_covers covered
  rw [covers_exact_iff id] at selected ⊢
  obtain ⟨agree, tagged, none⟩ := selected
  have part : Reads (bits wide &&& narrow.bits) wide.value (some x) := by
    rcases shared with blind | ⟨valid, same⟩
    · exact .inl (by simp [blind])
    · have mask : narrow.bits = narrow.mask := by simp [Pattern.bits, valid]
      rw [mask, reads_some, ← same]
      rw [and_eq_and_iff] at agree ⊢
      intro i h looked
      refine agree i h ?_
      simp [bits, Pattern.bits, valid] at looked ⊢
      grind
  rw [← reads_some, reads_iff_reads_rest part]
  constructor
  · exact fun ⟨rest, one, _⟩ => ⟨rest, fun any => one (.inl any)⟩
  · refine fun ⟨rest, any⟩ => ⟨rest, ?_, fun untagged => none (noTag untagged)⟩
    rintro (anyTag | tag)
    · exact any anyTag
    · exact tagged (.inr (oneTag tag))

end Vlan

namespace Match

open Pattern

/-- The bits of a field that a match looks at. For VLAN ids presence is not one of them. -/
def looksAt (m : Match) : (f : Field) → BitVec f.width
  | .vlanVid => Vlan.bits (m.get .vlanVid)
  | f => (m.get f).bits

/-- The bits of a field that `wide` looks at and `narrow` leaves open. -/
def openBits (wide narrow : Match) (f : Field) : BitVec f.width :=
  wide.looksAt f &&& ~~~(narrow.get f).bits

/-- Whether a packet agrees with `wide` on what `narrow` leaves open. -/
def Settles (wide narrow : Match) (v : PacketView) : Prop :=
  (∀ f, Reads (wide.openBits narrow f) (wide.get f).value (v.field? f)) ∧
    (Vlan.isAnyTag (wide.get .vlanVid) → v.headers.vlan.isSome)

/-- Whether `wide` looks at nothing that `narrow` leaves open. -/
def LooksWithin (wide narrow : Match) : Prop :=
  (∀ f, wide.openBits narrow f = 0) ∧
    (Vlan.isAnyTag (wide.get .vlanVid) →
      Vlan.isAnyTag (narrow.get .vlanVid) ∨ Vlan.isTag (narrow.get .vlanVid))

theorem ofPacket_get (v : PacketView) (f : Field) :
    (ofPacket v).get f = ofSaid (v.field? f) := rfl

/-- The VLAN id of a packet is zero just if it has no tag. -/
theorem vlanId (v : PacketView) :
    ∃ x : BitVec 16, v.field? .vlanVid = some x ∧ (x = 0 ∨ x &&& Vlan.present = Vlan.present) ∧
      (x ≠ 0 ↔ v.headers.vlan.isSome) := by
  unfold PacketView.field?
  cases v.headers.vlan with
  | none => exact ⟨0, rfl, .inl rfl, by simp⟩
  | some tag =>
    have tagged : (tag.vid ||| Vlan.present) &&& Vlan.present = Vlan.present := by
      refine BitVec.eq_of_getElem_eq fun i h => ?_
      simp only [BitVec.getElem_and, BitVec.getElem_or]
      cases Vlan.present[i] <;> simp
    refine ⟨_, rfl, .inr tagged, ?_⟩
    simp only [ne_eq, Option.isSome_some, iff_true]
    intro zero
    rw [zero] at tagged
    exact absurd tagged (by decide)

/-- A packet of a covered match is one of the wide match just if it settles what the covered one
leaves open. -/
theorem selects_iff_settles {wide narrow : Match} {v : PacketView}
    (covered : wide.covers narrow) (selected : narrow.selects v) :
    wide.selects v = true ↔ wide.Settles narrow v := by
  rw [covers_iff] at covered
  rw [selects, covers_iff] at selected ⊢
  obtain ⟨x, said, id, tagged⟩ := vlanId v
  have vlan : Vlan.covers (wide.get .vlanVid) ((ofPacket v).get .vlanVid) = true ↔
      Reads (wide.openBits narrow .vlanVid) (wide.get .vlanVid).value (v.field? .vlanVid) ∧
        (Vlan.isAnyTag (wide.get .vlanVid) → v.headers.vlan.isSome) := by
    have chosen := selected.2
    rw [ofPacket_get, said] at chosen ⊢
    rw [← tagged]
    exact Vlan.covers_exact_iff_open id covered.2 chosen
  have other (f : Field) (h : f ≠ .vlanVid) :
      (wide.get f).covers ((ofPacket v).get f) = true ↔
        Reads (wide.openBits narrow f) (wide.get f).value (v.field? f) := by
    have looked : wide.looksAt f = (wide.get f).bits := by
      cases f <;> first | rfl | exact absurd rfl h
    rw [openBits, looked]
    exact covers_ofSaid_iff (covered.1 f h) (selected.1 f h)
  rw [vlan]
  constructor
  · rintro ⟨others, vlan, tag⟩
    refine ⟨fun f => ?_, tag⟩
    by_cases h : f = .vlanVid
    · exact h ▸ vlan
    · exact (other f h).mp (others f h)
  · rintro ⟨all, tag⟩
    exact ⟨fun f h => (other f h).mpr (all f), all _, tag⟩

/-- A tag is settled where the covered match selects packets with a tag only. -/
theorem tagged_of_selects {narrow : Match} {v : PacketView} (selected : narrow.selects v)
    (tag : Vlan.isAnyTag (narrow.get .vlanVid) ∨ Vlan.isTag (narrow.get .vlanVid)) :
    v.headers.vlan.isSome := by
  obtain ⟨x, said, id, tagged⟩ := vlanId v
  have chosen := (covers_iff.mp selected).2
  rw [ofPacket_get, said] at chosen
  exact tagged.mp (((Vlan.covers_exact_iff id).mp chosen).2.1 tag)

theorem settles_of_looksWithin {wide narrow : Match} {v : PacketView}
    (within : wide.LooksWithin narrow) (selected : narrow.selects v) : wide.Settles narrow v :=
  ⟨fun f => .inl (within.1 f), fun any => tagged_of_selects selected (within.2 any)⟩

end Match

namespace PacketView

/-- The fields that every packet has and that may have any value. -/
def plainFields : List Field := [.inPort, .inPhyPort, .metadata, .tunnelId, .ethDst, .ethSrc]

/-- The packet with another value of a plain field. -/
def write (v : PacketView) : (f : Field) → BitVec f.width → PacketView
  | .inPort, x => { v with context.inPort := ⟨x⟩ }
  | .inPhyPort, x => { v with context.inPhyPort := ⟨x⟩ }
  | .metadata, x => { v with context.metadata := ⟨x⟩ }
  | .tunnelId, x => { v with context.tunnelId := ⟨x⟩ }
  | .ethDst, x => { v with headers.ethDst := x }
  | .ethSrc, x => { v with headers.ethSrc := x }
  | _, _ => v

theorem field?_plain (v : PacketView) {f : Field} (plain : f ∈ plainFields) :
    ∃ x, v.field? f = some x := by
  simp only [plainFields, List.mem_cons, List.not_mem_nil, or_false] at plain
  rcases plain with rfl | rfl | rfl | rfl | rfl | rfl <;> exact ⟨_, rfl⟩

theorem field?_write (v : PacketView) {f : Field} (plain : f ∈ plainFields)
    (x : BitVec f.width) : (v.write f x).field? f = some x := by
  simp only [plainFields, List.mem_cons, List.not_mem_nil, or_false] at plain
  rcases plain with rfl | rfl | rfl | rfl | rfl | rfl <;> rfl

theorem field?_write_of_ne (v : PacketView) {f g : Field} (plain : f ∈ plainFields)
    (x : BitVec f.width) (other : g ≠ f) : (v.write f x).field? g = v.field? g := by
  simp only [plainFields, List.mem_cons, List.not_mem_nil, or_false] at plain
  rcases plain with rfl | rfl | rfl | rfl | rfl | rfl <;>
    cases g <;> first | rfl | exact absurd rfl other

end PacketView

namespace Match

open Pattern

/-- Where the wide match looks at a bit of a plain field that the covered match leaves open,
some packet of the covered match is not one of the wide match. -/
theorem exists_escape {wide narrow : Match} (covered : wide.covers narrow) {f : Field}
    (plain : f ∈ PacketView.plainFields) (open_ : wide.openBits narrow f ≠ 0) {v : PacketView}
    (selected : narrow.selects v) :
    ∃ v', narrow.selects v' = true ∧ wide.selects v' = false := by
  obtain ⟨x, said⟩ := v.field?_plain plain
  -- as `v`, but against the wide match on every open bit
  let y := (x &&& ~~~wide.openBits narrow f) ||| (~~~(wide.get f).value &&& wide.openBits narrow f)
  have notVlan : f ≠ .vlanVid := by
    rintro rfl
    simp [PacketView.plainFields] at plain
  have kept : narrow.selects (v.write f y) := by
    rw [selects, covers_iff] at selected ⊢
    refine ⟨fun g h => ?_, ?_⟩
    · by_cases same : g = f
      · subst same
        have before := selected.1 g h
        rw [ofPacket_get, covers_ofSaid, said, reads_some] at before
        rw [ofPacket_get, covers_ofSaid, v.field?_write plain, reads_some, ← before,
          and_eq_and_iff]
        intro i inside looked
        simp [y, openBits, looked]
      · rw [ofPacket_get, v.field?_write_of_ne plain _ same]
        exact selected.1 g h
    · rw [ofPacket_get, v.field?_write_of_ne plain _ notVlan.symm]
      exact selected.2
  refine ⟨v.write f y, kept, ?_⟩
  rw [Bool.eq_false_iff]
  intro taken
  have settled := ((selects_iff_settles covered kept).mp taken).1 f
  rw [v.field?_write plain, reads_some, and_eq_and_iff] at settled
  refine open_ (BitVec.eq_of_getElem_eq fun i inside => ?_)
  cases looked : (wide.openBits narrow f)[i] with
  | false => simp
  | true =>
    have same := settled i inside looked
    simp [y, looked] at same

/-- Of the packets of a match that it covers, a wide match selects just those that settle what
the covered match leaves open: all of them if it looks at nothing left open, and not all if it
looks at such a bit of a field that may have any value. An entry that is changed or removed by
a filter without a priority is one that the match of the filter covers in this sense. -/
theorem coverage_up_to_open_bits (wide narrow : Match) :
    (wide.covers narrow = true → ∀ v, narrow.selects v = true →
      (wide.selects v = true ↔ wide.Settles narrow v)) ∧
    (wide.covers narrow = true → wide.LooksWithin narrow →
      ∀ v, narrow.selects v = true → wide.selects v = true) ∧
    (wide.covers narrow = true →
      ∀ f ∈ PacketView.plainFields, wide.openBits narrow f ≠ 0 →
        ∀ v, narrow.selects v = true → ∃ v', narrow.selects v' = true ∧ wide.selects v' = false) ∧
    (∀ (t : Tables) (f : FlowFilter), f.selector = wide → ∀ e ∈ (t.select f none).1,
      e.selector = narrow → wide.covers narrow = true) := by
  refine ⟨fun covered v => selects_iff_settles covered, ?within, ?beyond, ?filter⟩
  case within =>
    intro covered within v selected
    exact (selects_iff_settles covered selected).mpr (settles_of_looksWithin within selected)
  case beyond =>
    intro covered f plain looked v selected
    exact exists_escape covered plain looked selected
  case filter =>
    rintro t f rfl e touched rfl
    exact (Tables.mem_select touched).2.1

/-- The IPv4 packets from a network. -/
def fromNetwork (address mask : Ipv4Address) : Match :=
  (any.set .ethType (.exact EtherType.ipv4)).set .ipv4Src (.masked address mask)

/-- An IPv4 packet without a payload. -/
def packetFrom (source : Ipv4Address) : PacketView where
  headers := {
    length := 34, ethDst := 0, ethSrc := 0, ethType := EtherType.ipv4
    framing := { ethernet2 := true }, vlan := none, payload := some 14, mpls := none, pbb := none
    network := some (.ip {
      offset := 14, stop := 34, dscp := 0, ecn := 0, ttl := 64, proto := 0
      version := .v4 source 0 })
    transport := none }

/-- A network is covered by a smaller one at the same address. -/
theorem coverage_up_to_open_bits_network :
    (fromNetwork 0x0a000000 0xffffff00).covers (fromNetwork 0x0a000000 0xff000000) = true ∧
      (fromNetwork 0x0a000000 0xff000000).selects (packetFrom 0x0a000001) = true ∧
      (fromNetwork 0x0a000000 0xffffff00).Settles (fromNetwork 0x0a000000 0xff000000)
        (packetFrom 0x0a000001) :=
  have covered := by decide +kernel
  have selected := by decide +kernel
  ⟨covered, selected,
    ((coverage_up_to_open_bits _ _).1 covered _ selected).mp (by decide +kernel)⟩

/-- The packets of a covered match need not be packets of the wide one. -/
theorem not_selects_of_covers :
    ¬ ∀ wide narrow : Match, wide.covers narrow = true →
      ∀ v, narrow.selects v = true → wide.selects v = true := by
  intro sound
  have covered : (fromNetwork 0x0a000000 0xffffff00).covers
      (fromNetwork 0x0a000000 0xff000000) = true := by decide +kernel
  have selected : (fromNetwork 0x0a000000 0xff000000).selects (packetFrom 0x0a010101) = true := by
    decide +kernel
  have missed : (fromNetwork 0x0a000000 0xffffff00).selects (packetFrom 0x0a010101) = false := by
    decide +kernel
  exact Bool.false_ne_true (missed ▸ sound _ _ covered _ selected)

end Match

end FlowSwitch
