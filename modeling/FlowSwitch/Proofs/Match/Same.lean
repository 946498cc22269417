import FlowSwitch.Match.Basic

/-!
# Matches that say the same

Two matches are the same when they name the same fields with the same values and masks. A match
has a normal form, in which the wildcards hold nothing of their own, and matches are the same just
if their normal forms are equal. Every question that is asked of a match has the same answer for
its normal form.
-/

namespace FlowSwitch

namespace Pattern

variable {w : Nat} {a b : Pattern w}

theorem same_iff :
    a.same b = true ↔
      a.valid = b.valid ∧ (a.valid = true → a.value = b.value ∧ a.mask = b.mask) := by
  unfold same
  cases a.valid <;> cases b.valid <;> simp

/-- The pattern without the value and the mask that a wildcard holds. -/
def normal (p : Pattern w) : Pattern w := if p.valid then p else wildcard

@[simp]
theorem normal_of_valid {p : Pattern w} (valid : p.valid = true) : p.normal = p := if_pos valid

@[simp]
theorem normal_of_invalid {p : Pattern w} (invalid : p.valid = false) : p.normal = wildcard :=
  if_neg (by simp [invalid])

@[simp]
theorem valid_normal (p : Pattern w) : p.normal.valid = p.valid := by
  cases valid : p.valid <;> simp [valid, wildcard]

theorem same_iff_normal_eq : a.same b = true ↔ a.normal = b.normal := by
  rw [same_iff]
  constructor
  · rintro ⟨valid, equal⟩
    cases named : a.valid with
    | false => rw [normal_of_invalid named, normal_of_invalid (valid ▸ named)]
    | true =>
      obtain ⟨value, mask⟩ := equal named
      rw [normal_of_valid named, normal_of_valid (valid ▸ named)]
      cases a
      cases b
      simp_all
  · intro equal
    have valid : a.valid = b.valid := by rw [← a.valid_normal, equal, b.valid_normal]
    refine ⟨valid, fun named => ?_⟩
    rw [normal_of_valid named, normal_of_valid (valid ▸ named)] at equal
    exact ⟨congrArg value equal, congrArg mask equal⟩

theorem covers_normal (wide narrow : Pattern w) :
    wide.normal.covers narrow.normal = wide.covers narrow := by
  cases named : wide.valid with
  | false => simp [covers, named, wildcard]
  | true => cases named' : narrow.valid <;> simp [covers, named, named', wildcard]

theorem overlaps_normal (a b : Pattern w) : a.normal.overlaps b.normal = a.overlaps b := by
  cases named : a.valid with
  | false => simp [overlaps, named, wildcard]
  | true => cases named' : b.valid <;> simp [overlaps, named, named', wildcard]

theorem isOneOf_normal (p : Pattern w) (values : List (BitVec w)) :
    p.normal.isOneOf values = p.isOneOf values := by
  cases named : p.valid <;> simp [isOneOf, named, wildcard]

theorem covers_self (p : Pattern w) : p.covers p = true := by
  cases named : p.valid <;> simp [covers, named, BitVec.and_assoc]

theorem covers_of_invalid {wide : Pattern w} (invalid : wide.valid = false) (narrow : Pattern w) :
    wide.covers narrow = true := by
  simp [covers, invalid]

end Pattern

namespace Vlan

theorem covers_normal (wide narrow : Pattern 16) :
    covers wide.normal narrow.normal = covers wide narrow := by
  cases named : wide.valid with
  | false => simp [covers, named, Pattern.wildcard]
  | true =>
    cases named' : narrow.valid with
    | false => simp [covers, isUntagged, named, named', Pattern.wildcard]
    | true => rw [Pattern.normal_of_valid named, Pattern.normal_of_valid named']

/-- A pattern covers itself, whichever form it has. -/
theorem covers_self (p : Pattern 16) : covers p p = true := by
  cases named : p.valid with
  | false => simp [covers, named]
  | true =>
    cases none : isUntagged p with
    | true => simp [covers, named, none]
    | false =>
      simp only [covers, named, none, Bool.not_true, Bool.not_false, Bool.false_eq_true, if_false,
        Bool.and_true]
      split
      · rfl
      · split
        · next tag =>
          obtain ⟨tagged, full⟩ := Bool.and_eq_true_iff.mp tag
          rw [full, tagged, beq_self_eq_true]
          rfl
        · exact beq_self_eq_true _

theorem covers_of_invalid {wide : Pattern 16} (invalid : wide.valid = false)
    (narrow : Pattern 16) : covers wide narrow = true := by
  simp [covers, invalid]

end Vlan

namespace Match

variable {a b : Match}

theorem same_iff : a.same b = true ↔ ∀ f, (a.get f).same (b.get f) = true := by
  simp only [same, List.all_eq_true]
  exact ⟨fun each f => each f (Field.mem_all f), fun each f _ => each f⟩

theorem isAny_iff {m : Match} : m.isAny = true ↔ ∀ f, (m.get f).valid = false := by
  simp only [isAny, List.all_eq_true, Bool.not_eq_true']
  exact ⟨fun each f => each f (Field.mem_all f), fun each f _ => each f⟩

theorem covers_iff {wide narrow : Match} :
    wide.covers narrow = true ↔
      (∀ f, f ≠ .vlanVid → (wide.get f).covers (narrow.get f) = true) ∧
        Vlan.covers (wide.get .vlanVid) (narrow.get .vlanVid) = true := by
  simp only [covers, Bool.and_eq_true, List.all_eq_true, Bool.or_eq_true, beq_iff_eq]
  constructor
  · rintro ⟨others, vlan⟩
    exact ⟨fun f other => (others f (Field.mem_all f)).resolve_left other, vlan⟩
  · rintro ⟨others, vlan⟩
    refine ⟨fun f _ => ?_, vlan⟩
    by_cases h : f = .vlanVid
    · exact .inl h
    · exact .inr (others f h)

/-- The match without what its wildcards hold. -/
def normal (m : Match) : Match := ⟨fun f => (m.get f).normal⟩

@[simp]
theorem get_normal (m : Match) (f : Field) : m.normal.get f = (m.get f).normal := rfl

theorem same_iff_normal_eq : a.same b = true ↔ a.normal = b.normal := by
  rw [same_iff, Match.ext_iff, funext_iff]
  exact forall_congr' fun f => Pattern.same_iff_normal_eq

theorem same_equivalence : Equivalence fun a b : Match => a.same b = true where
  refl _ := same_iff_normal_eq.mpr rfl
  symm same := same_iff_normal_eq.mpr (same_iff_normal_eq.mp same).symm
  trans one two := same_iff_normal_eq.mpr
    ((same_iff_normal_eq.mp one).trans (same_iff_normal_eq.mp two))

theorem covers_normal (wide narrow : Match) :
    wide.normal.covers narrow.normal = wide.covers narrow := by
  have vlan : Vlan.covers (wide.normal.get .vlanVid) (narrow.normal.get .vlanVid)
      = Vlan.covers (wide.get .vlanVid) (narrow.get .vlanVid) := Vlan.covers_normal _ _
  rw [covers, covers, vlan]
  simp only [get_normal, Pattern.covers_normal]

theorem overlaps_normal (a b : Match) : a.normal.overlaps b.normal = a.overlaps b := by
  simp only [overlaps, get_normal, Pattern.overlaps_normal]

theorem isAny_normal (m : Match) : m.normal.isAny = m.isAny := by
  simp only [isAny, get_normal, Pattern.valid_normal]

theorem prerequisite_normal (m : Match) (f : Field) :
    m.normal.prerequisite f = m.prerequisite f := by
  cases f with
  | vlanPcp =>
    rw [prerequisite, prerequisite, get_normal]
    cases named : (m.get .vlanVid).valid <;> simp [named, Pattern.wildcard]
  | _ => simp only [prerequisite, get_normal, Pattern.isOneOf_normal, Pattern.valid_normal]

theorem isValid_normal (m : Match) : m.normal.isValid = m.isValid := by
  simp only [isValid, get_normal, Pattern.valid_normal, prerequisite_normal]

theorem validate_normal (m : Match) : m.normal.validate = m.validate := by
  rw [validate, validate, isValid_normal]

theorem covers_self (m : Match) : m.covers m = true :=
  covers_iff.mpr ⟨fun f _ => (m.get f).covers_self, Vlan.covers_self _⟩

theorem covers_of_invalid {wide : Match} (invalid : ∀ f, (wide.get f).valid = false)
    (narrow : Match) : wide.covers narrow = true :=
  covers_iff.mpr ⟨fun f _ => Pattern.covers_of_invalid (invalid f) _,
    Vlan.covers_of_invalid (invalid .vlanVid) _⟩

/-- To be the same is an equivalence of matches, and matches that are the same cover the same and
are covered by the same, overlap with the same, and are valid or wildcards alike. Every match
covers itself, and one that names no field covers them all. -/
theorem same_congruence :
    Equivalence (fun a b : Match => a.same b = true) ∧
    (∀ a b : Match, a.same b = true → ∀ m : Match,
      a.covers m = b.covers m ∧ m.covers a = m.covers b ∧ a.overlaps m = b.overlaps m ∧
        a.validate = b.validate ∧ a.isAny = b.isAny) ∧
    (∀ m : Match, m.covers m = true) ∧
    ∀ m w : Match, (∀ f, (w.get f).valid = false) → w.covers m = true := by
  refine ⟨same_equivalence, fun a b same m => ?_, covers_self,
    fun m w invalid => covers_of_invalid invalid m⟩
  have normal : a.normal = b.normal := same_iff_normal_eq.mp same
  refine ⟨?wide, ?narrow, ?overlap, ?valid, ?any⟩
  case wide => rw [← covers_normal a, normal, covers_normal]
  case narrow => rw [← covers_normal m a, normal, covers_normal]
  case overlap => rw [← overlaps_normal a, normal, overlaps_normal]
  case valid => rw [← validate_normal a, normal, validate_normal]
  case any => rw [← isAny_normal a, normal, isAny_normal]

/-- The IPv4 packets, by a match in which a protocol was named before. -/
def afterProtocol : Match :=
  (any.set .ethType (.exact EtherType.ipv4)).set .ipProto ⟨IpProtocol.tcp, 0x0f, false⟩

/-- A match that names nothing, in which an ethertype was named before. -/
def afterType : Match := any.set .ethType ⟨EtherType.arp, 0x00ff, false⟩

theorem same_congruence_afterProtocol :
    afterProtocol.same (afterProtocol.clear .ipProto) = true ∧
      afterType.isAny = true ∧
      afterProtocol.covers afterType = (afterProtocol.clear .ipProto).covers afterType ∧
      afterType.covers afterProtocol = true ∧
      afterProtocol.validate = (afterProtocol.clear .ipProto).validate := by
  obtain ⟨-, congruent, -, wide⟩ := same_congruence
  have same : afterProtocol.same (afterProtocol.clear .ipProto) = true := by decide
  have unnamed : afterType.isAny = true := by decide
  obtain ⟨covers, -, -, valid, -⟩ := congruent _ _ same afterType
  exact ⟨same, unnamed, covers, wide afterProtocol afterType (isAny_iff.mp unnamed), valid⟩

end Match

end FlowSwitch
