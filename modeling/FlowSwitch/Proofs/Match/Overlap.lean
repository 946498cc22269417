import FlowSwitch.Proofs.Match.Coverage

/-!
# Matches that select one packet

Two matches that select one packet agree on every bit that both look at, but for one:
`Match.covers` leaves the presence bit of a VLAN id out of most comparisons, and
`Match.overlaps` compares it like any other.
-/

namespace FlowSwitch

namespace Pattern

variable {w : Nat} {a b : Pattern w}

theorem overlaps_iff :
    a.overlaps b = true ↔ a.value &&& (a.bits &&& b.bits) = b.value &&& (a.bits &&& b.bits) := by
  unfold overlaps bits
  cases a.valid <;> cases b.valid <;> simp

theorem overlaps_symm (overlap : a.overlaps b = true) : b.overlaps a = true := by
  rw [overlaps_iff] at overlap ⊢
  rw [BitVec.and_comm b.bits, overlap]

theorem overlaps_of_same (same : a.same b = true) : a.overlaps b = true := by
  obtain ⟨valid, equal⟩ := same_iff.mp same
  rw [overlaps_iff]
  cases named : a.valid with
  | true => rw [(equal named).1]
  | false => simp [bits, named]

/-- What two masks and values let a packet say, they say alike where both look. -/
theorem agree_of_reads {m n u v : BitVec w} {said : Option (BitVec w)} (left : Reads m u said)
    (right : Reads n v said) : u &&& (m &&& n) = v &&& (m &&& n) := by
  rcases left with rfl | ⟨x, rfl, left⟩
  · simp
  · rw [reads_some] at right
    rw [and_eq_and_iff] at left right ⊢
    intro i h looked
    rw [BitVec.getElem_and, Bool.and_eq_true] at looked
    rw [← left i h looked.1, right i h looked.2]

end Pattern

namespace Vlan

/-- Whether two patterns ask for the same presence, if both look at it. -/
def SamePresence (a b : Pattern 16) : Prop :=
  a.value &&& (a.bits &&& b.bits &&& present) = b.value &&& (a.bits &&& b.bits &&& present)

/-- Two patterns of one id overlap just if they ask for the same presence. -/
theorem overlaps_iff_samePresence {a b : Pattern 16} {x : BitVec 16}
    (id : x = 0 ∨ x &&& present = present) (left : covers a (.exact x))
    (right : covers b (.exact x)) : a.overlaps b = true ↔ SamePresence a b := by
  have agree := Pattern.agree_of_reads (Pattern.reads_some.mpr ((covers_exact_iff id).mp left).1)
    (Pattern.reads_some.mpr ((covers_exact_iff id).mp right).1)
  rw [Pattern.overlaps_iff, SamePresence]
  simp only [Pattern.and_eq_and_iff, bits, BitVec.getElem_and, BitVec.getElem_not,
    Bool.and_eq_true, Bool.not_eq_true'] at agree ⊢
  constructor
  · exact fun whole i h looked => whole i h looked.1
  · intro presence i h looked
    cases here : present[i] with
    | true => exact presence i h ⟨looked, here⟩
    | false => exact agree i h ⟨⟨looked.1, here⟩, looked.2, here⟩

end Vlan

namespace Match

variable {a b : Match}

theorem overlaps_iff : a.overlaps b = true ↔ ∀ f, (a.get f).overlaps (b.get f) = true := by
  simp only [overlaps, List.all_eq_true]
  exact ⟨fun each f => each f (Field.mem_all f), fun each f _ => each f⟩

theorem overlaps_symm (overlap : a.overlaps b = true) : b.overlaps a = true :=
  overlaps_iff.mpr fun f => Pattern.overlaps_symm (overlaps_iff.mp overlap f)

theorem overlaps_of_same (same : a.same b = true) : a.overlaps b = true :=
  overlaps_iff.mpr fun f => Pattern.overlaps_of_same (same_iff.mp same f)

/-- Whether two matches ask for the same presence of a tag, if both look at it. -/
def SamePresence (a b : Match) : Prop := Vlan.SamePresence (a.get .vlanVid) (b.get .vlanVid)

theorem overlaps_iff_samePresence {v : PacketView} (left : a.selects v) (right : b.selects v) :
    a.overlaps b = true ↔ a.SamePresence b := by
  rw [selects, covers_iff] at left right
  obtain ⟨x, said, id, -⟩ := vlanId v
  have vlan : (a.get .vlanVid).overlaps (b.get .vlanVid) = true ↔ a.SamePresence b := by
    have chosen := left.2
    have chosen' := right.2
    rw [ofPacket_get, said] at chosen chosen'
    exact Vlan.overlaps_iff_samePresence id chosen chosen'
  rw [overlaps_iff, ← vlan]
  refine ⟨fun all => all _, fun vlan f => ?_⟩
  by_cases h : f = .vlanVid
  · exact h ▸ vlan
  · have read := (Pattern.covers_ofSaid _ _).mp (left.1 f h)
    have read' := (Pattern.covers_ofSaid _ _).mp (right.1 f h)
    exact Pattern.overlaps_iff.mpr (Pattern.agree_of_reads read read')

end Match

end FlowSwitch
