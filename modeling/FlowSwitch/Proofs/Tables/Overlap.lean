import FlowSwitch.Proofs.Match.Overlap
import FlowSwitch.Proofs.Tables.Sound

/-!
# Entries that are not to overlap

Entries that were added with a check for overlaps do not overlap one another. Where they
ask for the presence of a tag alike, no packet is selected by two of them at one priority.
-/

namespace FlowSwitch

namespace FlowEntry

/-- Whether two entries do not overlap, if both were added with a check for that. -/
def Apart (x y : FlowEntry) : Prop :=
  x.flags.checkOverlap = true → y.flags.checkOverlap = true → x.overlaps y = false

theorem overlaps_symm {x y : FlowEntry} (overlap : x.overlaps y = true) : y.overlaps x = true := by
  simp only [overlaps, Bool.and_eq_true, beq_iff_eq] at overlap ⊢
  exact ⟨overlap.1.symm, Match.overlaps_symm overlap.2⟩

theorem Apart.symm {x y : FlowEntry} (apart : x.Apart y) : y.Apart x := by
  intro asked asked'
  refine Bool.eq_false_iff.mpr fun overlap => ?_
  exact Bool.false_ne_true ((apart asked' asked).symm.trans (overlaps_symm overlap))

theorem overlaps_of_isIdentical {x y : FlowEntry} (identical : x.isIdentical y = true) :
    x.overlaps y = true := by
  simp only [isIdentical, overlaps, Bool.and_eq_true] at identical ⊢
  exact ⟨identical.1, Match.overlaps_of_same identical.2⟩

theorem pairwise_apart_outline {l : List FlowEntry} :
    (l.map (·.outline)).Pairwise Apart ↔ l.Pairwise Apart := List.pairwise_map

end FlowEntry

namespace Tables

/-- An entry that is put in for another one was not added with the check, as the two overlap. -/
theorem kept_apart : Kept (fun _ => True) fun _ f => f.entries.Pairwise FlowEntry.Apart where
  outline {_ f f'} same apart := by
    have entries : f'.entries.map (·.outline) = f.entries.map (·.outline) :=
      congrArg (·.entries) same
    rw [← FlowEntry.pairwise_apart_outline] at apart ⊢
    rwa [entries]
  enroll {_ f e} _ _ _ clear _ apart := by
    have all : (e :: f.entries).Pairwise FlowEntry.Apart :=
      List.pairwise_cons.mpr ⟨fun x inside asked _ => clear asked x inside, apart⟩
    exact all.perm (f.insert_perm e).symm fun apart => apart.symm
  replace {_ f e old} _ identical clear apart := by
    have unasked : e.flags.checkOverlap = false := by
      refine Bool.eq_false_iff.mpr fun asked => ?_
      have free := clear asked old (List.mem_of_find?_eq_some identical)
      rw [FlowEntry.overlaps_of_isIdentical (List.find?_some identical)] at free
      cases free
    have all : (e :: f.entries.eraseP e.isIdentical).Pairwise FlowEntry.Apart := by
      refine List.pairwise_cons.mpr ⟨fun x _ asked => ?_, apart.sublist List.eraseP_sublist⟩
      exact absurd asked (by simp [unasked])
    exact all.perm (f.replace_perm e).symm fun apart => apart.symm
  release _ apart := apart.sublist List.eraseP_sublist

theorem run_apart (capacity : Nat) (cs : List Command) :
    ((empty capacity).run cs).Each fun _ f => f.entries.Pairwise FlowEntry.Apart := by
  obtain ⟨l, moves, -⟩ := (empty capacity).run_moves cs
  refine moves.each kept_apart (fun _ _ _ _ _ => trivial) fun id f found => ?_
  rw [flowTable?_empty found]
  exact .nil

/-- Two matches that select one packet overlap just if they ask for the presence of a tag alike.
So after any commands no packet is selected by two entries of one table and one priority that
were added with a check for overlaps and ask for that presence alike. -/
theorem run_unambiguous (capacity : Nat) (cs : List Command) :
    (∀ (a b : Match) (v : PacketView), a.selects v = true → b.selects v = true →
      (a.overlaps b = true ↔ a.SamePresence b)) ∧
    ∀ (id : TableId) (f : FlowTable), ((empty capacity).run cs).flowTable? id = some f →
      f.entries.Pairwise fun x y => x.flags.checkOverlap = true → y.flags.checkOverlap = true →
        x.priority = y.priority → x.selector.SamePresence y.selector →
          ∀ v, x.selector.selects v = true → y.selector.selects v = false := by
  refine ⟨fun a b v left right => Match.overlaps_iff_samePresence left right, ?_⟩
  intro id f found
  have apart := run_apart capacity cs id f found
  refine apart.imp fun {x y} apart asked asked' level presence v left => ?_
  refine Bool.eq_false_iff.mpr fun right => ?_
  have overlap := (Match.overlaps_iff_samePresence left right).mpr presence
  have free := apart asked asked'
  rw [FlowEntry.overlaps, overlap, beq_iff_eq.mpr level] at free
  cases free

/-- An entry for packets of one VLAN pattern, which is not to overlap another one. -/
def vlanEntry (number : UInt64) (p : Pattern 16) : FlowEntry :=
  { idleEntry 7 with
    ref := ⟨0, number⟩, selector := Match.any.set .vlanVid p, flags := { checkOverlap := true } }

/-- Adding entries for VLAN patterns. -/
def vlanEntries (patterns : List (Pattern 16)) : List Command :=
  patterns.map fun p => .add (vlanEntry 0 p) fun _ => false

/-- A packet with the tag of a VLAN. -/
def tagged (id : BitVec 16) : PacketView where
  headers := {
    length := 18, ethDst := 0, ethSrc := 0, ethType := EtherType.ipv4
    framing := { ethernet2 := true }, vlan := some ⟨14, 0x8100, id⟩, payload := some 18
    mpls := none, pbb := none, network := none, transport := none }

/-- A pattern for packets with any tag. -/
def anyTag : Pattern 16 := .masked Vlan.present Vlan.present

theorem run_unambiguous_twoIds :
    let x := vlanEntry 1 (.exact 0x1005)
    let y := vlanEntry 2 (.exact 0x1006)
    (Match.any.set .vlanVid anyTag).selects (tagged 5) = true ∧
      x.selector.selects (tagged 5) = true ∧
      ((Match.any.set .vlanVid anyTag).overlaps x.selector = true ↔
        (Match.any.set .vlanVid anyTag).SamePresence x.selector) ∧
      ∃ f, ((empty 4).run (vlanEntries [.exact 0x1005, .exact 0x1006])).flowTable? 0 = some f ∧
        f.entries = [x, y] ∧
        x.flags.checkOverlap = true ∧ y.flags.checkOverlap = true ∧ x.priority = y.priority ∧
        x.selector.SamePresence y.selector ∧
        ∀ v, x.selector.selects v = true → y.selector.selects v = false := by
  intro x y
  have any : (Match.any.set .vlanVid anyTag).selects (tagged 5) = true := by decide +kernel
  have one : x.selector.selects (tagged 5) = true := by decide +kernel
  have held : (((empty 4).run (vlanEntries [.exact 0x1005, .exact 0x1006])).flowTable? 0).map
      (·.entries) = some [x, y] := by decide +kernel
  obtain ⟨f, found, entries⟩ := Option.map_eq_some_iff.mp held
  have presence : x.selector.SamePresence y.selector := by
    unfold Match.SamePresence Vlan.SamePresence
    decide +kernel
  have apart := (run_unambiguous 4 _).2 0 f found
  rw [entries] at apart
  have first := (List.pairwise_cons.mp apart).1 y List.mem_cons_self
  exact ⟨any, one, (run_unambiguous 4 []).1 _ _ _ any one, f, found, entries, rfl, rfl, rfl,
    presence, first rfl rfl rfl presence⟩

/-- A VLAN id, with a mask that has the presence bit. -/
def maskedId : Pattern 16 := .masked 5 0x1fff

/-- A tag's id with and without the presence bit does not overlap itself, though presence is left
out when masked ids are compared, and entries of these two can both select a packet. -/
theorem not_unambiguous :
    (¬ ∀ (a b : Match) (v : PacketView), a.selects v = true → b.selects v = true →
      a.overlaps b = true) ∧
    ¬ ∀ (capacity : Nat) (cs : List Command) (id : TableId) (f : FlowTable),
      ((empty capacity).run cs).flowTable? id = some f →
        (∀ e ∈ f.entries, e.flags.checkOverlap = true) →
          f.entries.Pairwise fun x y => x.priority = y.priority →
            ∀ v, x.selector.selects v = true → y.selector.selects v = false := by
  have left : (Match.any.set .vlanVid (.exact 0x1005)).selects (tagged 5) = true := by
    decide +kernel
  have right : (Match.any.set .vlanVid maskedId).selects (tagged 5) = true := by decide +kernel
  constructor
  · intro sound
    have free : (Match.any.set .vlanVid (.exact 0x1005)).overlaps (Match.any.set .vlanVid maskedId)
        = false := by decide +kernel
    exact Bool.false_ne_true (free.symm.trans (sound _ _ _ left right))
  · intro unambiguous
    have held : (((empty 4).run (vlanEntries [.exact 0x1005, maskedId])).flowTable? 0).map
        (·.entries) = some [vlanEntry 1 (.exact 0x1005), vlanEntry 2 maskedId] := by decide +kernel
    obtain ⟨f, found, entries⟩ := Option.map_eq_some_iff.mp held
    have apart := unambiguous 4 _ 0 f found
    rw [entries] at apart
    have first := (List.pairwise_cons.mp (apart (by decide +kernel))).1 _ List.mem_cons_self
    exact Bool.false_ne_true ((first rfl _ left).symm.trans right)

end Tables

end FlowSwitch
