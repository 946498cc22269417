import FlowSwitch.Proofs.Tables.Selection
import FlowSwitch.Proofs.Tables.Sound

/-!
# Changes that touch what they select

Deleting, cascading and aging take the entries that they select, report them in order and leave
all others where they are. Giving other instructions changes the selected entries in place.
Entries are taken and changed one by one, by table and number, and these name one entry each.
-/

namespace FlowSwitch

/-- An entry with other instructions and, if it is to start anew, without its counts. -/
def FlowEntry.instructed (e : FlowEntry) (s : InstructionSet) (reset : Bool) : FlowEntry :=
  { e with instructions := s, counter := if reset then {} else e.counter }

theorem FlowEntry.instructed_instructed (e : FlowEntry) (s : InstructionSet) (reset : Bool) :
    (e.instructed s reset).instructed s reset = e.instructed s reset := by
  cases reset <;> rfl

namespace Tables

variable {capacity : Nat} {t t' : Tables}

/-! ## Sound tables -/

theorem Sound.addressed (sound : t.Sound capacity) : t.Addressed :=
  addressed_of_numbers (fun id f found => (sound.each id f found).own) sound.nodup

theorem Sound.of_settled (same : t'.settled = t.settled) (sound : t.Sound capacity) :
    t'.Sound capacity where
  each := sound.each.of_outlines (kept_sound capacity) (outlines_of_settled same)
  nodup := numbers_of_outlines (outlines_of_settled same) ▸ sound.nodup

theorem Sound.remove (sound : t.Sound capacity) (now : Time)
    (refs : List (EntryRef × RemovalReason)) : (t.remove now refs).2.Sound capacity where
  each := sound.each.remove (kept_sound capacity) now refs
  nodup := sound.nodup.sublist (t.remove_numbers now refs)

theorem entriesOf_sublist (t : Tables) (table : TableId) :
    (t.entriesOf table).Sublist t.entries := by
  unfold entriesOf
  split
  · exact .refl _
  · cases found : t.flowTable? table with
    | none => exact List.nil_sublist _
    | some f =>
      obtain ⟨before, after, whole, -⟩ := split_entries found
      rw [whole]
      exact (List.sublist_append_right before _).trans (List.sublist_append_left _ after)

theorem Sound.apart (sound : t.Sound capacity) (table : TableId) :
    (t.entriesOf table).Pairwise fun x y => x.ref ≠ y.ref := by
  have numbers : t.entries.Pairwise fun x y => x.ref.id ≠ y.ref.id :=
    List.pairwise_map.mp sound.nodup
  refine (numbers.sublist (t.entriesOf_sublist table)).imp fun {x y} other same => ?_
  exact other (congrArg (·.id) same)

/-! ## Removing entries -/

/-- What is reported and left when the entries of the meant tables for which there is a reason are
removed: those that ask for it are reported, in order, and all others stay where they are. -/
structure Removes (t : Tables) (table : TableId) (reason? : FlowEntry → Option RemovalReason)
    (now : Time) (answer : List FlowRemoved × Tables) : Prop where
  reported : answer.1 = (t.entriesOf table).filterMap fun e => (reason? e).bind (e.report? now)
  left : ∀ id, answer.2.held? id
    = (t.held? id).map (·.filter fun e => !(table.addresses id && (reason? e).isSome))
  counted : ∀ id f f', t.flowTable? id = some f → answer.2.flowTable? id = some f' →
    f.active.count = f'.active.count
      + (f.entries.filter fun e => table.addresses id && (reason? e).isSome).length

variable {table : TableId} {reason? : FlowEntry → Option RemovalReason} {now : Time}

/-- The entries that are taken go from the count of their table. -/
theorem Sound.counted {p : TableId → FlowEntry → Bool} (sound : t.Sound capacity)
    (sound' : t'.Sound capacity)
    (left : ∀ id, t'.held? id = (t.held? id).map (·.filter fun e => !p id e)) (id : TableId)
    (f f' : FlowTable) (found : t.flowTable? id = some f) (found' : t'.flowTable? id = some f') :
    f.active.count = f'.active.count + (f.entries.filter (p id)).length := by
  have held := left id
  simp only [held?, found, found', Option.map_some, Option.some.injEq] at held
  rw [(sound.each id f found).active, (sound'.each id f' found').active, held, Nat.add_comm]
  exact List.length_eq_length_filter_add _

/-- The tables may have been asked before the removal. -/
theorem Sound.removes (sound : t.Sound capacity) (sound' : t'.Sound capacity)
    (held : ∀ id, t'.held? id = t.held? id) :
    t.Removes table reason? now (t'.removeWhere table reason? now) := by
  have left (id : TableId) : (t'.removeWhere table reason? now).2.held? id
      = (t.held? id).map (·.filter fun e => !(table.addresses id && (reason? e).isSome)) := by
    rw [← held]
    exact held?_removeWhere sound'.addressed table reason? now id
  refine ⟨?_, left, sound.counted (sound'.remove now _) left⟩
  have pairs : (t'.entriesOf table).filterMap (fun e => (reason? e).map (e.ref, ·))
      = ((t'.entriesOf table).filterMap fun e => (reason? e).map (e, ·)).map
        fun x => (x.1.ref, x.2) := by
    simp [List.map_filterMap, Function.comp_def]
  rw [removeWhere, pairs, fst_remove sound'.addressed, List.filterMap_filterMap,
    entriesOf_of_held held]
  · congr 1
    funext e
    cases reason? e <;> rfl
  · intro x named
    obtain ⟨e, listed, why⟩ := List.mem_filterMap.mp named
    obtain ⟨r, -, rfl⟩ := Option.map_eq_some_iff.mp why
    exact mem_entries_of_mem_entriesOf listed
  · refine (sound'.apart table).filterMap _ fun x y other a why b why' => ?_
    obtain ⟨r, -, rfl⟩ := Option.map_eq_some_iff.mp why
    obtain ⟨r', -, rfl⟩ := Option.map_eq_some_iff.mp why'
    exact other

theorem Sound.deletes (sound : t.Sound capacity) (f : FlowFilter) (now : Time) :
    t.Removes f.table (fun e => if f.selects e then some .delete else none) now
      (t.delete f none now) := by
  have asked : (t.select f none).2.Sound capacity := sound.of_settled (t.settled_select f none)
  have named : (t.select f none).1.map (·.ref, .delete)
      = ((t.select f none).2.entriesOf f.table).filterMap fun e =>
        (if f.selects e then some RemovalReason.delete else none).map (e.ref, ·) := by
    rw [fst_select, entriesOf_of_held (t.held?_select f none), ← List.filterMap_eq_filter,
      List.map_filterMap]
    congr 1
    funext e
    rw [Option.guard]
    cases f.selects e <;> rfl
  have whole : t.delete f none now = (t.select f none).2.removeWhere f.table
      (fun e => if f.selects e then some .delete else none) now := by
    simp only [delete, removeWhere, named]
  rw [whole]
  exact sound.removes asked (t.held?_select f none)

/-- After a removal there is no reason for any entry that is left in the meant tables. -/
theorem Removes.none_left {answer : List FlowRemoved × Tables}
    (removes : t.Removes table reason? now answer) (own : answer.2.Each FlowTable.Own) :
    ∀ e ∈ answer.2.entriesOf table, reason? e = none := by
  intro e listed
  obtain ⟨id, f, found, inside⟩ := mem_entries.mp (mem_entries_of_mem_entriesOf listed)
  have meant := (mem_entriesOf_iff own found inside table).mp listed
  have held := removes.left id
  rw [held?, found, Option.map_some] at held
  obtain ⟨l, -, same⟩ := Option.map_eq_some_iff.mp held.symm
  rw [← same] at inside
  have stays := (List.mem_filter.mp inside).2
  rw [meant, Bool.true_and, Bool.not_eq_true', Option.isSome_eq_false_iff,
    Option.isNone_iff_eq_none] at stays
  exact stays

/-! ## Giving other instructions -/

theorem map_ite_of_not {l : List FlowEntry} {p : FlowEntry → Prop} [DecidablePred p]
    {change : FlowEntry → FlowEntry} (none : ∀ e ∈ l, ¬p e) :
    (l.map fun e => if p e then change e else e) = l :=
  (List.map_congr_left fun e inside => if_neg (none e inside)).trans (List.map_id l)

/-- Where numbers are given once, the first entry with a number is the only one. Induction on the
entries. -/
theorem modify_number {l : List FlowEntry} (nodup : (l.map (·.ref.id)).Nodup) (number : UInt64)
    (change : FlowEntry → FlowEntry) :
    l.modify (l.findIdx (·.ref.id == number)) change
      = l.map fun e => if e.ref.id = number then change e else e := by
  induction l with
  | nil => rfl
  | cons e l ih =>
    obtain ⟨apart, rest⟩ := List.nodup_cons.mp nodup
    by_cases named : e.ref.id = number
    · subst named
      have others : ∀ x ∈ l, ¬x.ref.id = e.ref.id := fun x inside same =>
        apart (List.mem_map.mpr ⟨x, inside, same⟩)
      simp [List.findIdx_cons, map_ite_of_not others]
    · have later : (e.ref.id == number) = false := beq_eq_false_iff_ne.mpr named
      simp [List.findIdx_cons, later, named, ih rest]

theorem held?_modifyEntry (addressed : t.Addressed) (ref : EntryRef)
    (change : FlowEntry → FlowEntry) (id : TableId) :
    (t.modifyEntry ref change).held? id
      = (t.held? id).map (·.map fun e => if e.ref = ref then change e else e) := by
  simp only [held?, modifyEntry, flowTable?_modifyFlow]
  cases found : t.flowTable? id with
  | none => simp
  | some f =>
    obtain ⟨own, nodup⟩ := addressed id f found
    by_cases here : id = ref.table
    · rw [if_pos here]
      refine congrArg some ((modify_number nodup ref.id change).trans ?_)
      refine List.map_congr_left fun e inside => ?_
      have same : e.ref.id = ref.id ↔ e.ref = ref := by
        rw [EntryRef.ext_iff]
        exact ⟨fun number => ⟨(own e inside).trans here, number⟩, fun both => both.2⟩
      exact if_congr same rfl rfl
    · rw [if_neg here]
      refine congrArg some (map_ite_of_not fun e inside same => here ?_).symm
      rw [← same, own e inside]

/-- Changing entries in their places without renaming them. -/
theorem Addressed.of_map {change : TableId → FlowEntry → FlowEntry}
    (named : ∀ id e, (change id e).ref = e.ref)
    (held : ∀ id, t'.held? id = (t.held? id).map (·.map (change id))) (addressed : t.Addressed) :
    t'.Addressed := by
  intro id f' found
  have here := held id
  rw [held?, found, Option.map_some] at here
  obtain ⟨l, was, same⟩ := Option.map_eq_some_iff.mp here.symm
  obtain ⟨f, table, rfl⟩ := Option.map_eq_some_iff.mp was
  obtain ⟨own, nodup⟩ := addressed id f table
  constructor
  · intro e inside
    rw [← same] at inside
    obtain ⟨x, among, rfl⟩ := List.mem_map.mp inside
    rw [named]
    exact own x among
  · rw [← same, List.map_map]
    simpa [Function.comp_def, named] using nodup

theorem held?_instruct (addressed : t.Addressed) (ref : EntryRef) (s : InstructionSet)
    (reset : Bool) (id : TableId) :
    (t.instruct ref s reset).held? id
      = (t.held? id).map (·.map fun e => if e.ref = ref then e.instructed s reset else e) := by
  obtain ⟨found, same⟩ | ⟨old, -, same⟩ := t.instruct_cases ref s reset
  · rw [same]
    cases table : t.flowTable? id with
    | none => simp [held?, table]
    | some f =>
      rw [held?, table]
      refine congrArg some (map_ite_of_not fun e inside named => ?_).symm
      have there := entry?_of_mem addressed (mem_entries.mpr ⟨id, f, table, inside⟩)
      rw [named, found] at there
      cases there
  · rw [same]
    exact held?_modifyEntry addressed ref (·.instructed s reset) id

/-- Giving other instructions to one entry after the other. Induction on these. -/
theorem held?_instructs (addressed : t.Addressed) (s : InstructionSet) (reset : Bool)
    (l : List FlowEntry) (id : TableId) :
    (l.foldl (fun t e => t.instruct e.ref s reset) t).held? id
      = (t.held? id).map (·.map fun e =>
          if ∃ x ∈ l, x.ref = e.ref then e.instructed s reset else e) := by
  induction l generalizing t with
  | nil => simp
  | cons x l ih =>
    have first := held?_instruct addressed x.ref s reset
    have named (id : TableId) (e : FlowEntry) :
        (if e.ref = x.ref then e.instructed s reset else e).ref = e.ref := by
      split <;> rfl
    rw [List.foldl_cons, ih (addressed.of_map named first), first, Option.map_map]
    congr 1
    funext held
    rw [Function.comp_apply, List.map_map]
    refine List.map_congr_left fun e _ => ?_
    simp only [Function.comp_apply, named id e, List.exists_mem_cons_iff]
    by_cases first : x.ref = e.ref
    · rw [if_pos first.symm, FlowEntry.instructed_instructed, ite_self, if_pos (.inl first)]
    · rw [if_neg (Ne.symm first)]
      exact if_congr (or_iff_right first).symm rfl rfl

/-- The entries that a filter selects get other instructions where they are, and no other entry
changes. -/
theorem Sound.updates (sound : t.Sound capacity) {f : FlowFilter} {s : InstructionSet}
    {flags : FlowFlags} {hasPort : PortNo → Bool} {n : Nat}
    (updated : t.update f none s flags hasPort = (.ok n, t')) :
    n = ((t.entriesOf f.table).filter f.selects).length ∧ ∀ id, t'.held? id
      = (t.held? id).map (·.map fun e =>
          if f.table.addresses id && f.selects e then e.instructed s flags.resetCounts else e) := by
  have asked : (t.select f none).2.Sound capacity := sound.of_settled (t.settled_select f none)
  rw [← fst_select]
  cases done : (t.select f none).2.instructAll (t.select f none).1 s flags.resetCounts hasPort with
  | error e =>
    simp only [update, done] at updated
    cases updated
  | ok answer =>
    simp only [update, done] at updated
    obtain ⟨count, rfl⟩ := Prod.mk.inj updated
    refine ⟨(Except.ok.inj count).symm, fun id => ?_⟩
    obtain ⟨_, -, made⟩ := bind_eq_ok.mp done
    obtain rfl := Except.ok.inj made
    rw [held?_instructs asked.addressed, held?_select]
    cases found : t.flowTable? id with
    | none => simp [held?, found]
    | some g =>
      rw [held?, found]
      refine congrArg some (List.map_congr_left fun e inside => ?_)
      have meant := exists_ref_iff sound.addressed found inside f.table fun e => f.selects e = true
      refine if_congr ?_ rfl rfl
      rw [fst_select, Bool.and_eq_true, ← meant]
      simp only [List.mem_filter, and_assoc]

/-! ## Reachable tables -/

/-- Tables in which whatever picks entries touches those that it selects and no others. -/
structure Selective (t : Tables) : Prop where
  delete : ∀ f now, t.Removes f.table (fun e => if f.selects e then some .delete else none) now
    (t.delete f none now)
  deleteByGroup : ∀ group now, t.Removes TableId.all
    (fun e => if e.instructions.refersToGroup group then some .groupDelete else none) now
    (t.deleteByGroup group now)
  deleteByMeter : ∀ meter now, t.Removes TableId.all
    (fun e => if e.instructions.meter.any fun m => meter == MeterId.all || m == meter
      then some .delete else none) now
    (t.deleteByMeter meter now)
  expire : ∀ table now, t.Removes table (·.expired? now) now (t.expire table now) ∧
    ∀ e ∈ (t.expire table now).2.entriesOf table, e.expired? now = none
  update : ∀ f s flags hasPort n t', t.update f none s flags hasPort = (.ok n, t') →
    n = ((t.entriesOf f.table).filter f.selects).length ∧
      ∀ id, t'.held? id = (t.held? id).map (·.map fun e =>
        if f.table.addresses id && f.selects e then e.instructed s flags.resetCounts else e)
  flowStats : ∀ f now, (t.flowStats f now).1
    = ((t.entriesOf f.table).filter f.selects).map (·.stats now)

theorem Sound.selective (sound : t.Sound capacity) : t.Selective where
  delete := sound.deletes
  deleteByGroup _ _ := sound.removes sound fun _ => rfl
  deleteByMeter _ _ := sound.removes sound fun _ => rfl
  expire table now := by
    have removes : t.Removes table (·.expired? now) now (t.expire table now) :=
      sound.removes sound fun _ => rfl
    have left : (t.expire table now).2.Sound capacity := sound.remove now _
    exact ⟨removes, removes.none_left fun id f found => (left.each id f found).own⟩
  update _ _ _ _ _ _ := sound.updates
  flowStats f now := by
    rw [← fst_select]
    rfl

/-- Whatever was done to the tables, a deletion without a priority, one by group or meter, and
aging take and report the entries that they select, a change of instructions changes those, and
statistics are those of the selected entries; all this while the numbers of entries last and no
table holds more entries than can be counted. -/
theorem run_selective (capacity : Nat) (cs : List Command)
    (few : (empty capacity).additions cs < UInt64.size)
    (small : ∀ m ∈ (empty capacity).history cs, m.Each fun _ f => f.entries.length < UInt32.size) :
    ((empty capacity).run cs).Selective := by
  obtain ⟨l, moves, made⟩ := (empty capacity).run_moves cs
  exact (moves.sound few fun m inside => small m (made m inside)).selective

/-- An entry that expires and reports that. -/
def timedEntry (table : TableId) (priority hard idle : UInt16) : FlowEntry :=
  { idleEntry priority with
    ref := ⟨table, 0⟩, hardTimeout := hard, idleTimeout := idle, flags := { sendRemoved := true } }

/-- Entries of two tables, of which one lasts and two expire after five seconds. -/
def timed : List Command :=
  [.add (timedEntry 1 3 0 5) fun _ => false, .add (timedEntry 0 2 0 0) fun _ => false,
    .add (timedEntry 0 1 5 5) fun _ => false]

theorem run_selective_timed :
    (empty 4).additions timed < UInt64.size ∧
      (∀ m ∈ (empty 4).history timed, m.Each fun _ f => f.entries.length < UInt32.size) ∧
      ((empty 4).run timed).Selective ∧
      (((empty 4).run timed).expire TableId.all (5 * Time.second)).1.map
        (fun event => (event.table, event.priority, event.reason))
          = [(0, 1, .hardTimeout), (1, 3, .idleTimeout)] := by
  have few : (empty 4).additions timed < UInt64.size := by decide +kernel
  have lengths : ∀ m ∈ (empty 4).history timed, ∀ f ∈ m.flow.toList,
      f.entries.length < UInt32.size := by decide +kernel
  have small := fun m inside => each_of_mem (lengths m inside)
  exact ⟨few, small, run_selective 4 timed few small, by decide +kernel⟩

end Tables

end FlowSwitch
