import FlowSwitch.Proofs.Tables.Groups
import FlowSwitch.Proofs.Tables.Selective
import Mathlib.Data.List.Pairwise

/-!
# The entry that a priority picks

A command with a priority is about one entry, that of its priority and match in the first of its
tables that has one. The filter's other conditions are asked of this entry only: where it fails
them nothing is removed or changed, and no later table is looked at.
-/

namespace FlowSwitch

/-- Whether an entry has the match of the filter and the priority. -/
def FlowFilter.names (f : FlowFilter) (priority : UInt16) (e : FlowEntry) : Bool :=
  e.priority == priority && e.selector.same f.selector

/-- Two entries that one filter names at one priority are alike. -/
theorem FlowFilter.identical_of_names {f : FlowFilter} {priority : UInt16} {x y : FlowEntry}
    (left : f.names priority x = true) (right : f.names priority y = true) :
    x.isIdentical y = true := by
  obtain ⟨first, same⟩ := Bool.and_eq_true_iff.mp left
  obtain ⟨second, same'⟩ := Bool.and_eq_true_iff.mp right
  rw [beq_iff_eq] at first second
  -- the filter's own match, as an entry between the two
  let key : FlowEntry := { x with selector := f.selector }
  have mine : x.isIdentical key = true := Bool.and_eq_true_iff.mpr ⟨beq_self_eq_true _, same⟩
  have other : y.isIdentical key = true :=
    Bool.and_eq_true_iff.mpr ⟨beq_iff_eq.mpr (second.trans first.symm), same'⟩
  exact FlowEntry.isIdentical_trans mine (FlowEntry.isIdentical_symm other)

namespace TableId

theorem toNat_of_lt_count {i : Nat} (small : i < count) : i.toUInt8.toNat = i := by
  have few : count = 255 := rfl
  rw [Nat.toUInt8_eq, UInt8.toNat_ofNat']
  omega

theorem ne_all_of_mem {id : TableId} (listed : id ∈ list) : id ≠ all := by
  rintro rfl
  exact absurd listed (by decide)

theorem list_ascending : list.Pairwise (· < ·) := by
  refine List.pairwise_map.mpr (List.pairwise_lt_range.imp_of_mem fun {i j} here there less => ?_)
  rw [UInt8.lt_iff_toNat_lt, toNat_of_lt_count (List.mem_range.mp here),
    toNat_of_lt_count (List.mem_range.mp there)]
  exact less

end TableId

namespace Tables

/-- Whether `e` is what a filter names at a priority: no table of the filter before that of `e`
has an entry with the match and the priority. -/
structure Picks (t : Tables) (f : FlowFilter) (priority : UInt16) (e : FlowEntry) : Prop where
  listed : e ∈ t.entriesOf f.table
  named : f.names priority e = true
  first : ∀ x ∈ t.entriesOf f.table, f.names priority x = true → e.ref.table ≤ x.ref.table

variable {capacity : Nat} {t : Tables}

/-! ## Looking for the entry -/

/-- Asking for one entry, table by table. Induction on the tables. -/
theorem fst_queryEach_exactly (t : Tables) (f : FlowFilter) (priority : UInt16)
    (ids : List TableId) :
    (t.queryEach (.exactly f.selector priority) ids).1
      = ((ids.flatMap t.entriesOf).find? (f.names priority)).toList := by
  induction ids generalizing t with
  | nil => rfl
  | cons id ids ih =>
    have answers : (Query.exactly f.selector priority).answers (t.entriesOf id)
        = ((t.entriesOf id).find? (f.names priority)).toList := rfl
    simp only [queryEach, answers, List.flatMap_cons, List.find?_append]
    cases (t.entriesOf id).find? (f.names priority) with
    | some e => rfl
    | none =>
      have same : (t.modifyFlow id (·.countLookup 0)).entriesOf = t.entriesOf :=
        funext fun table => t.entriesOf_countLookup id table _
      refine (ih (t.modifyFlow id (·.countLookup 0))).trans ?_
      rw [same, Option.none_or]

theorem fst_select_priority (t : Tables) (f : FlowFilter) (priority : UInt16) :
    (t.select f (some priority)).1
      = ((t.entriesOf f.table).find? (f.names priority)).toList.filter f.admits := by
  have asked : (t.query f.table (f.query (some priority))).1
      = ((t.entriesOf f.table).find? (f.names priority)).toList := by
    refine (t.fst_queryEach_exactly f priority _).trans ?_
    split
    · rename_i all
      rw [flatMap_entriesOf, all, entriesOf, if_pos rfl]
    · rw [List.flatMap_singleton]
  exact congrArg (List.filter f.admits) asked

/-! ## The first table -/

theorem Sound.table_of_mem (sound : t.Sound capacity) {table : TableId} {e : FlowEntry}
    (one : table ≠ TableId.all) (listed : e ∈ t.entriesOf table) : e.ref.table = table := by
  rw [entriesOf, if_neg one] at listed
  cases found : t.flowTable? table with
  | none => simp [found] at listed
  | some f =>
    rw [found] at listed
    exact (sound.each table f found).own e listed

/-- The entries of all tables come in the order of the tables. -/
theorem Sound.ascending (sound : t.Sound capacity) (table : TableId) :
    (t.entriesOf table).Pairwise fun x y => x.ref.table ≤ y.ref.table := by
  have whole : t.entries.Pairwise fun x y => x.ref.table ≤ y.ref.table := by
    rw [← flatMap_entriesOf]
    refine List.pairwise_flatMap.mpr ⟨?_, ?_⟩
    · intro id listed
      refine List.pairwise_of_forall_mem_list fun x here y there => ?_
      rw [sound.table_of_mem (TableId.ne_all_of_mem listed) here,
        sound.table_of_mem (TableId.ne_all_of_mem listed) there]
      exact UInt8.le_refl _
    · refine TableId.list_ascending.imp_of_mem fun {id id'} listed listed' less x here y there => ?_
      rw [sound.table_of_mem (TableId.ne_all_of_mem listed) here,
        sound.table_of_mem (TableId.ne_all_of_mem listed') there]
      exact UInt8.le_of_lt less
  exact whole.sublist (t.entriesOf_sublist table)

theorem Sound.picks_of_find? (sound : t.Sound capacity) {f : FlowFilter} {priority : UInt16}
    {e : FlowEntry} (found : (t.entriesOf f.table).find? (f.names priority) = some e) :
    t.Picks f priority e := by
  obtain ⟨named, before, after, whole, others⟩ := List.find?_eq_some_iff_append.mp found
  have ascending := sound.ascending f.table
  rw [whole] at ascending
  have rest := (List.pairwise_cons.mp (List.pairwise_append.mp ascending).2.1).1
  refine ⟨List.mem_of_find?_eq_some found, named, fun x listed also => ?_⟩
  rw [whole, List.mem_append, List.mem_cons] at listed
  rcases listed with early | rfl | late
  · have not := others x early
    rw [also] at not
    cases not
  · exact UInt8.le_refl _
  · exact rest x late

/-- A table has one entry of a match and priority at most. -/
theorem Sound.eq_of_names (sound : t.Sound capacity) {f : FlowFilter} {priority : UInt16}
    {x y : FlowEntry} (left : x ∈ t.entries) (right : y ∈ t.entries)
    (table : x.ref.table = y.ref.table) (named : f.names priority x = true)
    (named' : f.names priority y = true) : x = y := by
  obtain ⟨id, g, found, inside⟩ := mem_entries.mp left
  obtain ⟨id', g', found', inside'⟩ := mem_entries.mp right
  have here : id' = id := by
    rw [← (sound.each id g found).own x inside, table, (sound.each id' g' found').own y inside']
  subst here
  obtain rfl : g' = g := Option.some.inj (found'.symm.trans found)
  by_contra apart
  have distinct := (sound.each id' g' found).ordered.distinct
  have : Std.Symm FlowEntry.differs := ⟨fun _ _ => FlowEntry.differs_symm⟩
  have differ : x.isIdentical y = false := distinct.forall inside inside' apart
  rw [FlowFilter.identical_of_names named named'] at differ
  cases differ

theorem Sound.picks_iff (sound : t.Sound capacity) {f : FlowFilter} {priority : UInt16}
    {e : FlowEntry} :
    t.Picks f priority e ↔ (t.entriesOf f.table).find? (f.names priority) = some e := by
  refine ⟨fun picks => ?_, sound.picks_of_find?⟩
  cases found : (t.entriesOf f.table).find? (f.names priority) with
  | none => exact absurd picks.named (List.find?_eq_none.mp found e picks.listed)
  | some x =>
    have other := sound.picks_of_find? found
    have table : x.ref.table = e.ref.table :=
      UInt8.le_antisymm (other.first e picks.listed picks.named)
        (picks.first x other.listed other.named)
    have same := sound.eq_of_names (mem_entries_of_mem_entriesOf other.listed)
      (mem_entries_of_mem_entriesOf picks.listed) table other.named picks.named
    rw [same]

/-! ## What is done with it -/

theorem Sound.select_of_picks (sound : t.Sound capacity) {f : FlowFilter} {priority : UInt16}
    {e : FlowEntry} (picks : t.Picks f priority e) (admitted : f.admits e = true) :
    (t.select f (some priority)).1 = [e] := by
  rw [fst_select_priority, sound.picks_iff.mp picks, Option.toList_some,
    List.filter_singleton, admitted, cond_true]

theorem Sound.select_of_misses (sound : t.Sound capacity) {f : FlowFilter} {priority : UInt16}
    (misses : ∀ e, t.Picks f priority e → f.admits e = false) :
    (t.select f (some priority)).1 = [] := by
  rw [fst_select_priority]
  cases found : (t.entriesOf f.table).find? (f.names priority) with
  | none => rfl
  | some e =>
    rw [Option.toList_some, List.filter_singleton, misses e (sound.picks_iff.mpr found),
      cond_false]

/-- Tables in which a command with a priority is about the entry that it picks, and about no other:
this one is removed or changed, if the filter admits it, and all others stay as they are. -/
structure Strict (t : Tables) : Prop where
  found : ∀ f priority, (∃ e ∈ t.entriesOf f.table, f.names priority e = true) →
    ∃ e, t.Picks f priority e
  unique : ∀ f priority e e', t.Picks f priority e → t.Picks f priority e' → e = e'
  single : ∀ f priority e, f.table ≠ TableId.all → e ∈ t.entriesOf f.table →
    f.names priority e = true → t.Picks f priority e
  delete : ∀ f priority e now, t.Picks f priority e → f.admits e = true →
    (t.delete f (some priority) now).1 = (e.report? now .delete).toList ∧
      ∀ id, (t.delete f (some priority) now).2.held? id = (t.held? id).map (·.filter (· ≠ e))
  update : ∀ f priority e s flags hasPort, t.Picks f priority e → f.admits e = true →
    s.validate e.ref.table TableId.writableMetadata (t.known hasPort) = .ok () →
    (t.update f (some priority) s flags hasPort).1 = .ok 1 ∧
      ∀ id, (t.update f (some priority) s flags hasPort).2.held? id
        = (t.held? id).map (·.map fun x =>
            if x = e then e.instructed s flags.resetCounts else x)
  refused : ∀ f priority e s flags hasPort error, t.Picks f priority e → f.admits e = true →
    s.validate e.ref.table TableId.writableMetadata (t.known hasPort) = .error error →
    (t.update f (some priority) s flags hasPort).1 = .error error ∧
      ∀ id, (t.update f (some priority) s flags hasPort).2.held? id = t.held? id
  missed : ∀ f priority, (∀ e, t.Picks f priority e → f.admits e = false) →
    (∀ now, (t.delete f (some priority) now).1 = [] ∧
      ∀ id, (t.delete f (some priority) now).2.held? id = t.held? id) ∧
    ∀ s flags hasPort, (t.update f (some priority) s flags hasPort).1 = .ok 0 ∧
      ∀ id, (t.update f (some priority) s flags hasPort).2.held? id = t.held? id

/-- The entry with the number of `e` is `e`. -/
theorem Sound.ref_iff (sound : t.Sound capacity) {e : FlowEntry} (present : e ∈ t.entries)
    {id : TableId} {g : FlowTable} (found : t.flowTable? id = some g) {x : FlowEntry}
    (inside : x ∈ g.entries) : x.ref = e.ref ↔ x = e := by
  refine ⟨fun same => ?_, congrArg _⟩
  exact (sound.addressed.eq_of_ref found inside present same.symm).symm

theorem Sound.deletes_picked (sound : t.Sound capacity) {f : FlowFilter} {priority : UInt16}
    {e : FlowEntry} (now : Time) (picks : t.Picks f priority e) (admitted : f.admits e = true) :
    (t.delete f (some priority) now).1 = (e.report? now .delete).toList ∧
      ∀ id, (t.delete f (some priority) now).2.held? id
        = (t.held? id).map (·.filter (· ≠ e)) := by
  have asked := sound.of_settled (t.settled_select f (some priority))
  have held := t.held?_select f (some priority)
  have present : e ∈ t.entries := mem_entries_of_mem_entriesOf picks.listed
  have erased : t.delete f (some priority) now
      = (((t.select f (some priority)).2.erase e.ref .delete now).1 ++ [],
        ((t.select f (some priority)).2.erase e.ref .delete now).2) := by
    simp only [Tables.delete, sound.select_of_picks picks admitted, List.map_cons, List.map_nil,
      Tables.remove]
  rw [erased]
  constructor
  · have there : e ∈ (t.select f (some priority)).2.entries := by
      obtain ⟨id, l, was, inside⟩ := mem_entries_iff_held.mp present
      exact mem_entries_iff_held.mpr ⟨id, l, (held id).trans was, inside⟩
    rw [List.append_nil, fst_erase asked.addressed there]
  · intro id
    rw [held?_erase asked.addressed, held]
    cases found : t.flowTable? id with
    | none => simp [held?, found]
    | some g =>
      rw [held?, found]
      refine congrArg some (List.filter_congr fun x inside => ?_)
      rw [Bool.eq_iff_iff, bne_iff_ne, decide_eq_true_iff]
      exact ne_comm.trans (not_congr (sound.ref_iff present found inside))

/-- Instructions for the entry that is picked are checked for its table. -/
theorem Sound.update_picked (sound : t.Sound capacity) {f : FlowFilter} {priority : UInt16}
    {e : FlowEntry} {s : InstructionSet} (flags : FlowFlags) {hasPort : PortNo → Bool}
    {checked : Except SwitchError Unit} (picks : t.Picks f priority e)
    (admitted : f.admits e = true)
    (check : s.validate e.ref.table TableId.writableMetadata (t.known hasPort) = checked) :
    let asked := (t.select f (some priority)).2
    t.update f (some priority) s flags hasPort = (checked.map fun _ => 1,
      unlessRefused asked (checked.map fun _ => asked.instruct e.ref s flags.resetCounts)) := by
  intro asked
  have known : asked.known hasPort = t.known hasPort :=
    congrArg (·.known hasPort) (t.groups_queryEach ..)
  have each : ([e].forM fun e =>
      s.validate e.ref.table TableId.writableMetadata (asked.known hasPort)) = checked := by
    show (s.validate _ _ _ >>= fun _ => pure ()) = checked
    rw [known, check]
    cases checked <;> rfl
  simp only [Tables.update, sound.select_of_picks picks admitted, instructAll]
  rw [each]
  cases checked <;> rfl

theorem Sound.updates_picked (sound : t.Sound capacity) {f : FlowFilter} {priority : UInt16}
    {e : FlowEntry} {s : InstructionSet} (flags : FlowFlags) {hasPort : PortNo → Bool}
    (picks : t.Picks f priority e) (admitted : f.admits e = true)
    (valid : s.validate e.ref.table TableId.writableMetadata (t.known hasPort) = .ok ()) :
    (t.update f (some priority) s flags hasPort).1 = .ok 1 ∧
      ∀ id, (t.update f (some priority) s flags hasPort).2.held? id
        = (t.held? id).map (·.map fun x =>
            if x = e then e.instructed s flags.resetCounts else x) := by
  have asked := sound.of_settled (t.settled_select f (some priority))
  have present : e ∈ t.entries := mem_entries_of_mem_entriesOf picks.listed
  rw [sound.update_picked flags picks admitted valid]
  refine ⟨rfl, fun id => ?_⟩
  simp only [Except.map, unlessRefused]
  rw [held?_instruct asked.addressed, held?_select]
  cases found : t.flowTable? id with
  | none => simp [held?, found]
  | some g =>
    rw [held?, found]
    refine congrArg some (List.map_congr_left fun x inside => ?_)
    by_cases same : x = e
    · rw [if_pos (congrArg _ same), if_pos same, same]
    · rw [if_neg (mt (sound.ref_iff present found inside).mp same), if_neg same]

theorem Sound.strict (sound : t.Sound capacity) : t.Strict where
  found f priority := by
    rintro ⟨e, listed, named⟩
    cases found : (t.entriesOf f.table).find? (f.names priority) with
    | none => exact absurd named (List.find?_eq_none.mp found e listed)
    | some x => exact ⟨x, sound.picks_of_find? found⟩
  unique f priority e e' picks picks' := by
    have same := sound.picks_iff.mp picks
    rw [sound.picks_iff.mp picks'] at same
    exact (Option.some.inj same).symm
  single f priority e one listed named := by
    refine ⟨listed, named, fun x also _ => ?_⟩
    rw [sound.table_of_mem one listed, sound.table_of_mem one also]
    exact UInt8.le_refl _
  delete _ _ _ now := sound.deletes_picked now
  update _ _ _ _ flags _ := sound.updates_picked flags
  refused f priority e s flags hasPort error picks admitted invalid := by
    rw [sound.update_picked flags picks admitted invalid]
    exact ⟨rfl, t.held?_select f (some priority)⟩
  missed f priority misses := by
    have none := sound.select_of_misses misses
    have held := t.held?_select f (some priority)
    constructor
    · intro now
      simp only [Tables.delete, none, List.map_nil, Tables.remove]
      exact ⟨trivial, held⟩
    · intro s flags hasPort
      simp only [Tables.update, none, instructAll]
      exact ⟨rfl, held⟩

/-- Whatever was done to the tables, a command with a priority removes or changes the entry that it
picks if the filter admits this one and, for a change, if its instructions may be installed there,
and else leaves all entries as they are; in one table that is the entry of the priority and match,
and in all of them the one in the first table that has one. This holds while the numbers of entries
last and no table holds more entries than can be counted. -/
theorem run_strict (capacity : Nat) (cs : List Command)
    (few : (empty capacity).additions cs < UInt64.size)
    (small : ∀ m ∈ (empty capacity).history cs, m.Each fun _ f => f.entries.length < UInt32.size) :
    ((empty capacity).run cs).Strict := by
  obtain ⟨l, moves, made⟩ := (empty capacity).run_moves cs
  exact (moves.sound few fun m inside => small m (made m inside)).strict

/-- Two entries that are alike, in two tables, with a cookie each. -/
def twins : List Command :=
  [.add { timedEntry 0 7 0 0 with cookie := 1 } fun _ => false,
    .add { timedEntry 1 7 0 0 with cookie := 2 } fun _ => false]

theorem run_strict_twins :
    (empty 4).additions twins < UInt64.size ∧
      (∀ m ∈ (empty 4).history twins, m.Each fun _ f => f.entries.length < UInt32.size) ∧
      ((empty 4).run twins).Strict ∧
      (((empty 4).run twins).delete { cookie := 1, cookieMask := 1 } (some 7) 0).1.map (·.table)
        = [0] := by
  have few : (empty 4).additions twins < UInt64.size := by decide +kernel
  have lengths : ∀ m ∈ (empty 4).history twins, ∀ f ∈ m.flow.toList,
      f.entries.length < UInt32.size := by decide +kernel
  have small := fun m inside => each_of_mem (lengths m inside)
  exact ⟨few, small, run_strict 4 twins few small, by decide +kernel⟩

/-- Asked in all tables for the twin with the cookie of the second, neither command finds one, since
the first stands in an earlier table. -/
theorem run_twins_hides_second :
    let t := (empty 4).run twins
    let f : FlowFilter := { cookie := 2, cookieMask := 0xffffffffffffffff }
    (∃ e ∈ t.entriesOf f.table, f.names 7 e = true ∧ f.admits e = true ∧
      ({} : InstructionSet).validate e.ref.table TableId.writableMetadata (t.known fun _ => false)
        = .ok ()) ∧
    (t.delete f (some 7) 0).1 = [] ∧ (t.delete f (some 7) 0).2.entries = t.entries ∧
    (t.update f (some 7) {} {} fun _ => false).1 = .ok 0 ∧
    (t.update f (some 7) {} {} fun _ => false).2.entries = t.entries := by
  decide +kernel

end Tables

end FlowSwitch
