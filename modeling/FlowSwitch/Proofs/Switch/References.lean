import FlowSwitch.Proofs.Switch.Tables
import FlowSwitch.Proofs.Tables.References

/-!
# References to groups in a switch

Whatever the controller, the devices and the clock did, the entries of a switch name groups
that are there, and each group counts how often. When groups are deleted, the entries that
name them go and all others stay.
-/

namespace FlowSwitch

/-- What is left when groups were deleted: the other groups, and in each table, in their order, the
entries that name none of those. -/
structure Tables.Without (deleted : GroupId → Prop) [DecidablePred deleted] (t t' : Tables) :
    Prop where
  others : ∀ g, t'.groups.contains g = true ↔ t.groups.contains g = true ∧ ¬deleted g
  unnamed : ∀ e ∈ t'.entries, ∀ g ∈ e.instructions.groups, ¬deleted g
  held : ∀ table, t'.held? table
    = (t.held? table).map (·.filter fun e => e.instructions.groups.all fun g => ¬deleted g)

theorem GroupTable.mem_matching {t : GroupTable} {id g : GroupId} :
    g ∈ t.matching id ↔ t.contains g = true ∧ (id = GroupId.all ∨ g = id) := by
  rw [matching, List.mem_filter, Registry.contains_iff_mem_keys]
  simp

/-- Entries name groups that are there. So they name none of those dropped under a number if they
do not name a group that this number stands for. -/
theorem Tables.Resolved.all_matching {t : Tables} (resolved : t.Resolved) {e : FlowEntry}
    (inside : e ∈ t.entries) (id : GroupId) :
    (t.groups.matching id).all (!e.instructions.refersToGroup ·)
      = e.instructions.groups.all fun g => ¬(id = GroupId.all ∨ g = id) := by
  rw [Bool.eq_iff_iff, List.all_eq_true, List.all_eq_true]
  constructor
  · intro apart g named
    refine decide_eq_true fun asked => ?_
    have dropped := GroupTable.mem_matching.mpr ⟨resolved e inside g named, asked⟩
    simpa [InstructionSet.refersToGroup, named] using apart g dropped
  · intro apart g dropped
    have unnamed : g ∉ e.instructions.groups := fun named =>
      of_decide_eq_true (apart g named) (GroupTable.mem_matching.mp dropped).2
    simp [InstructionSet.refersToGroup, unnamed]

theorem Tables.Linked.without {t : Tables} (linked : t.Linked) (addressed : t.Addressed)
    (id : GroupId) (now : Time) :
    t.Without (fun g => id = GroupId.all ∨ g = id)
      (t.dropGroups now (t.groups.matching id)).2 := by
  have held (table : TableId) : (t.dropGroups now (t.groups.matching id)).2.held? table
      = (t.held? table).map (·.filter fun e =>
          e.instructions.groups.all fun g => ¬(id = GroupId.all ∨ g = id)) := by
    rw [Tables.held?_dropGroups addressed]
    refine Option.map_congr fun l there => List.filter_congr fun e among => ?_
    have inside := Tables.mem_entries_iff_held.mpr ⟨table, l, there, among⟩
    exact linked.resolved.all_matching inside id
  refine ⟨fun g => ?_, fun e inside g named => ?_, held⟩
  · rw [t.contains_dropGroups, Bool.and_eq_true, Bool.not_eq_true', ← Bool.not_eq_true,
      List.contains_iff_mem, GroupTable.mem_matching]
    tauto
  · obtain ⟨table, l, there, among⟩ := Tables.mem_entries_iff_held.mp inside
    rw [held] at there
    obtain ⟨l', -, rfl⟩ := Option.map_eq_some_iff.mp there
    have unnamed := (List.mem_filter.mp among).2
    exact of_decide_eq_true (List.all_eq_true.mp unnamed g named)

namespace Switch

theorem tables_create {config : Config} {selection : Selection} {sw : Switch}
    (created : create config selection = .ok sw) : sw.tables = .empty config.maxFlowEntries := by
  obtain ⟨_, -, done⟩ := bind_eq_ok.mp created
  obtain rfl := Except.ok.inj done
  rfl

theorem tables_deleteGroup {sw sw' : Switch} {id : GroupId} {now : Time}
    (deleted : sw.deleteGroup id now = .ok sw') :
    sw'.tables = (sw.tables.dropGroups now (sw.tables.groups.matching id)).2 := by
  obtain ⟨answer, done, rfl⟩ := map_eq_ok.mp deleted
  unfold Tables.deleteGroup at done
  split at done
  · cases done
  · obtain rfl := Except.ok.inj done
    rfl

/-- However a switch got where it is, refused commands included, its entries name groups that are
there and every group counts how often; and a group that is deleted, or all of them, leaves the
entries that name no deleted group. This holds while the numbers of entries last and no group is
named more often than can be counted. -/
theorem run_references {config : Config} {selection : Selection} {sw : Switch}
    (created : create config selection = .ok sw) (cs : List Command)
    (few : sw.tables.additions (sw.tableCommands cs) < UInt64.size)
    (small : ∀ m ∈ sw.tables.history (sw.tableCommands cs), ∀ id, m.references id < UInt32.size) :
    (sw.run cs).tables.Linked ∧
      ∀ id now sw', (sw.run cs).deleteGroup id now = .ok sw' →
        (sw.run cs).tables.Without (fun g => id = GroupId.all ∨ g = id) sw'.tables := by
  have start := tables_create created
  rw [start] at few small
  obtain ⟨linked, addressed⟩ := Tables.run_linked few small
  have reached : (sw.run cs).tables = (Tables.empty config.maxFlowEntries).run
      (sw.tableCommands cs) := by
    rw [run_tables, start]
  rw [← reached] at linked addressed
  refine ⟨linked, ?_⟩
  intro id now sw' deleted
  rw [tables_deleteGroup deleted]
  exact linked.without addressed id now

/-- A switch as it is created. -/
def fresh : Switch where
  config := {}
  selection := ⟨fun _ => 0, fun _ => 0⟩
  tables := .empty 1024
  notifier := { buffers := { size := 256, timeout := Time.ofMilliseconds 1000 } }

/-- An entry that sends every packet of a table to a group. -/
def groupEntry (table : TableId) (group : GroupId) : FlowEntry where
  ref := ⟨table, 0⟩
  priority := 1
  selector := Match.any
  instructions := { applyActions := some ⟨[.group group], List.forall_mem_singleton.mpr rfl⟩ }
  createdAt := 0
  lastSeen := 0

/-- Entries are added for a group that is there and for one that is not, and the former gets the
instructions of the latter in vain. -/
def twoGroups : List Command :=
  [.addGroup 1 .all [] 0, .addFlow (groupEntry 0 1), .addFlow (groupEntry 1 2),
    .updateFlows { table := 0 } none (groupEntry 0 2).instructions {}]

theorem run_references_twoGroups :
    create {} fresh.selection = .ok fresh ∧
      fresh.tables.additions (fresh.tableCommands twoGroups) < UInt64.size ∧
      (∀ m ∈ fresh.tables.history (fresh.tableCommands twoGroups), ∀ id,
        m.references id < UInt32.size) ∧
      (fresh.run twoGroups).tables.Linked ∧
      ∃ sw', (fresh.run twoGroups).deleteGroup 1 0 = .ok sw' ∧
        (fresh.run twoGroups).tables.Without (fun g => 1 = GroupId.all ∨ g = 1) sw'.tables := by
  have created : create {} fresh.selection = .ok fresh := rfl
  have few : fresh.tables.additions (fresh.tableCommands twoGroups) < UInt64.size := by
    decide +kernel
  have lengths : ∀ m ∈ fresh.tables.history (fresh.tableCommands twoGroups),
      (Tables.namedGroups m.entries).length < UInt32.size := by decide +kernel
  have small : ∀ m ∈ fresh.tables.history (fresh.tableCommands twoGroups), ∀ id,
      m.references id < UInt32.size := by
    intro m inside id
    exact Nat.lt_of_le_of_lt List.count_le_length (lengths m inside)
  obtain ⟨linked, without⟩ := run_references created twoGroups few small
  have deleted : ∃ sw', (fresh.run twoGroups).deleteGroup 1 0 = .ok sw' := ⟨_, rfl⟩
  obtain ⟨sw', deleted⟩ := deleted
  exact ⟨created, few, small, linked, sw', deleted, without 1 0 sw' deleted⟩

end Switch

end FlowSwitch
