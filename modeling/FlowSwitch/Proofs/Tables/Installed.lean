import FlowSwitch.Proofs.Tables.Settled

/-!
# What is installed

What a pass finds in the tables, counters aside, is what was installed before it began.
-/

namespace FlowSwitch

namespace Tables

variable {t t' : Tables}

theorem entries_settled (t : Tables) : t.settled.entries = t.entries.map (·.settled) := by
  simp only [entries, settled, Vector.toList_map, List.flatMap_map, List.map_flatMap]
  rfl

theorem exists_mem_entries_of_settled (same : t'.settled = t.settled) {e : FlowEntry}
    (inside : e ∈ t'.entries) : ∃ e₀ ∈ t.entries, e₀.instructions = e.instructions := by
  have entries : t'.entries.map (·.settled) = t.entries.map (·.settled) := by
    rw [← entries_settled, ← entries_settled, same]
  have shown : e.settled ∈ t.entries.map (·.settled) := entries ▸ List.mem_map_of_mem inside
  obtain ⟨e₀, among, equal⟩ := List.mem_map.mp shown
  have instructions : e₀.settled.instructions = e.settled.instructions := by rw [equal]
  exact ⟨e₀, among, instructions⟩

theorem keys_groups_of_settled (same : t'.settled = t.settled) :
    t'.groups.keys = t.groups.keys := by
  have groups : t'.settled.groups.keys = t.settled.groups.keys := by rw [same]
  simpa only [settled, Registry.keys_map] using groups

theorem size_groups_of_settled (same : t'.settled = t.settled) :
    t'.groups.size = t.groups.size := by
  have lengths := congrArg List.length (keys_groups_of_settled same)
  simpa [Registry.keys, Registry.size] using lengths

theorem contains_groups_of_settled (same : t'.settled = t.settled) (id : GroupId) :
    t'.groups.contains id = t.groups.contains id := by
  rw [Bool.eq_iff_iff, Registry.contains_iff_mem_keys, Registry.contains_iff_mem_keys,
    keys_groups_of_settled same]

/-- The lists of actions in the buckets of a group. -/
def bucketLists (t : Tables) (id : GroupId) : List ActionList :=
  ((t.groups.get? id).map fun g => g.buckets.map (·.actions)).getD []

theorem bucketLists_of_settled (same : t'.settled = t.settled) (id : GroupId) :
    t'.bucketLists id = t.bucketLists id := by
  have whole (t : Tables) : t.bucketLists id
      = ((t.settled.groups.get? id).map fun g => g.buckets.map (·.actions)).getD [] := by
    simp only [bucketLists, settled, Registry.get?_map, Option.map_map]
    congr 2
    funext g
    simp [Group.settled, Function.comp_def]
  rw [whole, whole, same]

theorem mem_entries_of_classify {table : TableId} {packet : Match} {e : FlowEntry}
    (hit : (t.classify table packet).1 = some e) :
    ∃ f, t.flowTable? table = some f ∧ e ∈ f.entries := by
  obtain ⟨f, found, chosen⟩ := Option.bind_eq_some_iff.mp hit
  exact ⟨f, found, List.mem_of_find?_eq_some chosen⟩

/-- Whether some entry or bucket sends to a port number. -/
def OutputsTo (t : Tables) (port : PortNo) : Prop :=
  (∃ e ∈ t.entries, e.instructions.outputsTo port = true) ∨
    ∃ id, ∃ l ∈ t.bucketLists id, l.outputsTo port = true

end Tables

theorem ActionList.outputsTo_of_mem {l : ActionList} {port : PortNo} {maxLength : UInt16}
    (inside : .output port maxLength ∈ l.actions) : l.outputsTo port = true :=
  List.any_eq_true.mpr ⟨_, inside, by simp⟩

end FlowSwitch
