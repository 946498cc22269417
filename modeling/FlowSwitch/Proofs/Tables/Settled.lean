import FlowSwitch.Proofs.Tables.Entries

/-!
# Tables without their counters

Packets and questions count in the tables and leave everything else as it was. What is
left when every counter is set back to zero says whether two states of the tables
differ in anything that was configured.
-/

namespace FlowSwitch

def FlowEntry.settled (e : FlowEntry) : FlowEntry := { e with counter := {}, lastSeen := 0 }

def FlowTable.settled (t : FlowTable) : FlowTable :=
  { t with entries := t.entries.map (·.settled), lookups := 0, matched := 0 }

def Group.settled (g : Group) : Group :=
  { g with counter := {}, buckets := g.buckets.map ({ · with counter := {} }) }

def Meter.settled (m : Meter) : Meter :=
  { m with
    counter := {}, measuredAt := 0, estimate := 0.0
    bands := m.bands.map fun b => { config := b.config } }

/-- The tables with every counter at zero. -/
def Tables.settled (t : Tables) : Tables where
  flow := t.flow.map (·.settled)
  groups := t.groups.map fun _ g => g.settled
  meters := t.meters.map fun _ m => m.settled
  newestEntry := t.newestEntry

namespace Registry

variable {κ ν : Type} [DecidableEq κ]

/-- A change that does not show after `f` does not show in the whole registry. -/
theorem map_modify_of_eq (r : Registry κ ν) (k : κ) {change : ν → ν} {f : κ → ν → ν}
    (same : ∀ v, f k (change v) = f k v) : (r.modify k change).map f = r.map f := by
  obtain ⟨l⟩ := r
  simp only [modify, map, List.map_map, Registry.mk.injEq]
  refine List.map_congr_left fun e _ => ?_
  by_cases h : e.1 = k
  · simp only [Function.comp_apply, if_pos h, Prod.mk.injEq, true_and]
    rw [h]
    exact same e.2
  · simp [h]

omit [DecidableEq κ] in
@[simp]
theorem keys_map (r : Registry κ ν) (f : κ → ν → ν) : (r.map f).keys = r.keys := by
  simp [map, keys]

end Registry

namespace Tables

theorem entry?_settled (t : Tables) (ref : EntryRef) :
    t.settled.entry? ref = (t.entry? ref).map (·.settled) := by
  have table (id : TableId) : t.settled.flowTable? id = (t.flowTable? id).map (·.settled) := by
    simp [flowTable?, settled]
  have inside (f : FlowTable) : f.settled.find? ref.id = (f.find? ref.id).map (·.settled) :=
    List.find?_map
  rw [entry?_eq_bind, entry?_eq_bind, table]
  cases t.flowTable? ref.table with
  | none => rfl
  | some f => exact inside f

theorem isSome_entry?_of_settled {t t' : Tables} (same : t'.settled = t.settled) (ref : EntryRef) :
    (t'.entry? ref).isSome = (t.entry? ref).isSome := by
  have shown := congrArg (fun t => (t.entry? ref).isSome) same
  simpa [entry?_settled] using shown

theorem settled_modifyFlow (t : Tables) (id : TableId) {change : FlowTable → FlowTable}
    (same : ∀ f, t.flowTable? id = some f → (change f).settled = f.settled) :
    (t.modifyFlow id change).settled = t.settled := by
  simp only [settled, t.map_modifyFlow id same, groups_modifyFlow, meters_modifyFlow,
    newestEntry_modifyFlow]

theorem settled_countLookup (t : Tables) (id : TableId) (found : Nat) :
    (t.modifyFlow id (·.countLookup found)).settled = t.settled :=
  t.settled_modifyFlow id fun _ _ => rfl

theorem settled_modifyEntry (t : Tables) (ref : EntryRef) {change : FlowEntry → FlowEntry}
    (same : ∀ e, (change e).settled = e.settled) :
    (t.modifyEntry ref change).settled = t.settled := by
  refine t.settled_modifyFlow ref.table fun f _ => ?_
  simp only [FlowTable.settled, f.map_modify ref.id change _ same]
  rfl

theorem settled_classify (t : Tables) (table : TableId) (packet : Match) :
    (t.classify table packet).2.settled = t.settled := t.settled_countLookup table _

/-- Asking one table after the other, induction on the tables that are left. -/
theorem settled_queryEach (t : Tables) (q : Query) (ids : List TableId) :
    (t.queryEach q ids).2.settled = t.settled := by
  induction ids generalizing t with
  | nil => rfl
  | cons id ids ih =>
    simp only [queryEach]
    split
    · exact t.settled_countLookup id _
    · rw [ih, settled_countLookup]

theorem settled_select (t : Tables) (f : FlowFilter) (priority : Option UInt16) :
    (t.select f priority).2.settled = t.settled := t.settled_queryEach _ _

end Tables

end FlowSwitch
