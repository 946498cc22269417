import FlowSwitch.Proofs.Forward.Checked
import FlowSwitch.Proofs.Switch.Chains

/-!
# What a switch owes its passes

Entries and groups are checked when they are installed, and passes rely on that much later,
after groups got other types and entries other instructions. However a switch got where it
is, what passes take for granted is there.
-/

namespace FlowSwitch

namespace Switch

open Run

/-- What passes over some tables take for granted, and with right. -/
structure Granted (t : Tables) (s : Setting) : Prop where
  /-- No check fails, whatever it would do to the pass. -/
  process : ∀ fault p, Stands t p → ((faults fault).process s).on p = (Run.process s).on p
  carryOut : ∀ fault actions p, Stands t p →
    ((faults fault).carryOut s actions).on p = (Run.carryOut s actions).on p
  /-- Entries are found where they say that they are, and lead to later tables that there are. -/
  entries : ∀ table f, t.flowTable? table = some f → ∀ e ∈ f.entries,
    e.ref.table = table ∧ (t.entry? e.ref).isSome = true ∧
      ∀ next, e.instructions.gotoTable = some next → table < next ∧ next ≤ TableId.last
  writes : ∀ (set : ActionSet) (l : ActionList) (origin : Option EntryRef),
    ∃ set', set.write l origin = .ok set'
  groups : ∀ id g, t.groups.get? id = some g →
    g.type ≠ .fastFailover ∧ (g.type = .indirect → g.buckets.length = 1)
  /-- A group that is refused is refused because of an action in one of its buckets. -/
  refused : ∀ depth origin chain id e p q, Stands t p →
    (perform s (resubmit s depth) origin chain (.group id)).on p = (.error (.refused e), q) →
    ∃ rest, chain = rest + 1 ∧ ∃ l ∈ t.bucketLists id, ∃ a ∈ l.actions, ∃ p' q', Stands t p' ∧
      (perform s (resubmit s depth) origin rest a).on p' = (.error (.refused e), q')

theorem granted {t : Tables} (orderly : Orderly t) (s : Setting) : Granted t s where
  process fault p stands := (lockstep_faults orderly fault s).simulation.process.on_eq stands
  carryOut fault actions p stands :=
    have steps := (lockstep_faults orderly fault s).simulation
    (steps.carryOut actions fun a _ => Bond.permits_alone a).on_eq stands
  entries table f found e inside :=
    ⟨orderly.own table f found e inside, Tables.isSome_entry?_of_own orderly.own found inside,
      orderly.onward table f found e inside⟩
  writes := ActionSet.exists_write
  groups id g found := by
    have plan : t.plan? id = some g.plan := by rw [Tables.plan?, found]; rfl
    have sound := (orderly.planned id g.plan plan).2
    refine ⟨sound.ne_fastFailover, fun single => ?_⟩
    have one := sound.single single
    simpa [Group.plan] using one
  refused depth origin chain id e p q stands ran :=
    exists_of_group_refused ((steps_keepsSettled s).resubmit depth)
      ((steps_keepsView s).resubmit depth) orderly.planned stands ran

theorem orderly_run {config : Config} {selection : Selection} {sw : Switch}
    (created : create config selection = .ok sw) (cs : List Command) :
    Orderly (sw.run cs).tables := by
  have start := tables_create created
  have reached : (sw.run cs).tables = (Tables.empty config.maxFlowEntries).run
      (sw.tableCommands cs) := by
    rw [run_tables, start]
  obtain ⟨l, moves, -⟩ :=
    (Tables.empty config.maxFlowEntries).run_moves (sw.tableCommands cs)
  constructor
  · rw [reached]
    exact (Tables.planned_empty config.maxFlowEntries).run _
  · rw [reached]
    exact Tables.onward_run config.maxFlowEntries _
  · rw [reached]
    exact moves.each FlowTable.kept_own (fun _ _ _ _ _ => trivial)
      (FlowTable.own_empty config.maxFlowEntries)

/-- However a switch got where it is, refused commands included, frames with a view that describes
their bytes meet none of the faults that passes end at, and groups fail only where actions in
their buckets do. -/
theorem run_granted {config : Config} {selection : Selection} {sw : Switch}
    (created : create config selection = .ok sw) (cs : List Command) (s : Setting) :
    Granted (sw.run cs).tables s := granted (orderly_run created cs) s

/-- A group sends packets back to the first table, where an entry sends them to the group. -/
def roundabout : List Command :=
  [.addGroup 1 .indirect [{ actions := ⟨[.output PortNo.table 0], by decide⟩ }] 0,
    .addFlow (groupEntry 0 1)]

/-- The group is refused when the walks are nested too deep. -/
theorem run_granted_roundabout :
    create {} fresh.selection = .ok fresh ∧
      (∀ s, Granted (fresh.run roundabout).tables s) ∧
      ∃ g, prepare (arriving blank) (some 1) = .ok g ∧
        Stands (fresh.run roundabout).tables ((fresh.run roundabout).start g) ∧
        (((faults fun _ => .endless).process (fresh.setting 0)).on
          ((fresh.run roundabout).start g)).1 = .error (.refused .failed) ∧
        ∃ a ∈ [Action.output PortNo.table 0], ∃ p q, Stands (fresh.run roundabout).tables p ∧
          (perform (fresh.setting 0) (resubmit (fresh.setting 0) 8) none 0 a).on p
            = (.error (.refused .failed), q) := by
  have created : create {} fresh.selection = .ok fresh := rfl
  have granted := run_granted created roundabout
  obtain ⟨g, prepared⟩ := exists_prepare blank (some 1)
  have stands : Stands (fresh.run roundabout).tables ((fresh.run roundabout).start g) :=
    ⟨rfl, consistent_of_prepare (.inl rfl) prepared⟩
  have ended : (prepare (arriving blank) (some 1)).map (fun g =>
      (((Run.process (fresh.setting 0)).on ((fresh.run roundabout).start g)).1,
        ((perform (fresh.setting 0) (resubmit (fresh.setting 0) 8) none 1 (.group 1)).on
          ((fresh.run roundabout).start g)).1))
      = .ok (.error (.refused .failed), .error (.refused .failed)) := by decide +kernel
  rw [prepared] at ended
  obtain ⟨processed, failed⟩ := Prod.mk.inj (Except.ok.inj ended)
  have lists : (fresh.run roundabout).tables.bucketLists 1
      = [⟨[.output PortNo.table 0], by decide⟩] := by decide +kernel
  obtain ⟨rest, one, l, bucket, a, inside, p, q, here, refused⟩ :=
    (granted (fresh.setting 0)).refused 8 none 1 1 .failed _ _ stands (Prod.ext failed rfl)
  rw [lists, List.mem_singleton] at bucket
  subst bucket
  obtain rfl : rest = 0 := by omega
  refine ⟨created, granted, g, prepared, stands, ?_, a, inside, p, q, here, refused⟩
  rw [(granted (fresh.setting 0)).process _ _ stands]
  exact processed

end Switch

end FlowSwitch
