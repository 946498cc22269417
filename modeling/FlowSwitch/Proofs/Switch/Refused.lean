import FlowSwitch.Proofs.Port.Stepwise
import FlowSwitch.Proofs.Switch.References
import FlowSwitch.Proofs.Tables.Stepwise

/-!
# Changes that are refused

A change of the controller goes through the tables or the ports step by step, and what it did is
reported in the end. If a step fails, then the steps before it were checks and lookups: but for
the counts of lookups the switch is as it was, and nothing was delivered.
-/

namespace FlowSwitch

/-- The error that something ended with, if it did. -/
def error? {ε α : Type} : Except ε α → Option ε
  | .ok _ => none
  | .error e => some e

namespace Switch

/-- A switch without the counts of lookups. -/
def unasked (sw : Switch) : Switch := { sw with tables := sw.tables.unasked }

/-- What the switch refuses a change of the controller with. Deleting entries is never refused. -/
def refusal? (sw : Switch) : Command → Option SwitchError
  | .addFlow e => error? (sw.addFlow e)
  | .updateFlows f priority s flags => error? (sw.updateFlows f priority s flags).1
  | .updateOrAddFlow e cookieMask strict => error? (sw.updateOrAddFlow e cookieMask strict).1
  | .addGroup id type buckets now => error? (sw.addGroup id type buckets now)
  | .updateGroup id type buckets => error? (sw.updateGroup id type buckets)
  | .deleteGroup id now => error? (sw.deleteGroup id now)
  | .addMeter id flags bands now => error? (sw.addMeter id flags bands now)
  | .replaceMeter id flags bands => error? (sw.replaceMeter id flags bands)
  | .deleteMeter id now => error? (sw.deleteMeter id now)
  | .addPort port device now => error? (sw.addPort port device now)
  | .deletePort port => error? (sw.deletePort port)
  | .configurePort port config mask => error? (sw.configurePort port config mask)
  | .deleteFlows .. | .keepUp .. | .handle .. | .receive .. | .packetOut .. | .inTables _
  | .outside .. => none

/-! ## Step by step -/

variable {α : Type}

def inTables (p : Steps Tables α) : Steps Switch α :=
  Steps.within (·.tables) ({ · with tables := · }) p

def inGroups (p : Steps GroupTable α) : Steps Switch α :=
  inTables (Steps.within (·.groups) ({ · with groups := · }) p)

def inMeters (p : Steps MeterTable α) : Steps Switch α :=
  inTables (Steps.within (·.meters) ({ · with meters := · }) p)

def inPorts (p : Steps PortTable α) : Steps Switch α :=
  Steps.within (·.ports) ({ · with ports := · }) p

/-- The steps of a change of the controller. Anything else is one step here. -/
def steps : Command → Steps Switch Unit
  | .addFlow e => do
    let sw ← get
    let _ ← inTables (Tables.addSteps e sw.ports.contains)
    return
  | .updateFlows f priority s flags => do
    let sw ← get
    let _ ← inTables (Tables.updateSteps f priority s flags sw.ports.contains)
    return
  | .updateOrAddFlow e cookieMask strict => do
    let sw ← get
    inTables (Tables.updateOrAddSteps e cookieMask strict sw.ports.contains)
  | .deleteFlows f priority now => do
    let removed ← inTables (modifyGet (·.delete f priority now))
    modify (·.notifyRemoved removed)
  | .addGroup id type buckets now => do
    let sw ← get
    inGroups (GroupTable.addSteps id type buckets sw.ports.contains now)
  | .updateGroup id type buckets => do
    let sw ← get
    inGroups (GroupTable.updateSteps id type buckets sw.ports.contains)
  | .deleteGroup id now => do
    let removed ← inTables (Tables.deleteGroupSteps id now)
    modify (·.notifyRemoved removed)
  | .addMeter id flags bands now => inMeters (MeterTable.addSteps id flags bands now)
  | .replaceMeter id flags bands => inMeters (MeterTable.replaceSteps id flags bands)
  | .deleteMeter id now => do
    let removed ← inTables (Tables.deleteMeterSteps id now)
    modify (·.notifyRemoved removed)
  | .addPort port device now => do
    let sw ← get
    let port ← inPorts (PortTable.addSteps port device sw.config.maxSendQueue now)
    modify fun sw => (sw.ports.get? port).elim sw fun p => sw.notifyPort .add (p.describe port)
  | .deletePort port => do
    let p ← inPorts (PortTable.deleteSteps port)
    modify (·.notifyPort .delete (p.describe port))
  | .configurePort port config mask => inPorts (PortTable.configureSteps port config mask)
  | c => modify (·.step c)

section Parts

variable {p : Steps Tables α} {sw : Switch}

theorem inTables_outcome {x : Except SwitchError (α × Tables)}
    (told : p sw.tables = Steps.outcome sw.tables x) :
    inTables p sw = Steps.outcome sw (x.map fun (a, tables) => (a, { sw with tables })) :=
  Steps.within_outcome rfl told

theorem inTables_result {x : Except SwitchError α × Tables}
    (told : p sw.tables = Steps.result x) :
    inTables p sw = Steps.result (x.1, { sw with tables := x.2 }) := Steps.within_result told

theorem inGroups_outcome {p : Steps GroupTable α} {x : Except SwitchError (α × GroupTable)}
    (told : p sw.tables.groups = Steps.outcome sw.tables.groups x) :
    inGroups p sw = Steps.outcome sw
      (x.map fun (a, groups) => (a, { sw with tables := { sw.tables with groups } })) := by
  rw [inGroups, inTables_outcome (Steps.within_outcome rfl told)]
  cases x <;> rfl

theorem inMeters_outcome {p : Steps MeterTable α} {x : Except SwitchError (α × MeterTable)}
    (told : p sw.tables.meters = Steps.outcome sw.tables.meters x) :
    inMeters p sw = Steps.outcome sw
      (x.map fun (a, meters) => (a, { sw with tables := { sw.tables with meters } })) := by
  rw [inMeters, inTables_outcome (Steps.within_outcome rfl told)]
  cases x <;> rfl

theorem inPorts_outcome {p : Steps PortTable α} {x : Except SwitchError (α × PortTable)}
    (told : p sw.ports = Steps.outcome sw.ports x) :
    inPorts p sw = Steps.outcome sw (x.map fun (a, ports) => (a, { sw with ports })) :=
  Steps.within_outcome rfl told

end Parts

/-- A change that is carried out step by step comes to what its function leaves, and to the error
of that function. -/
theorem steps_apply (c : Command) (sw : Switch) :
    steps c sw = Steps.ending (sw.step c) (sw.refusal? c) := by
  cases c with
  | addFlow e =>
    simp only [steps, Steps.bind_apply, Steps.get_apply,
      inTables_outcome (Tables.addSteps_apply e sw.ports.contains sw.tables), step, refusal?,
      addFlow]
    cases sw.tables.add e sw.ports.contains <;> rfl
  | updateFlows f priority s flags =>
    simp only [steps, Steps.bind_apply, Steps.get_apply, step, refusal?, updateFlows,
      inTables_result (Tables.updateSteps_apply f priority s flags sw.ports.contains sw.tables)]
    cases (sw.tables.update f priority s flags sw.ports.contains).1 <;> rfl
  | updateOrAddFlow e cookieMask strict =>
    simp only [steps, Steps.bind_apply, Steps.get_apply, step, refusal?, updateOrAddFlow,
      inTables_result
        (Tables.updateOrAddSteps_apply e cookieMask strict sw.ports.contains sw.tables)]
    cases (sw.tables.updateOrAdd e cookieMask strict sw.ports.contains).1 <;> rfl
  | deleteFlows f priority now => rfl
  | addGroup id type buckets now =>
    simp only [steps, Steps.bind_apply, Steps.get_apply, step, refusal?, addGroup,
      inGroups_outcome
        (GroupTable.addSteps_apply id type buckets sw.ports.contains now sw.tables.groups)]
    cases sw.tables.groups.add id type buckets sw.ports.contains now <;> rfl
  | updateGroup id type buckets =>
    simp only [steps, Steps.bind_apply, Steps.get_apply, step, refusal?, updateGroup,
      inGroups_outcome
        (GroupTable.updateSteps_apply id type buckets sw.ports.contains sw.tables.groups)]
    cases sw.tables.groups.update id type buckets sw.ports.contains <;> rfl
  | deleteGroup id now =>
    simp only [steps, Steps.bind_apply, step, refusal?, deleteGroup,
      inTables_outcome (Tables.deleteGroupSteps_apply id now sw.tables)]
    cases sw.tables.deleteGroup id now <;> rfl
  | addMeter id flags bands now =>
    simp only [steps, step, refusal?, addMeter,
      inMeters_outcome (MeterTable.addSteps_apply id flags bands now sw.tables.meters)]
    cases sw.tables.meters.add id flags bands now <;> rfl
  | replaceMeter id flags bands =>
    simp only [steps, step, refusal?, replaceMeter,
      inMeters_outcome (MeterTable.replaceSteps_apply id flags bands sw.tables.meters)]
    cases sw.tables.meters.replace id flags bands <;> rfl
  | deleteMeter id now =>
    simp only [steps, Steps.bind_apply, step, refusal?, deleteMeter,
      inTables_outcome (Tables.deleteMeterSteps_apply id now sw.tables)]
    cases sw.tables.deleteMeter id now <;> rfl
  | addPort port device now =>
    simp only [steps, Steps.bind_apply, Steps.get_apply, step, refusal?, addPort,
      inPorts_outcome (PortTable.addSteps_apply port device sw.config.maxSendQueue now sw.ports)]
    cases sw.ports.add port device sw.config.maxSendQueue now <;> rfl
  | deletePort port =>
    simp only [steps, Steps.bind_apply, step, refusal?, deletePort,
      inPorts_outcome (PortTable.deleteSteps_apply port sw.ports)]
    cases sw.ports.delete port <;> rfl
  | configurePort port config mask =>
    simp only [steps, step, refusal?, configurePort,
      inPorts_outcome (PortTable.configureSteps_apply port config mask sw.ports)]
    cases sw.ports.configure port config mask <;> rfl
  | keepUp now task => rfl
  | handle port f now busy => rfl
  | receive port f now busy => rfl
  | packetOut buffer port actions f now => rfl
  | inTables c => rfl
  | outside ports notifier => rfl

/-! ## What is left -/

theorem unlessRefused_of_error? {ε : Type} {before : α} {x : Except ε α} {err : ε}
    (refused : error? x = some err) : unlessRefused before x = before := by
  cases x with
  | ok a => cases refused
  | error e => rfl

theorem error?_map {ε β : Type} (x : Except ε α) (f : α → β) : error? (x.map f) = error? x := by
  cases x <;> rfl

theorem eq_error_of_error? {ε : Type} {x : Except ε α} {err : ε} (refused : error? x = some err) :
    x = .error err := by
  cases x with
  | ok a => cases refused
  | error e =>
    obtain rfl := Option.some.inj refused
    rfl

/-- A change that is refused moves nothing, or has only asked for entries. -/
theorem unasked_step {sw : Switch} {c : Command} {err : SwitchError}
    (refused : sw.refusal? c = some err) : (sw.step c).unasked = sw.unasked := by
  cases c with
  | updateFlows f priority s flags =>
    exact congrArg ({ sw with tables := · }) (Tables.unasked_update (eq_error_of_error? refused))
  | updateOrAddFlow e cookieMask strict =>
    exact congrArg ({ sw with tables := · })
      (Tables.unasked_updateOrAdd (eq_error_of_error? refused))
  | addFlow e =>
    exact congrArg unasked (unlessRefused_of_error? ((error?_map _ _).trans refused))
  | addPort port device now =>
    exact congrArg unasked (unlessRefused_of_error? ((error?_map _ _).trans refused))
  | deletePort port =>
    exact congrArg unasked (unlessRefused_of_error? ((error?_map _ _).trans refused))
  | addGroup | updateGroup | deleteGroup | addMeter | replaceMeter | deleteMeter | configurePort =>
    exact congrArg unasked (unlessRefused_of_error? refused)
  | deleteFlows | keepUp | handle | receive | packetOut | inTables | outside => cases refused

/-- In any state, a change of the controller that is carried out step by step comes to the step of
the switch; and if it is refused, then that step leaves everything but the counts of lookups: the
entries with their order and counters, groups, meters, ports, and what was delivered. -/
theorem refused_unmoved (sw : Switch) (c : Command) :
    steps c sw = Steps.ending (sw.step c) (sw.refusal? c) ∧
      ∀ err, sw.refusal? c = some err → (sw.step c).unasked = sw.unasked :=
  ⟨steps_apply c sw, fun _ refused => unasked_step refused⟩

/-- Entries in the first two tables. -/
def twoTables : List Command :=
  [.addGroup 1 .all [] 0, .addFlow (groupEntry 0 1), .addFlow (groupEntry 1 1)]

/-- Sends the packets of entries to the second table, which entries of that table cannot do. -/
def toSecond (table : TableId) : Command := .updateFlows { table } none { gotoTable := some 1 } {}

/-- The entry of the first table alone could get these instructions, before those of the second
table are looked at. -/
theorem refused_unmoved_toSecond :
    (fresh.run twoTables).refusal? (toSecond 0) = none ∧
      (fresh.run twoTables).refusal? (toSecond TableId.all)
        = some (.badInstruction .badTableId) ∧
      steps (toSecond TableId.all) (fresh.run twoTables) = .error (.badInstruction .badTableId)
        ((fresh.run twoTables).step (toSecond TableId.all)) ∧
      ((fresh.run twoTables).step (toSecond TableId.all)).unasked
        = (fresh.run twoTables).unasked := by
  have accepted : (fresh.run twoTables).refusal? (toSecond 0) = none := by decide +kernel
  have refused : (fresh.run twoTables).refusal? (toSecond TableId.all)
      = some (.badInstruction .badTableId) := by decide +kernel
  obtain ⟨carried, unmoved⟩ := refused_unmoved (fresh.run twoTables) (toSecond TableId.all)
  rw [refused] at carried
  exact ⟨accepted, refused, carried, unmoved _ refused⟩

end Switch

end FlowSwitch
