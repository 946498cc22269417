import FlowSwitch.Proofs.Flow.Instruction
import FlowSwitch.Switch.Command

/-!
# The tables of a switch

What commands do to a switch shows in its tables as what the commands that reach the
tables do there. What holds of tables after any commands holds of the tables of a switch.
-/

namespace FlowSwitch

theorem Tables.run_append (t : Tables) (cs ds : List Tables.Command) :
    t.run (cs ++ ds) = (t.run cs).run ds := List.foldl_append

namespace Switch

variable {sw : Switch}

/-- Reporting ports leaves the tables alone. Induction on the ports. -/
theorem tables_notifyPorts (reason : PortReason) (ports : List PortDescription) :
    (ports.foldl (fun sw port => sw.notifyPort reason port) sw).tables = sw.tables := by
  induction ports generalizing sw with
  | nil => rfl
  | cons port ports ih => exact ih

/-- A change that may be refused shows in what it leaves. -/
theorem tables_unlessRefused {ε : Type} {changed : Except ε Switch} {inTables : Except ε Tables}
    (same : changed.map (·.tables) = inTables) :
    (unlessRefused sw changed).tables = unlessRefused sw.tables inTables := by
  subst same
  cases changed <;> rfl

theorem tables_unlessRefused_of_kept {ε : Type} {changed : Except ε Switch}
    (kept : ∀ sw', changed = .ok sw' → sw'.tables = sw.tables) :
    (unlessRefused sw changed).tables = sw.tables :=
  unlessRefused_of (P := fun left : Switch => left.tables = sw.tables) rfl kept

theorem tables_addPort {port : PortNo} {d : Device} {now : Time} {answer : PortNo × Switch}
    (added : sw.addPort port d now = .ok answer) : answer.2.tables = sw.tables := by
  obtain ⟨⟨port, ports⟩, -, done⟩ := bind_eq_ok.mp added
  obtain rfl := Except.ok.inj done
  cases ports.get? port <;> rfl

theorem tables_deletePort {port : PortNo} {answer : Device × Switch}
    (deleted : sw.deletePort port = .ok answer) : answer.2.tables = sw.tables := by
  obtain ⟨⟨p, ports⟩, -, done⟩ := bind_eq_ok.mp deleted
  obtain rfl := Except.ok.inj done
  rfl

theorem tables_configurePort {port : PortNo} {config mask : BitVec 32} {sw' : Switch}
    (configured : sw.configurePort port config mask = .ok sw') : sw'.tables = sw.tables := by
  obtain ⟨ports, -, done⟩ := bind_eq_ok.mp configured
  obtain rfl := Except.ok.inj done
  rfl

theorem tables_handle (port : PortNo) (f : Frame) (now : Time) (busy : Bool) :
    (sw.handle port f now busy).2.tables
      = sw.tables.run (sw.framePass port f now busy).toList := by
  unfold handle framePass
  cases prepare f port with
  | error e => rfl
  | ok f => cases busy <;> rfl

theorem tables_packetFor {buffer : UInt32} {f : Option Frame} {f' : Frame} {sw' : Switch}
    (found : sw.packetFor buffer f = .ok (f', sw')) : sw'.tables = sw.tables := by
  unfold packetFor at found
  split at found
  · split at found
    · cases found; rfl
    · cases found
  · split at found
    · cases found; rfl
    · cases found

theorem tables_packetOut (buffer : UInt32) (port : PortNo) (actions : ActionList)
    (f : Option Frame) (now : Time) :
    (sw.packetOut buffer port actions f now).2.tables
      = sw.tables.run (sw.packetPass buffer port actions f now).toList := by
  unfold packetOut packetPass
  cases found : sw.packetFor buffer f with
  | error e => rfl
  | ok answer =>
    have same := tables_packetFor found
    cases prepared : prepare answer.1 (if port.isSource then some port else none) with
    | error e =>
      simp only [prepared]
      exact same
    | ok f =>
      simp only [prepared]
      rw [← same]
      rfl

theorem step_tables (sw : Switch) (c : Command) :
    (sw.step c).tables = sw.tables.run (sw.tableCommand? c).toList := by
  cases c with
  | addFlow e =>
    refine tables_unlessRefused ?_
    simp only [addFlow]
    cases sw.tables.add e sw.ports.contains <;> rfl
  | updateFlows f priority s flags => rfl
  | updateOrAddFlow e cookieMask strict => rfl
  | deleteFlows f priority now => rfl
  | addGroup id type buckets now =>
    refine tables_unlessRefused ?_
    simp only [addGroup]
    cases sw.tables.groups.add id type buckets sw.ports.contains now <;> rfl
  | updateGroup id type buckets =>
    refine tables_unlessRefused ?_
    simp only [updateGroup]
    cases sw.tables.groups.update id type buckets sw.ports.contains <;> rfl
  | deleteGroup id now =>
    refine tables_unlessRefused ?_
    simp only [deleteGroup]
    cases sw.tables.deleteGroup id now <;> rfl
  | addMeter id flags bands now =>
    refine tables_unlessRefused ?_
    simp only [addMeter]
    cases sw.tables.meters.add id flags bands now <;> rfl
  | replaceMeter id flags bands =>
    refine tables_unlessRefused ?_
    simp only [replaceMeter]
    cases sw.tables.meters.replace id flags bands <;> rfl
  | deleteMeter id now =>
    refine tables_unlessRefused ?_
    simp only [deleteMeter]
    cases sw.tables.deleteMeter id now <;> rfl
  | addPort port device now =>
    refine tables_unlessRefused_of_kept fun sw' changed => ?_
    obtain ⟨answer, added, rfl⟩ := map_eq_ok.mp changed
    exact tables_addPort added
  | deletePort port =>
    refine tables_unlessRefused_of_kept fun sw' changed => ?_
    obtain ⟨answer, deleted, rfl⟩ := map_eq_ok.mp changed
    exact tables_deletePort deleted
  | configurePort port config mask =>
    exact tables_unlessRefused_of_kept fun sw' changed => tables_configurePort changed
  | keepUp now task =>
    cases task with
    | age => rfl
    | refreshPorts => exact tables_notifyPorts ..
  | handle port f now busy => exact tables_handle port f now busy
  | receive port f now busy =>
    simp only [step, receive, tableCommand?]
    cases sw.ports.accepts port with
    | true => exact tables_handle port (arriving f) now busy
    | false => rfl
  | packetOut buffer port actions f now => exact tables_packetOut buffer port actions f now
  | inTables c => rfl
  | outside ports notifier => rfl

theorem run_tables (sw : Switch) (cs : List Command) :
    (sw.run cs).tables = sw.tables.run (sw.tableCommands cs) := by
  induction cs generalizing sw with
  | nil => rfl
  | cons c cs ih =>
    simp only [tableCommands, Tables.run_append, ← step_tables]
    exact ih (sw.step c)

end Switch

end FlowSwitch
