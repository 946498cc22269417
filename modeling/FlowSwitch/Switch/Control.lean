import FlowSwitch.Switch.Basic
import FlowSwitch.Tables.Modify
import FlowSwitch.Tables.Remove
import FlowSwitch.Tables.Report

/-!
# Controlling a switch

Changes to flow entries, groups, meters and ports, and what the switch does from
time to time. A change that is refused leaves everything but the lookup counters
as it was and reports nothing.
-/

namespace FlowSwitch

namespace Switch

/-! ## Flow entries -/

def addFlow (sw : Switch) (e : FlowEntry) : Except SwitchError (EntryRef × Switch) :=
  (sw.tables.add e sw.ports.contains).map fun (ref, tables) => (ref, { sw with tables })

/-- Gives entries other instructions and tells how many there were. -/
def updateFlows (sw : Switch) (f : FlowFilter) (priority : Option UInt16) (s : InstructionSet)
    (flags : FlowFlags) : Except SwitchError Nat × Switch :=
  let (result, tables) := sw.tables.update f priority s flags sw.ports.contains
  (result, { sw with tables })

def updateOrAddFlow (sw : Switch) (e : FlowEntry) (cookieMask : UInt64) (strict : Bool) :
    Except SwitchError Unit × Switch :=
  let (result, tables) := sw.tables.updateOrAdd e cookieMask strict sw.ports.contains
  (result, { sw with tables })

def deleteFlows (sw : Switch) (f : FlowFilter) (priority : Option UInt16) (now : Time) : Switch :=
  sw.afterRemoval (sw.tables.delete f priority now)

/-- Removes the entries that have expired. -/
def age (sw : Switch) (now : Time) : Switch :=
  sw.afterRemoval (sw.tables.expire TableId.all now)

/-! ## Groups and meters -/

def addGroup (sw : Switch) (id : GroupId) (type : GroupType) (buckets : List Bucket)
    (now : Time) : Except SwitchError Switch := do
  let groups ← sw.tables.groups.add id type buckets sw.ports.contains now
  return { sw with tables := { sw.tables with groups } }

def updateGroup (sw : Switch) (id : GroupId) (type : GroupType) (buckets : List Bucket) :
    Except SwitchError Switch := do
  let groups ← sw.tables.groups.update id type buckets sw.ports.contains
  return { sw with tables := { sw.tables with groups } }

def deleteGroup (sw : Switch) (id : GroupId) (now : Time) : Except SwitchError Switch :=
  (sw.tables.deleteGroup id now).map sw.afterRemoval

def addMeter (sw : Switch) (id : MeterId) (flags : MeterFlags) (bands : List BandConfig)
    (now : Time) : Except SwitchError Switch := do
  let meters ← sw.tables.meters.add id flags bands now
  return { sw with tables := { sw.tables with meters } }

def replaceMeter (sw : Switch) (id : MeterId) (flags : MeterFlags) (bands : List BandConfig) :
    Except SwitchError Switch := do
  let meters ← sw.tables.meters.replace id flags bands
  return { sw with tables := { sw.tables with meters } }

def deleteMeter (sw : Switch) (id : MeterId) (now : Time) : Except SwitchError Switch :=
  (sw.tables.deleteMeter id now).map sw.afterRemoval

/-! ## Ports -/

def addPort (sw : Switch) (port : PortNo) (d : Device) (now : Time) :
    Except SwitchError (PortNo × Switch) := do
  let (port, ports) ← sw.ports.add port d sw.config.maxSendQueue now
  let sw := { sw with ports }
  return (port, (ports.get? port).elim sw fun p => sw.notifyPort .add (p.describe port))

/-- Takes a port away and gives its device back. -/
def deletePort (sw : Switch) (port : PortNo) : Except SwitchError (Device × Switch) := do
  let (p, ports) ← sw.ports.delete port
  return (p.device, { sw with ports }.notifyPort .delete (p.describe port))

def configurePort (sw : Switch) (port : PortNo) (config mask : BitVec 32) :
    Except SwitchError Switch := do
  let ports ← sw.ports.configure port config mask
  return { sw with ports }

/-- Refreshes the state of every port and reports the changes. -/
def refreshPorts (sw : Switch) : Switch :=
  let (changed, ports) := sw.ports.refresh
  changed.foldl (fun sw port => sw.notifyPort .modify port) { sw with ports }

/-! ## Periodic tasks -/

/-- What the switch does from time to time. -/
inductive Upkeep
  | age
  | refreshPorts
  deriving DecidableEq, Repr

/-- The tasks of the switch, each with its interval. -/
def upkeep (sw : Switch) : List (Upkeep × Time) :=
  [(.age, Time.ofMilliseconds sw.config.agingInterval),
    (.refreshPorts, Time.ofMilliseconds sw.config.portStatusInterval)]

def keepUp (sw : Switch) (now : Time) : Upkeep → Switch
  | .age => sw.age now
  | .refreshPorts => sw.refreshPorts

end Switch

end FlowSwitch
