import FlowSwitch.Switch.Control
import FlowSwitch.Switch.Packet
import FlowSwitch.Tables.Command

/-!
# What can be done to a switch

Every change of the controller, every frame and every periodic task, as one command each.
Most of them come down to a command to the tables; the rest leaves these alone.
-/

namespace FlowSwitch

namespace Switch

inductive Command
  | addFlow (e : FlowEntry)
  | updateFlows (f : FlowFilter) (priority : Option UInt16) (s : InstructionSet)
      (flags : FlowFlags)
  | updateOrAddFlow (e : FlowEntry) (cookieMask : UInt64) (strict : Bool)
  | deleteFlows (f : FlowFilter) (priority : Option UInt16) (now : Time)
  | addGroup (id : GroupId) (type : GroupType) (buckets : List Bucket) (now : Time)
  | updateGroup (id : GroupId) (type : GroupType) (buckets : List Bucket)
  | deleteGroup (id : GroupId) (now : Time)
  | addMeter (id : MeterId) (flags : MeterFlags) (bands : List BandConfig) (now : Time)
  | replaceMeter (id : MeterId) (flags : MeterFlags) (bands : List BandConfig)
  | deleteMeter (id : MeterId) (now : Time)
  | addPort (port : PortNo) (device : Device) (now : Time)
  | deletePort (port : PortNo)
  | configurePort (port : PortNo) (config mask : BitVec 32)
  | keepUp (now : Time) (task : Upkeep)
  | handle (port : PortNo) (f : Frame) (now : Time) (busy : Bool)
  | receive (port : PortNo) (f : Frame) (now : Time) (busy : Bool)
  | packetOut (buffer : UInt32) (port : PortNo) (actions : ActionList) (f : Option Frame)
      (now : Time)
  /-- Something that is done to the tables alone. -/
  | inTables (c : Tables.Command)
  /-- Something that devices do, or the controller with the events delivered to it. -/
  | outside (ports : PortTable) (notifier : Notifier)

def step (sw : Switch) : Command → Switch
  | .addFlow e => unlessRefused sw ((sw.addFlow e).map (·.2))
  | .updateFlows f priority s flags => (sw.updateFlows f priority s flags).2
  | .updateOrAddFlow e cookieMask strict => (sw.updateOrAddFlow e cookieMask strict).2
  | .deleteFlows f priority now => sw.deleteFlows f priority now
  | .addGroup id type buckets now => unlessRefused sw (sw.addGroup id type buckets now)
  | .updateGroup id type buckets => unlessRefused sw (sw.updateGroup id type buckets)
  | .deleteGroup id now => unlessRefused sw (sw.deleteGroup id now)
  | .addMeter id flags bands now => unlessRefused sw (sw.addMeter id flags bands now)
  | .replaceMeter id flags bands => unlessRefused sw (sw.replaceMeter id flags bands)
  | .deleteMeter id now => unlessRefused sw (sw.deleteMeter id now)
  | .addPort port device now => unlessRefused sw ((sw.addPort port device now).map (·.2))
  | .deletePort port => unlessRefused sw ((sw.deletePort port).map (·.2))
  | .configurePort port config mask => unlessRefused sw (sw.configurePort port config mask)
  | .keepUp now task => sw.keepUp now task
  | .handle port f now busy => (sw.handle port f now busy).2
  | .receive port f now busy => (sw.receive port f now busy).2
  | .packetOut buffer port actions f now => (sw.packetOut buffer port actions f now).2
  | .inTables c => { sw with tables := sw.tables.step c }
  | .outside ports notifier => { sw with ports, notifier }

def run (sw : Switch) (commands : List Command) : Switch := commands.foldl step sw

/-! ## What reaches the tables -/

/-- The pass of a frame that a port hands in, if there is one. -/
def framePass (sw : Switch) (port : PortNo) (f : Frame) (now : Time) (busy : Bool) :
    Option Tables.Command :=
  match prepare f port with
  | .error _ => none
  | .ok f => if busy then none else some (.process (sw.setting now) sw.ports f sw.draws)

/-- The pass of a packet of the controller, if there is one. -/
def packetPass (sw : Switch) (buffer : UInt32) (port : PortNo) (actions : ActionList)
    (f : Option Frame) (now : Time) : Option Tables.Command :=
  match sw.packetFor buffer f with
  | .error _ => none
  | .ok (f, sw) =>
    match prepare f (if port.isSource then some port else none) with
    | .error _ => none
    | .ok f => some (.carryOut (sw.setting now) actions sw.ports f sw.draws)

/-- What a command comes down to in the tables, if it gets there. -/
def tableCommand? (sw : Switch) : Command → Option Tables.Command
  | .addFlow e => some (.add e sw.ports.contains)
  | .updateFlows f priority s flags => some (.update f priority s flags sw.ports.contains)
  | .updateOrAddFlow e cookieMask strict =>
    some (.updateOrAdd e cookieMask strict sw.ports.contains)
  | .deleteFlows f priority now => some (.delete f priority now)
  | .addGroup id type buckets now => some (.addGroup id type buckets sw.ports.contains now)
  | .updateGroup id type buckets => some (.updateGroup id type buckets sw.ports.contains)
  | .deleteGroup id now => some (.deleteGroup id now)
  | .addMeter id flags bands now => some (.addMeter id flags bands now)
  | .replaceMeter id flags bands => some (.replaceMeter id flags bands)
  | .deleteMeter id now => some (.deleteMeter id now)
  | .addPort .. | .deletePort .. | .configurePort .. | .outside .. => none
  | .keepUp now .age => some (.expire TableId.all now)
  | .keepUp _ .refreshPorts => none
  | .handle port f now busy => sw.framePass port f now busy
  | .receive port f now busy =>
    if sw.ports.accepts port then sw.framePass port (arriving f) now busy else none
  | .packetOut buffer port actions f now => sw.packetPass buffer port actions f now
  | .inTables c => some c

/-- What commands come down to in the tables. -/
def tableCommands (sw : Switch) : List Command → List Tables.Command
  | [] => []
  | c :: rest => (sw.tableCommand? c).toList ++ (sw.step c).tableCommands rest

end Switch

end FlowSwitch
