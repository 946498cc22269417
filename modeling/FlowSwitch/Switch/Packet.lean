import FlowSwitch.Forward.Walk
import FlowSwitch.Switch.Basic

/-!
# Packets in a switch

A packet comes from a device or from the controller. Only one is processed at a
time; a device that hands in a frame meanwhile is refused. What a packet sends to
the controller is delivered when it has been processed.
-/

namespace FlowSwitch

namespace Switch

/-- What stays the same during a pass. -/
def setting (sw : Switch) (now : Time) : Setting :=
  { now, config := sw.config, selection := sw.selection
    listens := sw.notifier.listens .packetIn }

/-- The beginning of a pass. -/
def start (sw : Switch) (frame : Frame) : Pass :=
  { tables := sw.tables, ports := sw.ports, frame, draws := sw.draws }

/-- What a pass leaves, with the packets for the controller delivered. -/
def afterPass (sw : Switch) (now : Time) (p : Pass) : Switch :=
  { sw with
    tables := p.tables
    ports := p.ports
    notifier := p.requests.foldl (fun n r => n.notifyPacket r now) sw.notifier
    draws := p.draws }

/-- Makes a pass, which may end early. -/
def pass (sw : Switch) (now : Time) (f : Frame) (run : Setting → Run Unit) :
    Except Halt Unit × Switch :=
  let (result, p) := (run (sw.setting now)).on (sw.start f)
  (result, sw.afterPass now p)

/-- A frame with its headers read, coming from a port if there is one. -/
def prepare (f : Frame) (port : Option PortNo) : Except Halt Frame :=
  match f.ensureParsed with
  | .error _ => .error (.refused (.badRequest .badPacket))
  | .ok f => .ok (port.elim f fun port =>
    f.updateContext ({ · with inPort := port, inPhyPort := port }))

/-- Processes a frame received on a port. If the switch is busy, the frame is refused. That a
meter drops the frame is no failure. -/
def handle (sw : Switch) (port : PortNo) (f : Frame) (now : Time) (busy : Bool := false) :
    Except Halt Unit × Switch :=
  match prepare f port with
  | .error e => (.error e, sw)
  | .ok f =>
    if busy then (.error (.refused .lock), sw)
    else
      let (result, sw) := sw.pass now f Run.process
      (if result matches .error (.refused .dropPacket) then .ok () else result, sw)

/-- A frame as it is taken from a device: a short one is padded, and has to be read again. -/
def arriving (f : Frame) : Frame := if f.isShort then f.pad.forget else f

/-- Takes a frame from the device of a port. A port that does not receive ignores it. -/
def receive (sw : Switch) (port : PortNo) (f : Frame) (now : Time) (busy : Bool := false) :
    Except Halt Unit × Switch :=
  if !sw.ports.accepts port then (.ok (), sw)
  else sw.handle port (arriving f) now busy

/-- The frame that a controller sends actions for: the one in a buffer, or its own. -/
def packetFor (sw : Switch) (buffer : UInt32) (f : Option Frame) :
    Except Halt (Frame × Switch) :=
  if buffer = noBuffer then
    match f with
    | some f => .ok (f, sw)
    | none => .error (.refused (.badRequest .badPacket))
  else
    match sw.notifier.takePacket buffer with
    | some (f, notifier) => .ok (f, { sw with notifier })
    | none => .error (.refused (.badRequest .bufferUnknown))

/-- Carries out actions on a packet of the controller, which may name the port that the packet
came from. -/
def packetOut (sw : Switch) (buffer : UInt32) (port : PortNo) (actions : ActionList)
    (f : Option Frame) (now : Time) : Except Halt Unit × Switch :=
  match sw.packetFor buffer f with
  | .error e => (.error e, sw)
  | .ok (f, sw) =>
    match prepare f (if port.isSource then some port else none) with
    | .error e => (.error e, sw)
    | .ok f => sw.pass now f fun s => Run.carryOut s actions

end Switch

end FlowSwitch
