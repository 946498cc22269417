import FlowSwitch.Packet.Frame
import FlowSwitch.Port.Basic
import FlowSwitch.Registry

/-!
# The ports of a switch

Ports by number, in the order in which they were added. A frame is sent to the
ports that a number stands for, never back to where it came from unless the number
asks for just that.
-/

namespace FlowSwitch

/-- A frame handed to the device of a port. -/
structure Handout where
  /-- The number that the frame was sent to. -/
  target : PortNo
  port : PortNo
  data : Bytes
  deriving DecidableEq, Repr

abbrev PortTable := Registry PortNo SwitchPort

namespace PortTable

def isLive (t : PortTable) (port : PortNo) : Bool := (t.get? port).any (·.isLive)

/-- Whether frames received on a port are looked at. -/
def accepts (t : PortTable) (port : PortNo) : Bool := (t.get? port).any (·.receives)

/-- Whether frames that are sent to a port get to its device. -/
def forwards (t : PortTable) (port : PortNo) : Bool := (t.get? port).any (·.forwards)

/-- The lowest number that no port has. One of the first `size + 1` numbers is free. -/
def lowestFree? (t : PortTable) : Option PortNo :=
  ((List.range' 1 (t.size + 1)).map Nat.toUInt32).find? fun port =>
    port.isPhysical && !t.contains port

/-- Adds a port with a number, or with the lowest free one for zero. -/
def add (t : PortTable) (port : PortNo) (d : Device) (queueLimit : Nat) (now : Time) :
    Except SwitchError (PortNo × PortTable) := do
  let some port := if port = 0 then t.lowestFree? else some port | throw .failed
  if port > PortNo.last || t.contains port then throw (.portModFailed .badPort)
  return (port, t.insert port (SwitchPort.ofDevice (d.limitQueue queueLimit) now))

/-- Takes a port away. -/
def delete (t : PortTable) (port : PortNo) : Except SwitchError (SwitchPort × PortTable) :=
  match t.get? port with
  | some p => .ok (p, t.erase port)
  | none => .error .invalidParameter

/-- Replaces the settings of a port that `mask` names. -/
def configure (t : PortTable) (port : PortNo) (config mask : BitVec 32) :
    Except SwitchError PortTable := do
  let some p := t.get? port | throw (.portModFailed .badPort)
  let p ← p.configure config mask
  return t.modify port fun _ => p

/-- Refreshes the state of every port and describes those with something to report. -/
def refresh (t : PortTable) : List PortDescription × PortTable :=
  ((t.entries.filter (·.2.refresh.1)).map fun (port, p) => p.refresh.2.describe port,
    t.map fun _ p => p.refresh.2)

/-- The ports that a number stands for, for a frame that came in by `source`. -/
def destinations (t : PortTable) (port source : PortNo) : List PortNo :=
  if port = PortNo.inPort then t.keys.filter (· == source)
  else if port = PortNo.flood ∨ port = PortNo.all then t.keys.filter (· != source)
  else if port = PortNo.normal ∨ port = PortNo.localPort then []
  else if port = source then []
  else t.keys.filter (· == port)

/-- Hands a frame to the device of a port, which may drop it. -/
def deliver (t : PortTable) (d : Bytes) (port : PortNo) : PortTable :=
  t.modify port fun p => if p.forwards then { p with device := (p.device.send d).2 } else p

/-- The numbers that a frame can be sent to. -/
def isDestination (port : PortNo) : Bool :=
  port ≤ PortNo.last ||
    port ∈ [PortNo.inPort, PortNo.normal, PortNo.flood, PortNo.all, PortNo.localPort]

/-- Sends a frame, padded to the minimum length, to the ports that a number stands for. -/
def send (t : PortTable) (port : PortNo) (f : Frame) : Except SwitchError PortTable := do
  if !isDestination port then throw .failed
  let some context := f.context? | throw .failed
  if !PortNo.isSource context.inPort then throw .failed
  return (t.destinations port context.inPort).foldl (·.deliver f.pad.data ·) t

/-- What devices are handed when a frame is sent to the ports that a number stands for. -/
def handouts (t : PortTable) (target : PortNo) (f : Frame) : List Handout :=
  let source := (f.context?.map (·.inPort)).getD 0
  ((t.destinations target source).filter t.forwards).map fun port =>
    { target, port, data := f.pad.data }

/-- Statistics of a port, or of all of them. -/
def stats (t : PortTable) (port : PortNo) (now : Time) : Except SwitchError (List PortStats) :=
  if port = PortNo.any then .ok (t.entries.map fun (port, p) => p.stats port now)
  else
    match t.get? port with
    | some p => .ok [p.stats port now]
    | none => .error (.badRequest .badPort)

/-- Descriptions of a port, or of all of them. -/
def describe (t : PortTable) (port : PortNo) : Except SwitchError (List PortDescription) :=
  if port = PortNo.any ∨ port = PortNo.all then
    .ok (t.entries.map fun (port, p) => p.describe port)
  else
    match t.get? port with
    | some p => .ok [p.describe port]
    | none => .error (.badRequest .badPort)

end PortTable

end FlowSwitch
