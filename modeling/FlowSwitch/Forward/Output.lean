import FlowSwitch.Forward.Pass

/-!
# Output

Sending a frame out of ports, to the controller, or back to the first table.
-/

namespace FlowSwitch

namespace Match

/-- Adds what a packet has besides its headers. -/
def withContext (m : Match) (c : PacketContext) : Match :=
  let add (m : Match) (wanted : Bool) (f : Field) (value : BitVec f.width) : Match :=
    if wanted then m.set f (.exact value) else m
  let m := add m true .inPort c.inPort.toBitVec
  let m := add m (c.inPhyPort != c.inPort) .inPhyPort c.inPhyPort.toBitVec
  let m := add m (c.metadata != 0) .metadata c.metadata.toBitVec
  add m (c.tunnelId != 0) .tunnelId c.tunnelId.toBitVec

end Match

namespace Pass

/-- The request to send a frame to the controller, in the name of a flow entry if there is
one. -/
def request (p : Pass) (reason : PacketInReason) (origin : Option EntryRef) (f : Frame)
    (maxLength : UInt16) : PacketInRequest :=
  let entry := origin.bind p.tables.entry?
  let selector := (entry.map (·.selector)).getD Match.any
  { reason
    table := (entry.map (·.ref.table)).getD TableId.all
    cookie := (entry.map (·.cookie)).getD 0xffffffffffffffff
    selector := (f.context?.map selector.withContext).getD selector
    frame := f
    maxLength }

/-- Sends a copy of the frame to the controller, unless nobody listens or the meter of the
controller drops it. A meter that fails otherwise stops nothing. -/
def packetIn (s : Setting) (reason : PacketInReason) (origin : Option EntryRef)
    (maxLength : UInt16) (p : Pass) : Pass :=
  if !s.listens then p
  else
    let (result, f, meters) := p.tables.meters.police MeterId.controller p.frame s.now
    let p := { p with tables := { p.tables with meters } }
    match result with
    | .error .dropPacket => p
    | _ => { p with requests := p.requests ++ [p.request reason origin f maxLength] }

/-- Sends the frame to the controller because an action says so, unless the port that it came
in by keeps its packets. A packet that was missed by the other entries is cut as configured. -/
def toController (s : Setting) (origin : Option EntryRef) (maxLength : UInt16) (p : Pass) :
    Pass :=
  let source := (p.frame.context?.map (·.inPort)).getD 0
  if (p.ports.get? source).any (·.config.noPacketIn) then p
  else if (origin.bind p.tables.entry?).any (·.isTableMiss) then
    p.packetIn s .noMatch origin s.config.missSendLength
  else p.packetIn s .action origin maxLength

end Pass

namespace Run

/-- Sends the frame out of the ports that a number stands for. -/
def sendOut (port : PortNo) : Run Unit := do
  let p ← get
  let ports ← lift (p.ports.send port p.frame)
  let handouts := p.handouts ++ p.ports.handouts port p.frame
  modify fun p => { p with ports, handouts }

/-- Sends the frame to what a port number stands for. -/
def output (s : Setting) (resubmit : Run Unit) (origin : Option EntryRef) (port : PortNo)
    (maxLength : UInt16) : Run Unit :=
  if port = PortNo.controller then modify fun p => p.toController s origin maxLength
  else if port = PortNo.table then resubmit
  else sendOut port

end Run

end FlowSwitch
