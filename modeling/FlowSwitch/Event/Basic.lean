import FlowSwitch.Flow.Entry
import FlowSwitch.Packet.Frame
import FlowSwitch.Port.Basic

/-!
# Events

What the switch tells its controller unasked: that a packet came in, that a flow
entry was removed, that a port changed. Each kind has to be listened to.
-/

namespace FlowSwitch

inductive PacketInReason
  | noMatch
  | action
  | invalidTtl
  deriving DecidableEq, Repr

/-- A packet on its way to the controller. -/
structure PacketInRequest where
  reason : PacketInReason
  table : TableId
  cookie : UInt64
  selector : Match
  frame : Frame
  maxLength : UInt16
  deriving DecidableEq

structure PacketIn where
  /-- Where the whole packet is kept. -/
  buffer : UInt32
  reason : PacketInReason
  table : TableId
  cookie : UInt64
  selector : Match
  /-- The length of the whole packet, or the largest length there is. -/
  totalLength : UInt16
  /-- How much of the packet was asked for. -/
  maxLength : UInt16
  data : Bytes
  deriving DecidableEq

inductive PortReason
  | add
  | delete
  | modify
  deriving DecidableEq, Repr

inductive EventKind
  | packetIn
  | flowRemoved
  | portStatus
  deriving DecidableEq, Repr

namespace EventKind

def all : List EventKind := [packetIn, flowRemoved, portStatus]

def text : EventKind → String
  | packetIn => "packet-in"
  | flowRemoved => "flow-removed"
  | portStatus => "port-status"

end EventKind

inductive Event
  | packetIn (e : PacketIn)
  | flowRemoved (e : FlowRemoved)
  | portStatus (reason : PortReason) (port : PortDescription)
  deriving DecidableEq

namespace Event

def kind : Event → EventKind
  | packetIn _ => .packetIn
  | flowRemoved _ => .flowRemoved
  | portStatus .. => .portStatus

end Event

end FlowSwitch
