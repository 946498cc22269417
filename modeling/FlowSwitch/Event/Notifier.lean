import FlowSwitch.Event.Basic
import FlowSwitch.Event.Buffer

/-!
# The notifier

Delivers the events that are listened to, in the order in which they happen. A
packet that was asked for in part is kept in a buffer if one is free, and cut;
otherwise the whole packet is delivered.
-/

namespace FlowSwitch

structure Notifier where
  listened : List EventKind := []
  buffers : PacketBuffers
  /-- The events delivered so far, oldest first. -/
  delivered : List Event := []

namespace Notifier

def listens (n : Notifier) (kind : EventKind) : Bool := n.listened.contains kind

/-- Begins to deliver the events of a kind. -/
def listen (n : Notifier) (kind : EventKind) : Notifier :=
  { n with listened := n.listened.insert kind }

/-- Stops delivering the events of a kind. -/
def ignore (n : Notifier) (kind : EventKind) : Notifier :=
  { n with listened := n.listened.filter (· != kind) }

/-- Delivers an event if its kind is listened to. -/
def notify (n : Notifier) (e : Event) : Notifier :=
  if n.listens e.kind then { n with delivered := n.delivered ++ [e] } else n

/-- Delivers a packet to the controller. -/
def notifyPacket (n : Notifier) (r : PacketInRequest) (now : Time) : Notifier :=
  if !n.listens .packetIn then n
  else
    let (place, buffers) :=
      if r.maxLength = wholePacket then (none, n.buffers) else n.buffers.save r.frame now
    { n with buffers }.notify (.packetIn {
      buffer := (place.map Nat.toUInt32).getD noBuffer
      reason := r.reason, table := r.table, cookie := r.cookie, selector := r.selector
      totalLength := (min r.frame.length 0xffff).toUInt16, maxLength := r.maxLength
      data := if place.isSome then r.frame.data.take r.maxLength.toNat else r.frame.data })

def takePacket (n : Notifier) (id : UInt32) : Option (Frame × Notifier) :=
  (n.buffers.take id).map fun (f, buffers) => (f, { n with buffers })

/-- Takes the events delivered so far. -/
def takeEvents (n : Notifier) : List Event × Notifier := (n.delivered, { n with delivered := [] })

end Notifier

end FlowSwitch
