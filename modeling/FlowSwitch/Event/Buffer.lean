import FlowSwitch.Identifier
import FlowSwitch.Packet.Frame
import FlowSwitch.Registry
import FlowSwitch.Time

/-!
# Packet buffers

A ring of places for packets that the controller got only a part of. The places
are used in turn. While the packet in the next place is younger than the timeout
no packet is kept.
-/

namespace FlowSwitch

structure SavedPacket where
  frame : Frame
  savedAt : Time
  deriving DecidableEq, Repr

structure PacketBuffers where
  /-- The number of places. -/
  size : UInt32
  timeout : Time
  /-- The place to use next. -/
  next : Nat := 0
  /-- The packets kept, by place. -/
  saved : Registry Nat SavedPacket := .empty

namespace PacketBuffers

/-- Whether the next place may be used. -/
def isReady (b : PacketBuffers) (now : Time) : Bool :=
  b.next < b.size.toNat && !((b.saved.get? b.next).any fun p => now - p.savedAt < b.timeout)

/-- Keeps a packet and tells where, if a place is ready. -/
def save (b : PacketBuffers) (f : Frame) (now : Time) : Option Nat × PacketBuffers :=
  if b.isReady now then
    (some b.next, { b with
      next := (b.next + 1) % b.size.toNat
      saved := b.saved.insert b.next ⟨f, now⟩ })
  else (none, b)

/-- Takes a packet out of its place. -/
def take (b : PacketBuffers) (id : UInt32) : Option (Frame × PacketBuffers) :=
  if id = noBuffer then none
  else
    (b.saved.get? id.toNat).map fun p => (p.frame, { b with saved := b.saved.erase id.toNat })

end PacketBuffers

end FlowSwitch
