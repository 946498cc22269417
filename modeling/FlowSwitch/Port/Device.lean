import FlowSwitch.Counter
import FlowSwitch.Packet.Headers

/-!
# Devices

The Ethernet device behind a port. Frames that are sent wait in its queue until
they are taken out. A fixed device cannot be brought up or down, and its queue has
no bound.
-/

namespace FlowSwitch

/-- What a device says of its link. Features are bitmaps, speeds are in kilobits per second. -/
structure LinkStatus where
  up : Bool := false
  current : BitVec 16 := 0
  advertised : BitVec 16 := 0
  supported : BitVec 16 := 0
  peer : BitVec 16 := 0
  currentSpeed : UInt32 := 0
  maxSpeed : UInt32 := 0
  deriving DecidableEq, Repr

namespace LinkStatus

/-- A gigabit link over copper. -/
def gigabit : LinkStatus :=
  { up := true, current := 0x820, supported := 0x820, currentSpeed := 1000000
    maxSpeed := 1000000 }

/-- The features of the link, without its speeds. -/
def features (s : LinkStatus) : List (BitVec 16) :=
  [s.current, s.advertised, s.supported, s.peer]

end LinkStatus

inductive DeviceError
  | down (name : String)
  | queueFull (name : String)
  deriving DecidableEq, Repr

namespace DeviceError

def message : DeviceError → String
  | down name => s!"device {name} is down"
  | queueFull name => s!"send queue of {name} is full"

end DeviceError

structure Device where
  name : String
  address : MacAddress
  isUp : Bool := true
  link : LinkStatus := LinkStatus.gigabit
  isFixed : Bool := false
  /-- How many frames may wait; absent for any number. -/
  queueLimit : Option Nat := none
  /-- The frames that wait, oldest first. -/
  queue : List Bytes := []
  received : Counter := {}
  sent : Counter := {}
  sendDropped : UInt64 := 0
  deriving DecidableEq, Repr

namespace Device

/-- The link is down if the device is. -/
def status (d : Device) : LinkStatus := { d.link with up := d.isUp && d.link.up }

def limitQueue (d : Device) (limit : Nat) : Device :=
  if d.isFixed then d else { d with queueLimit := some limit }

/-- Brings a device up or down, unless it is fixed. -/
def setUp? (d : Device) (up : Bool) : Option Device :=
  if d.isFixed then none else some { d with isUp := up }

def countReceived (d : Device) (length : Nat) : Device :=
  { d with received := d.received.add length }

/-- Queues a frame. A frame that finds no room, or the device down, is counted as dropped. -/
def send (d : Device) (frame : Bytes) : Except DeviceError Unit × Device :=
  if !d.isUp then (.error (.down d.name), { d with sendDropped := d.sendDropped + 1 })
  else if d.queueLimit.any (· ≤ d.queue.length) then
    (.error (.queueFull d.name), { d with sendDropped := d.sendDropped + 1 })
  else
    (.ok (), { d with queue := d.queue ++ [frame], sent := d.sent.add frame.length })

/-- Takes all frames out of the queue. -/
def takeSent (d : Device) : List Bytes × Device := (d.queue, { d with queue := [] })

end Device

end FlowSwitch
