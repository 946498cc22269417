import FlowSwitch.Error
import FlowSwitch.Identifier
import FlowSwitch.Port.Device
import FlowSwitch.Time

/-!
# Ports

A port of the switch has a device, settings made by the controller, and the state
its device was last seen in. A change of state is worth a report; a change of speed
alone is noted without one.
-/

namespace FlowSwitch

structure PortConfig where
  /-- Neither sends nor receives. -/
  down : Bool := false
  /-- Drops what it receives. -/
  noReceive : Bool := false
  /-- Drops what is forwarded to it. -/
  noForward : Bool := false
  /-- Keeps its packets from the controller. -/
  noPacketIn : Bool := false
  deriving DecidableEq, Repr

namespace PortConfig

def bits (c : PortConfig) : BitVec 32 :=
  (0 : BitVec 25) ++ BitVec.ofBool c.noPacketIn ++ BitVec.ofBool c.noForward ++ (0 : BitVec 2)
    ++ BitVec.ofBool c.noReceive ++ (0 : BitVec 1) ++ BitVec.ofBool c.down

def ofBits (w : BitVec 32) : PortConfig := ⟨w[0], w[2], w[5], w[6]⟩

/-- The settings of a bitmap in which every bit has a meaning. -/
def ofBits? (w : BitVec 32) : Option PortConfig :=
  if (ofBits w).bits = w then some (ofBits w) else none

/-- The settings `c`, replaced by those of `new` that `mask` names. -/
def replace (c new mask : PortConfig) : PortConfig where
  down := if mask.down then new.down else c.down
  noReceive := if mask.noReceive then new.noReceive else c.noReceive
  noForward := if mask.noForward then new.noForward else c.noForward
  noPacketIn := if mask.noPacketIn then new.noPacketIn else c.noPacketIn

end PortConfig

structure PortState where
  linkDown : Bool := true
  live : Bool := false
  deriving DecidableEq, Repr

namespace PortState

def bits (s : PortState) : BitVec 32 :=
  (0 : BitVec 29) ++ BitVec.ofBool s.live ++ (0 : BitVec 1) ++ BitVec.ofBool s.linkDown

end PortState

structure SwitchPort where
  device : Device
  config : PortConfig := {}
  state : PortState := {}
  /-- What the device last said of its link. -/
  status : LinkStatus := {}
  createdAt : Time
  deriving DecidableEq, Repr

/-- What others are told of a port. -/
structure PortDescription where
  port : PortNo
  address : MacAddress
  name : String
  config : PortConfig
  state : PortState
  status : LinkStatus
  deriving DecidableEq, Repr

structure PortStats where
  port : PortNo
  duration : Time
  received : Counter
  sent : Counter
  sendDropped : UInt64
  deriving DecidableEq, Repr

namespace SwitchPort

def isLive (p : SwitchPort) : Bool := !p.state.linkDown

def forwards (p : SwitchPort) : Bool := !(p.config.down || p.config.noForward)

def receives (p : SwitchPort) : Bool := !(p.config.down || p.config.noReceive)

/-- Asks the device for its status, and tells whether there is something to report. -/
def refresh (p : SwitchPort) : Bool × SwitchPort :=
  let status := p.device.status
  (status.up == p.state.linkDown || status.features != p.status.features,
    { p with state := { linkDown := !status.up, live := status.up }, status })

/-- A port that has just got its device. -/
def ofDevice (d : Device) (now : Time) : SwitchPort :=
  { device := d, config := { down := !d.isUp }, createdAt := now : SwitchPort }.refresh.2

/-- Replaces the settings that `mask` names. The device follows the setting `down`. -/
def configure (p : SwitchPort) (config mask : BitVec 32) : Except SwitchError SwitchPort :=
  match PortConfig.ofBits? config, PortConfig.ofBits? mask with
  | some new, some mask =>
    let config := p.config.replace new mask
    if config.down = p.config.down then .ok { p with config }
    else
      match p.device.setUp? (!config.down) with
      | some device => .ok { p with config, device }
      | none => .error (.portModFailed .badConfig)
  | _, _ => .error (.portModFailed .badConfig)

def describe (port : PortNo) (p : SwitchPort) : PortDescription :=
  { port, address := p.device.address, name := p.device.name, config := p.config
    state := p.state, status := p.status }

def stats (port : PortNo) (p : SwitchPort) (now : Time) : PortStats :=
  { port, duration := now - p.createdAt, received := p.device.received, sent := p.device.sent
    sendDropped := p.device.sendDropped }

end SwitchPort

end FlowSwitch
