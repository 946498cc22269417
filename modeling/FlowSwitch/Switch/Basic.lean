import FlowSwitch.Event.Notifier
import FlowSwitch.Forward.Pass

/-!
# The switch

The tables, the ports and the notifier of a switch. The controller changes tables
and ports, devices hand in frames, and the clock makes entries expire; what
happens by itself is reported through the notifier.
-/

namespace FlowSwitch

structure Switch where
  config : Config
  selection : Selection
  tables : Tables
  ports : PortTable := .empty
  notifier : Notifier
  /-- How many choices were made at random. -/
  draws : Nat := 0

namespace Switch

/-- A switch without ports and entries. -/
def create (config : Config) (selection : Selection) : Except SwitchError Switch := do
  config.validate
  return {
    config, selection, tables := .empty config.maxFlowEntries
    notifier := { buffers := {
      size := config.packetBuffers
      timeout := Time.ofMilliseconds config.packetBufferTimeout } } }

def notifyRemoved (sw : Switch) (removed : List FlowRemoved) : Switch :=
  { sw with notifier := removed.foldl (fun n e => n.notify (.flowRemoved e)) sw.notifier }

def notifyPort (sw : Switch) (reason : PortReason) (port : PortDescription) : Switch :=
  { sw with notifier := sw.notifier.notify (.portStatus reason port) }

/-- Tables that are left by a removal, with the events of the removal delivered. -/
def afterRemoval (sw : Switch) : List FlowRemoved × Tables → Switch
  | (removed, tables) => { sw with tables }.notifyRemoved removed

end Switch

end FlowSwitch
