import FlowSwitch.Error
import FlowSwitch.ConfigValue
import FlowSwitch.Time

/-!
# Configuration

The limits and periods of a switch. Intervals are in milliseconds.
-/

namespace FlowSwitch

structure Config where
  /-- How many entries a flow table holds. -/
  maxFlowEntries : Nat := 1024
  /-- How many packets are kept for the controller; zero for none. -/
  packetBuffers : UInt32 := 256
  /-- The age at which a packet that is kept may be replaced. -/
  packetBufferTimeout : Nat := 1000
  /-- How much of a packet goes to the controller if it did not ask for the packet. -/
  missSendLength : UInt16 := 128
  /-- Chooses the bucket of a select group by the flow of a packet, not at random. -/
  selectByFlow : Bool := false
  agingInterval : Nat := 1000
  portStatusInterval : Nat := 1000
  maxSendQueue : Nat := 1024
  maxReceiveQueue : Nat := 1024
  deriving DecidableEq, Repr

namespace Config

def fieldNames : List String :=
  ["max_flow_entries", "packet_in_buffers", "packet_in_buffer_timeout_ms", "miss_send_len",
    "select_group_hashing", "aging_interval_ms", "port_status_interval_ms", "max_send_queue",
    "max_recv_queue"]

def ofValue? (s : ConfigValue) : Option Config := do
  let fields ← s.fields? fieldNames
  let whole (name : String) (bits default : Nat) : Option Nat :=
    ConfigValue.readField fields name (·.whole? bits) default
  let c : Config := {}
  return {
    maxFlowEntries := ← whole "max_flow_entries" 64 c.maxFlowEntries
    packetBuffers := (← whole "packet_in_buffers" 32 c.packetBuffers.toNat).toUInt32
    packetBufferTimeout := ← whole "packet_in_buffer_timeout_ms" 64 c.packetBufferTimeout
    missSendLength := (← whole "miss_send_len" 16 c.missSendLength.toNat).toUInt16
    selectByFlow := ← ConfigValue.readField fields "select_group_hashing" (·.truth?) c.selectByFlow
    agingInterval := ← whole "aging_interval_ms" 64 c.agingInterval
    portStatusInterval := ← whole "port_status_interval_ms" 64 c.portStatusInterval
    maxSendQueue := ← whole "max_send_queue" 64 c.maxSendQueue
    maxReceiveQueue := ← whole "max_recv_queue" 64 c.maxReceiveQueue }

/-- Every field may be missing. -/
theorem ofValue?_empty : ofValue? (.record []) = some {} := rfl

def validate (c : Config) : Except SwitchError Unit := do
  if c.maxSendQueue = 0 ∨ c.maxReceiveQueue = 0 then throw .invalidParameter
  if c.agingInterval = 0 ∨ c.portStatusInterval = 0 then throw .invalidParameter

end Config

end FlowSwitch
