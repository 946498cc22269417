import FlowSwitch.Registry
import FlowSwitch.Trace.Level

/-!
# Trace configurations

A configuration has a default level, levels for tags, and levels for targets, the
latter two in the order in which they were given.
-/

namespace FlowSwitch

structure TraceConfig where
  default : TraceLevel := .info
  tags : Registry String TraceLevel := .empty
  targets : Registry String TraceLevel := .empty

namespace TraceConfig

/-- The level of every name that a record has. -/
def levels? : ConfigValue → Option (Registry String TraceLevel)
  | .record fields =>
    fields.foldlM (fun r (name, s) => (TraceLevel.ofValue? s).map (r.insert name)) .empty
  | _ => none

def fieldNames : List String := ["default", "tags", "targets"]

def ofValue? (s : ConfigValue) : Option TraceConfig := do
  let fields ← s.fields? fieldNames
  return {
    default := ← ConfigValue.readField fields "default" TraceLevel.ofValue? .info
    tags := ← ConfigValue.readField fields "tags" levels? .empty
    targets := ← ConfigValue.readField fields "targets" levels? .empty }

/-- Every field may be missing. -/
theorem ofValue?_record_nil : ofValue? (.record []) = some {} := rfl

end TraceConfig

end FlowSwitch
