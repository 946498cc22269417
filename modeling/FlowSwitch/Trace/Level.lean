import FlowSwitch.ConfigValue

/-!
# Trace levels

How much of what a part of the switch does is logged, from nothing to everything,
and the words for it. A configuration spells a level in one way, with one other
word for warnings; a directive may be written in capitals and may say "none".
-/

namespace FlowSwitch

inductive TraceLevel
  | off
  | error
  | warn
  | info
  | debug
  | trace
  deriving DecidableEq, Repr

namespace TraceLevel

instance : Inhabited TraceLevel := ⟨info⟩

def text : TraceLevel → String
  | off => "off"
  | error => "error"
  | warn => "warn"
  | info => "info"
  | debug => "debug"
  | trace => "trace"

/-- The level that a configuration spells so. -/
def ofText? (s : String) : Option TraceLevel :=
  if s = "warning" then some warn
  else [off, error, warn, info, debug, trace].find? (·.text == s)

/-- The level that a configuration gives, as a word or as a record of the word and nothing. -/
def ofValue? : ConfigValue → Option TraceLevel
  | .text s | .record [(s, .null)] => ofText? s
  | _ => none

/-- The level that a directive spells so. -/
def parse? (s : String) : Option TraceLevel :=
  let lower := s.toLower
  if lower = "none" then some off else ofText? lower

theorem ofText?_text (l : TraceLevel) : ofText? l.text = some l := by cases l <;> rfl

end TraceLevel

end FlowSwitch
