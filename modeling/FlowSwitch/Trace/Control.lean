import FlowSwitch.Trace.Config

/-!
# Tracing

Each part of the switch that logs is a target with a level of its own. Targets
carry tags, and a level can be set for one target or for all that carry a tag. A
configuration sets the default, then tags, then targets; a text of directives
sets one name after the other, where a target takes precedence over a tag of the
same name. What was set before an error stays set.
-/

namespace FlowSwitch

structure TraceTarget where
  name : String
  /-- The part of the program that logs. -/
  module : String
  tags : List String
  /-- The level from the start. -/
  initial : TraceLevel := .info
  deriving DecidableEq, Repr

inductive TraceError
  | unknownTarget (name : String)
  | unknownTag (tag : String)
  | invalidLevel (text : String)
  | invalidDirective (text : String)
  deriving DecidableEq, Repr

def TraceError.message : TraceError → String
  | unknownTarget name => s!"Unknown target '{name}'"
  | unknownTag tag => s!"Unknown tag '{tag}'"
  | invalidLevel text => s!"Invalid level '{text}'"
  | invalidDirective text => s!"Invalid tracing directive '{text}'"

/-- The levels of all targets. -/
structure Tracing where
  default : TraceLevel := .info
  targets : List (TraceTarget × TraceLevel)
  deriving DecidableEq

namespace Tracing

def ofTargets (targets : List TraceTarget) : Tracing :=
  { targets := targets.map fun t => (t, t.initial) }

/-- The level of a target. -/
def level? (t : Tracing) (name : String) : Option TraceLevel :=
  (t.targets.find? (·.1.name == name)).map (·.2)

/-- Sets the level of the targets that pass a test. -/
def setWhere (t : Tracing) (p : TraceTarget → Bool) (level : TraceLevel) : Tracing :=
  { t with targets := t.targets.map fun (target, old) => (target, if p target then level else old) }

def hasTag (t : Tracing) (tag : String) : Bool := t.targets.any fun e => e.1.tags.contains tag

def hasTarget (t : Tracing) (name : String) : Bool := t.targets.any fun e => e.1.name == name

def setDefault (t : Tracing) (level : TraceLevel) : Tracing := { t with default := level }

def setTag (t : Tracing) (tag : String) (level : TraceLevel) : Except TraceError Tracing :=
  if t.hasTag tag then .ok (t.setWhere (·.tags.contains tag) level) else .error (.unknownTag tag)

def setTarget (t : Tracing) (name : String) (level : TraceLevel) : Except TraceError Tracing :=
  if t.hasTarget name then .ok (t.setWhere (·.name == name) level) else .error (.unknownTarget name)

/-- Carries out changes up to the first that fails. -/
def run : List (Tracing → Except TraceError Tracing) → Tracing → Except TraceError Unit × Tracing
  | [], t => (.ok (), t)
  | change :: rest, t =>
    match change t with
    | .ok t => run rest t
    | .error e => (.error e, t)

def apply (c : TraceConfig) (t : Tracing) : Except TraceError Unit × Tracing :=
  run (c.tags.entries.map (fun (tag, level) t => t.setTag tag level)
    ++ c.targets.entries.map fun (name, level) t => t.setTarget name level)
    (t.setDefault c.default)

end Tracing

namespace Directive

/-- The characters that the ends of a name or level are freed of. -/
def isBlank (c : Char) : Bool :=
  let n := c.toNat
  9 ≤ n && n ≤ 13 || 0x2000 ≤ n && n ≤ 0x200a
    || [0x20, 0x85, 0xa0, 0x1680, 0x2028, 0x2029, 0x202f, 0x205f, 0x3000].contains n

def trim (s : List Char) : List Char :=
  ((s.dropWhile isBlank).reverse.dropWhile isBlank).reverse

/-- The parts of a text between commas. -/
def parts : List Char → List (List Char)
  | [] => [[]]
  | c :: rest =>
    if c = ',' then [] :: parts rest
    else
      match parts rest with
      | first :: others => (c :: first) :: others
      | [] => [[c]]

/-- The change that one directive `name=level` stands for. -/
def change (directive : List Char) (t : Tracing) : Except TraceError Tracing :=
  match directive.dropWhile (· != '=') with
  | [] => .error (.invalidDirective (String.ofList directive))
  | _ :: rest =>
    let level := String.ofList (trim rest)
    let name := String.ofList (trim (directive.takeWhile (· != '=')))
    match TraceLevel.parse? level with
    | none => .error (.invalidLevel level)
    | some level =>
      if name = "default" then .ok (t.setDefault level)
      else if t.hasTarget name then t.setTarget name level
      else t.setTag name level

end Directive

namespace Tracing

/-- Carries out directives separated by commas. Empty ones are passed over. -/
def setup (text : String) (t : Tracing) : Except TraceError Unit × Tracing :=
  run (((Directive.parts text.toList).map Directive.trim).filter (!·.isEmpty) |>.map
    Directive.change) t

/-- The lines of a table of the levels. -/
def table (t : Tracing) : List String :=
  let padTo (n : Nat) (s : String) : String :=
    s ++ String.ofList (List.replicate (n - s.length) ' ')
  ("default: " ++ t.default.text) :: t.targets.map fun (target, level) =>
    padTo 24 target.name ++ " " ++ padTo 6 level.text
      ++ " [" ++ String.intercalate "," target.tags ++ "] " ++ target.module

end Tracing

/-- The targets of the switch. -/
def switchTargets : List TraceTarget :=
  let target (name module : String) (tags : List String) : TraceTarget :=
    { name, module := "ofdp_pipeline::" ++ module, tags := "pipeline" :: tags }
  [ target "action" "action" [],
    target "action-executor" "action_executor" [],
    target "async-event-notifier" "async_event_notifier" [],
    target "datapath-config" "config" ["config"],
    target "field-setter" "field_setter" [],
    target "flow-table" "flow_table" [],
    target "group-table" "group_table" [],
    target "instruction" "instruction" [],
    target "meter-executor" "meter_executor" [],
    target "meter-table" "meter_table" [],
    target "pipeline" "pipeline" [],
    target "port-manager" "port_manager" ["ports"],
    target "scheduler" "scheduler" [],
    target "switch-port" "switch_port" ["ports"],
    target "table-manager" "table_manager" [] ]

end FlowSwitch
