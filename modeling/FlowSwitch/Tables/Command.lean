import FlowSwitch.Forward.Walk
import FlowSwitch.Tables.Modify
import FlowSwitch.Tables.Remove
import FlowSwitch.Tables.Report

/-!
# What can be done to the tables

Every way in which the tables change, as one command each: changes to flow entries,
groups and meters, questions, which count as lookups, and passes of packets. A command
may be refused, and leaves then what its function leaves.
-/

namespace FlowSwitch

/-- What a change that may be refused leaves. -/
def unlessRefused {ε α : Type} (before : α) : Except ε α → α
  | .ok changed => changed
  | .error _ => before

theorem unlessRefused_of {ε α : Type} {P : α → Prop} {before : α} {changed : Except ε α}
    (kept : P before) (done : ∀ a, changed = .ok a → P a) : P (unlessRefused before changed) := by
  cases changed with
  | error e => exact kept
  | ok a => exact done a rfl

namespace Tables

inductive Command
  | add (e : FlowEntry) (hasPort : PortNo → Bool)
  | update (f : FlowFilter) (priority : Option UInt16) (s : InstructionSet) (flags : FlowFlags)
      (hasPort : PortNo → Bool)
  | updateOrAdd (e : FlowEntry) (cookieMask : UInt64) (strict : Bool) (hasPort : PortNo → Bool)
  | delete (f : FlowFilter) (priority : Option UInt16) (now : Time)
  | deleteByGroup (id : GroupId) (now : Time)
  | deleteByMeter (id : MeterId) (now : Time)
  /-- Removes the expired entries of a table, or of all of them. -/
  | expire (table : TableId) (now : Time)
  | classify (table : TableId) (packet : Match)
  | query (table : TableId) (q : Query)
  | flowStats (f : FlowFilter) (now : Time)
  | addGroup (id : GroupId) (type : GroupType) (buckets : List Bucket) (hasPort : PortNo → Bool)
      (now : Time)
  | updateGroup (id : GroupId) (type : GroupType) (buckets : List Bucket)
      (hasPort : PortNo → Bool)
  | deleteGroup (id : GroupId) (now : Time)
  | addMeter (id : MeterId) (flags : MeterFlags) (bands : List BandConfig) (now : Time)
  | replaceMeter (id : MeterId) (flags : MeterFlags) (bands : List BandConfig)
  | deleteMeter (id : MeterId) (now : Time)
  /-- Processes a frame that came in. -/
  | process (s : Setting) (ports : PortTable) (frame : Frame) (draws : Nat)
  /-- Carries out actions that the controller gave with a frame. -/
  | carryOut (s : Setting) (actions : ActionList) (ports : PortTable) (frame : Frame) (draws : Nat)

def step (t : Tables) : Command → Tables
  | .add e hasPort => unlessRefused t ((t.add e hasPort).map (·.2))
  | .update f priority s flags hasPort => (t.update f priority s flags hasPort).2
  | .updateOrAdd e cookieMask strict hasPort => (t.updateOrAdd e cookieMask strict hasPort).2
  | .delete f priority now => (t.delete f priority now).2
  | .deleteByGroup id now => (t.deleteByGroup id now).2
  | .deleteByMeter id now => (t.deleteByMeter id now).2
  | .expire table now => (t.expire table now).2
  | .classify table packet => (t.classify table packet).2
  | .query table q => (t.query table q).2
  | .flowStats f now => (t.flowStats f now).2
  | .addGroup id type buckets hasPort now =>
    unlessRefused t ((t.groups.add id type buckets hasPort now).map ({ t with groups := · }))
  | .updateGroup id type buckets hasPort =>
    unlessRefused t ((t.groups.update id type buckets hasPort).map ({ t with groups := · }))
  | .deleteGroup id now => unlessRefused t ((t.deleteGroup id now).map (·.2))
  | .addMeter id flags bands now =>
    unlessRefused t ((t.meters.add id flags bands now).map ({ t with meters := · }))
  | .replaceMeter id flags bands =>
    unlessRefused t ((t.meters.replace id flags bands).map ({ t with meters := · }))
  | .deleteMeter id now => unlessRefused t ((t.deleteMeter id now).map (·.2))
  | .process s ports frame draws =>
    ((Run.process s).on { tables := t, ports, frame, draws }).2.tables
  | .carryOut s actions ports frame draws =>
    ((Run.carryOut s actions).on { tables := t, ports, frame, draws }).2.tables

def run (t : Tables) (commands : List Command) : Tables := commands.foldl step t

/-- How many of the commands took in an entry with a new number. -/
def additions (t : Tables) : List Command → Nat
  | [] => 0
  | c :: rest =>
    (if (t.step c).newestEntry = t.newestEntry then 0 else 1) + (t.step c).additions rest

/-- The tables after each entry that gets other instructions. -/
def instructEach (t : Tables) (s : InstructionSet) (reset : Bool) : List FlowEntry → List Tables
  | [] => []
  | e :: rest =>
    let t := t.instruct e.ref s reset
    t :: t.instructEach s reset rest

/-- The tables after each entry that gets other instructions, if these may be installed. -/
def instructSteps (t : Tables) (selected : List FlowEntry) (s : InstructionSet) (reset : Bool)
    (hasPort : PortNo → Bool) : List Tables :=
  if (t.instructAll selected s reset hasPort).isOk then t.instructEach s reset selected else []

/-- The tables that a command goes through before it is done. -/
def between (t : Tables) : Command → List Tables
  | .update f priority s flags hasPort =>
    let (selected, t) := t.select f priority
    t.instructSteps selected s flags.resetCounts hasPort
  | .updateOrAdd e cookieMask strict hasPort =>
    if e.ref.table = TableId.all then []
    else
      let filter : FlowFilter :=
        { table := e.ref.table, selector := e.selector, cookie := e.cookie, cookieMask }
      let (selected, t) := t.select filter (if strict then some e.priority else none)
      t.instructSteps selected e.instructions e.flags.resetCounts hasPort
  | _ => []

/-- The tables that commands go through, from the first to the last. -/
def history (t : Tables) : List Command → List Tables
  | [] => [t]
  | c :: rest => t :: t.between c ++ (t.step c).history rest

end Tables

end FlowSwitch
