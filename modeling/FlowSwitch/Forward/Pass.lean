import FlowSwitch.Config
import FlowSwitch.Event.Basic
import FlowSwitch.Meter.Police
import FlowSwitch.Port.Table
import FlowSwitch.Tables.Basic

/-!
# Passes

A pass is the processing of one packet. It works on a frame, on the tables and on the
ports of the switch, and gathers the packets to send to the controller, which are
delivered after it. It keeps a record of its lookups and of what it hands to devices. A
pass that is refused leaves what it did until then.
-/

namespace FlowSwitch

/-- Where the choices among the buckets of a group come from. -/
structure Selection where
  /-- One number for all the packets of a flow. -/
  byFlow : Headers → UInt64
  /-- A number for each choice made so far. -/
  atRandom : Nat → UInt64

/-- What stays the same during a pass. -/
structure Setting where
  now : Time
  config : Config
  selection : Selection
  /-- Whether packets sent to the controller are delivered. -/
  listens : Bool

/-- A look into a flow table: the match that was looked up, and the frame at that time. -/
structure Lookup where
  table : TableId
  packet : Match
  frame : Frame

structure Pass where
  tables : Tables
  ports : PortTable
  /-- The frame as it is by now. -/
  frame : Frame
  /-- The packets to send to the controller, oldest first. -/
  requests : List PacketInRequest := []
  /-- How many choices were made at random. -/
  draws : Nat := 0
  /-- The lookups made so far, oldest first. -/
  lookups : List Lookup := []
  /-- What devices were handed so far, oldest first. -/
  handouts : List Handout := []

/-- Why a pass ended early. -/
inductive Halt
  | refused (cause : SwitchError)
  /-- Groups were entered one from another without end. -/
  | endless
  deriving DecidableEq

/-- Part of a pass. -/
abbrev Run := ExceptT Halt (StateM Pass)

namespace Run

/-- How part of a pass ends, and what it makes of the pass. -/
def on {α : Type} (run : Run α) (p : Pass) : Except Halt α × Pass := run.run.run p

def refuse {α : Type} (e : SwitchError) : Run α := throw (.refused e)

def lift {α : Type} : Except SwitchError α → Run α
  | .ok a => pure a
  | .error e => refuse e

/-- Edits the frame. An edit that fails may have changed it. -/
def edit (change : Frame → Except SwitchError Unit × Frame) : Run Unit := do
  let (result, frame) := change (← get).frame
  modify fun p => { p with frame }
  lift result

/-- Changes what is known about the frame besides its bytes. -/
def changeContext (change : PacketContext → PacketContext) : Run Unit :=
  modify fun p => { p with frame := p.frame.updateContext change }

/-- Works on a copy of the frame. -/
def onCopy {α : Type} (run : Run α) : Run α :=
  ExceptT.mk do
    let original := (← get).frame
    let result ← run.run
    modify fun p => { p with frame := original }
    return result

def modifyTables (change : Tables → Tables) : Run Unit :=
  modify fun p => { p with tables := change p.tables }

/-- Looks a packet up in a flow table. -/
def classify (table : TableId) (packet : Match) : Run (Option FlowEntry) := do
  modify fun p => { p with lookups := p.lookups ++ [⟨table, packet, p.frame⟩] }
  let (hit, tables) := (← get).tables.classify table packet
  modifyTables fun _ => tables
  return hit

/-- Sends the frame through a meter. A meter that is not there lets it pass. -/
def police (id : MeterId) (now : Time) : Run Unit := do
  let p ← get
  let (result, frame, meters) := p.tables.meters.police id p.frame now
  set { p with frame, tables := { p.tables with meters } }
  match result with
  | .ok _ | .error .notFound => return
  | .error e => refuse e

end Run

end FlowSwitch
