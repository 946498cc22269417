import FlowSwitch.Forward.Execute
import FlowSwitch.Match.Packet

/-!
# Walking through the flow tables

A frame begins at the first table and follows one entry in each table that it comes
to. It goes on to later tables only, and when no entry sends it on, the actions
that it gathered are carried out. A frame that no entry selects is dropped. A
frame sent back to the first table begins a walk of its own inside the first one;
walks are nested no deeper than `Run.maxDepth`.
-/

namespace FlowSwitch

namespace Run

/-- How deep walks may be nested in the first one. -/
def maxDepth : Nat := 8

/-- Follows the instructions of an entry. Returns the actions gathered so far. -/
def follow (s : Setting) (resubmit : Run Unit) (e : FlowEntry) (gathered : ActionSet) :
    Run ActionSet := do
  let i := e.instructions
  i.meter.forM fun id => police id s.now
  let applied := (i.applyActions.map (·.actions)).getD []
  applied.forM fun a => execute s resubmit e.ref a
  let gathered := if i.clearActions.isSome then .empty else gathered
  let gathered ← i.writeActions.elim (pure gathered) fun l => lift (gathered.write l e.ref)
  i.writeMetadata.forM fun w =>
    changeContext fun c => { c with metadata := w.apply c.metadata }
  return gathered

/-- Looks the frame up in a flow table. -/
def look (table : TableId) : Run (Option FlowEntry) := do
  let some view := (← get).frame.view | refuse .failed
  classify table (Match.ofPacket view)

/-- Counts the frame in an entry. -/
def countFrame (s : Setting) (e : FlowEntry) : Run Unit :=
  modify fun p =>
    { p with tables := p.tables.modifyEntry e.ref (·.count p.frame.length s.now) }

/-- Sends the frame through the tables from `table` on. -/
def walk (s : Setting) (resubmit : Run Unit) (table : TableId) (gathered : ActionSet) :
    Run Unit := do
  let some e ← look table | return
  countFrame s e
  let gathered ← follow s resubmit e gathered
  match e.instructions.gotoTable with
  | none => gathered.ordered.forM fun a => execute s resubmit a.origin a.action
  | some next =>
    if table = TableId.last then refuse .failed
    else if _h : table < next then walk s resubmit next gathered
    else refuse .failed
termination_by 255 - table.toNat
decreasing_by
  have := UInt8.lt_iff_toNat_lt.mp ‹table < next›
  have := next.toNat_lt
  omega

/-- Sends a copy of the frame through the tables in a walk with room for `depth` walks, this one
included. -/
def resubmit (s : Setting) : Nat → Run Unit
  | 0 => refuse .failed
  | depth + 1 =>
    onCopy do
      changeContext ({ · with metadata := 0 })
      walk s (resubmit s depth) 0 .empty

/-- Processes a frame that came in. -/
def process (s : Setting) : Run Unit := walk s (resubmit s maxDepth) 0 .empty

/-- Carries out actions that the controller gave with a frame. -/
def carryOut (s : Setting) (actions : ActionList) : Run Unit :=
  actions.actions.forM fun a => execute s (resubmit s maxDepth) none a

end Run

end FlowSwitch
