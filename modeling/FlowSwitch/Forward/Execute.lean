import FlowSwitch.Forward.Output
import FlowSwitch.Group.Choice
import FlowSwitch.Packet.Tagging

/-!
# Executing actions

Actions change a frame, send copies of it, or send copies through the buckets of a
group. Buckets may lead to other groups, and back to the same group: a chain of groups
that goes round in a circle ends when an action is refused, such as one that makes the
frame too long or too short. A chain that is not refused for very long has no end.
-/

namespace FlowSwitch

namespace Action

/-- What an action does to a frame by itself. Actions that send the frame leave it alone, and so
do those that have no header to work on. -/
def edit : Action → Frame → Except SwitchError Unit × Frame
  | copyTtlOut, f => f.edit Tagging.copyTtlOut
  | copyTtlIn, f => f.edit Tagging.copyTtlIn
  | setMplsTtl ttl, f => f.setMplsTtl ttl
  | decMplsTtl, f =>
    match f.headers?.bind (·.mpls) with
    | some mpls => if mpls.ttl = 0 then (.ok (), f) else f.setMplsTtl (mpls.ttl - 1)
    | none => (.ok (), f)
  | pushVlan etherType, f => f.edit (Tagging.pushVlan etherType)
  | popVlan, f => f.edit Tagging.popVlan
  | pushMpls etherType, f => f.edit (Tagging.pushMpls etherType)
  | popMpls etherType, f => f.edit (Tagging.popMpls etherType)
  | setQueue queueId, f => (.ok (), f.updateContext ({ · with queueId }))
  | setNwTtl ttl, f => if f.headers?.any (·.ip?.isSome) then f.setIpTtl ttl else (.ok (), f)
  | decNwTtl, f =>
    match f.headers?.bind (·.ip?) with
    | some ip => if ip.ttl = 0 then (.ok (), f) else f.setIpTtl (ip.ttl - 1)
    | none => (.ok (), f)
  | setField fields, f => f.setFields fields
  | pushPbb etherType, f => f.edit (Tagging.pushPbb etherType)
  | popPbb, f => f.edit Tagging.popPbb
  | output .., f | group _, f => (.ok (), f)
  | experimenter _, f => (.error (.badAction .badType), f)

/-- Whether an action asks to lower a TTL that is zero. -/
def spendsTtl (a : Action) (f : Frame) : Bool :=
  match a with
  | decMplsTtl => (f.headers?.bind (·.mpls)).any (·.ttl == 0)
  | decNwTtl => (f.headers?.bind (·.ip?)).any (·.ttl == 0)
  | _ => false

end Action

namespace Run

/-- Gives the frame a view, unless it has one. -/
def parse : Run Unit :=
  edit fun f =>
    match f.ensureParsed with
    | .ok f => (.ok (), f)
    | .error _ => (.error .failed, f)

/-- Counts the frame in a group, if it is there, and tells the places of the buckets that get
it. -/
def enterGroup (s : Setting) (id : GroupId) : Run (List Nat) := do
  let p ← get
  let some g := p.tables.groups.get? id | return []
  modifyTables fun t => { t with groups := t.groups.modify id (·.count p.frame.length) }
  let pick ←
    if g.type = .select ∧ !s.config.selectByFlow then do
      modify fun p => { p with draws := p.draws + 1 }
      pure (s.selection.atRandom p.draws)
    else pure ((p.frame.headers?.map s.selection.byFlow).getD 0)
  lift (g.choose p.ports.isLive pick)

/-- Counts the frame in a bucket and tells the bucket's actions. -/
def enterBucket (id : GroupId) (place : Nat) : Run (List Action) := do
  let p ← get
  modifyTables fun t =>
    { t with groups := t.groups.modify id (·.countBucket place p.frame.length) }
  let bucket := (p.tables.groups.get? id).bind (·.buckets[place]?)
  return (bucket.map (·.actions.actions)).getD []

/-- Carries out an action that changes the frame. A packet whose TTL is spent is reported. -/
def change (s : Setting) (origin : Option EntryRef) (a : Action) : Run Unit := do
  parse
  if a.spendsTtl (← get).frame then
    modify fun p => p.packetIn s .invalidTtl origin s.config.missSendLength
  edit a.edit

/-- Carries out an action in the name of a flow entry, entering at most `chain` groups one from
another. Every bucket gets a copy of the frame. -/
def perform (s : Setting) (resubmit : Run Unit) (origin : Option EntryRef) :
    Nat → Action → Run Unit
  | 0, .group id => do
    if (← get).tables.groups.contains id then throw .endless
  | chain + 1, .group id => do
    let places ← enterGroup s id
    places.forM fun place => do
      let actions ← enterBucket id place
      onCopy (actions.forM fun a => perform s resubmit origin chain a)
  | _, .output port maxLength => output s resubmit origin port maxLength
  | _, a => change s origin a

/-- How many groups may be entered one from another. A chain in which no group comes twice fits,
since it is no longer than there are groups; the rest is for going round in circles. -/
def maxChain (groups : GroupTable) : Nat := groups.size + 65536

/-- Carries out an action in the name of a flow entry. -/
def execute (s : Setting) (resubmit : Run Unit) (origin : Option EntryRef) (a : Action) :
    Run Unit := do
  perform s resubmit origin (maxChain (← get).tables.groups) a

end Run

end FlowSwitch
