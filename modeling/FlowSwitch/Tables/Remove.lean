import FlowSwitch.Tables.Basic

/-!
# Removing flow entries

Entries are removed by a filter, with the group or meter that they name, or when
they have expired. The ones that ask for it are reported.
-/

namespace FlowSwitch

namespace Tables

/-- Removes an entry, if it is there, and reports it if it asks for that. -/
def erase (t : Tables) (ref : EntryRef) (reason : RemovalReason) (now : Time) :
    List FlowRemoved × Tables :=
  match t.entry? ref with
  | none => ([], t)
  | some e =>
    (if e.flags.sendRemoved then [e.removed reason now] else [],
      (t.modifyFlow ref.table (·.release ref.id)).unreference e.instructions)

/-- Removes entries one by one, each for a reason of its own. -/
def remove (t : Tables) (now : Time) :
    List (EntryRef × RemovalReason) → List FlowRemoved × Tables
  | [] => ([], t)
  | (ref, reason) :: rest =>
    let (removed, t) := t.erase ref reason now
    let (more, t) := t.remove now rest
    (removed ++ more, t)

/-- Removes the entries of a table, or of all of them, for which there is a reason. -/
def removeWhere (t : Tables) (table : TableId) (reason? : FlowEntry → Option RemovalReason)
    (now : Time) : List FlowRemoved × Tables :=
  t.remove now ((t.entriesOf table).filterMap fun e => (reason? e).map (e.ref, ·))

/-- Removes the entries that pass a filter. -/
def delete (t : Tables) (f : FlowFilter) (priority : Option UInt16) (now : Time) :
    List FlowRemoved × Tables :=
  let (selected, t) := t.select f priority
  t.remove now (selected.map (·.ref, .delete))

/-- Removes the entries that name a group. -/
def deleteByGroup (t : Tables) (id : GroupId) (now : Time) : List FlowRemoved × Tables :=
  t.removeWhere TableId.all
    (fun e => if e.instructions.refersToGroup id then some .groupDelete else none) now

/-- Removes the entries that name a meter, or any meter at all. -/
def deleteByMeter (t : Tables) (id : MeterId) (now : Time) : List FlowRemoved × Tables :=
  t.removeWhere TableId.all
    (fun e =>
      if e.instructions.meter.any fun m => id == MeterId.all || m == id then some .delete
      else none)
    now

/-- Removes the entries of a table, or of all of them, that have expired. -/
def expire (t : Tables) (table : TableId) (now : Time) : List FlowRemoved × Tables :=
  t.removeWhere table (·.expired? now) now

/-- Removes a group and the entries that name it. -/
def dropGroup (t : Tables) (id : GroupId) (now : Time) : List FlowRemoved × Tables :=
  { t with groups := t.groups.erase id }.deleteByGroup id now

/-- Removes groups one by one. -/
def dropGroups (t : Tables) (now : Time) : List GroupId → List FlowRemoved × Tables
  | [] => ([], t)
  | id :: rest =>
    let (removed, t) := t.dropGroup id now
    let (more, t) := t.dropGroups now rest
    (removed ++ more, t)

/-- Removes a group, or all of them, and the entries that name it. There need not be one. -/
def deleteGroup (t : Tables) (id : GroupId) (now : Time) :
    Except SwitchError (List FlowRemoved × Tables) :=
  if id > GroupId.last && id != GroupId.all then .error (.groupModFailed .invalidGroup)
  else .ok (t.dropGroups now (t.groups.matching id))

/-- Removes a meter, or all of them, and the entries that name it. -/
def deleteMeter (t : Tables) (id : MeterId) (now : Time) :
    Except SwitchError (List FlowRemoved × Tables) := do
  if !id.isMeter && id != MeterId.all then throw (.meterModFailed .invalidMeter)
  let meters ← t.meters.remove id
  return { t with meters }.deleteByMeter id now

end Tables

end FlowSwitch
