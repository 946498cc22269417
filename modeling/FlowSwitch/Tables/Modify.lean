import FlowSwitch.Tables.Basic

/-!
# Adding and changing flow entries

An entry is checked before it is added, and so are new instructions before any
entry gets them. Looking for the entries to change counts as a lookup even if the
change is refused, so changes return the tables in either case.
-/

namespace FlowSwitch

namespace Tables

/-- Whether an entry may be put into a table. The first fault found is reported. -/
def checkNew (t : Tables) (f : FlowTable) (e : FlowEntry) (hasPort : PortNo → Bool) :
    Except SwitchError Unit := do
  e.selector.validate
  e.instructions.validate e.ref.table TableId.writableMetadata (t.known hasPort)
  if e.flags.checkOverlap && f.entries.any e.overlaps then throw (.flowModFailed .overlap)

/-- Puts in an entry for one that is identical to it. -/
def exchange (t : Tables) (old e : FlowEntry) : Tables :=
  ((t.modifyFlow e.ref.table (·.replace e)).unreference old.instructions).reference e.instructions

/-- Takes in an entry with a new number. -/
def enroll (t : Tables) (e : FlowEntry) : Tables :=
  ({ t with newestEntry := e.ref.id }.modifyFlow e.ref.table (·.enroll e)).reference
    e.instructions

/-- Adds an entry to its table and numbers it. An entry of the same priority and match gives up
its place, its number and, unless they are to be reset, its counters. -/
def add (t : Tables) (e : FlowEntry) (hasPort : PortNo → Bool) :
    Except SwitchError (EntryRef × Tables) := do
  let some f := t.flowTable? e.ref.table | throw (.flowModFailed .badTableId)
  t.checkNew f e hasPort
  match f.entries.find? e.isIdentical with
  | some old =>
    let e := { e with
      ref := ⟨e.ref.table, old.ref.id⟩
      counter := if e.flags.resetCounts then e.counter else old.counter }
    return (e.ref, t.exchange old e)
  | none =>
    if f.isFull then throw (.flowModFailed .tableFull)
    else
      let e := { e with ref := ⟨e.ref.table, t.newestEntry + 1⟩ }
      return (e.ref, t.enroll e)

/-- Gives an entry, if it is there, other instructions. -/
def instruct (t : Tables) (ref : EntryRef) (s : InstructionSet) (reset : Bool) : Tables :=
  match t.entry? ref with
  | none => t
  | some old =>
    let t := t.modifyEntry ref fun e =>
      { e with instructions := s, counter := if reset then {} else e.counter }
    (t.unreference old.instructions).reference s

/-- Gives entries other instructions, if these may be installed in the table of each of them. -/
def instructAll (t : Tables) (selected : List FlowEntry) (s : InstructionSet) (reset : Bool)
    (hasPort : PortNo → Bool) : Except SwitchError Tables := do
  selected.forM fun e =>
    s.validate e.ref.table TableId.writableMetadata (t.known hasPort)
  return selected.foldl (fun t e => t.instruct e.ref s reset) t

/-- Gives the selected entries other instructions and tells how many there were. -/
def update (t : Tables) (f : FlowFilter) (priority : Option UInt16) (s : InstructionSet)
    (flags : FlowFlags) (hasPort : PortNo → Bool) : Except SwitchError Nat × Tables :=
  let (selected, t) := t.select f priority
  match t.instructAll selected s flags.resetCounts hasPort with
  | .ok t => (.ok selected.length, t)
  | .error e => (.error e, t)

/-- Gives the instructions of `e` to the entries of its table with its match and cookie, or adds
it in their absence. If `strict`, the match and the priority have to be the same; else it is
enough that the match of `e` covers theirs. -/
def updateOrAdd (t : Tables) (e : FlowEntry) (cookieMask : UInt64) (strict : Bool)
    (hasPort : PortNo → Bool) : Except SwitchError Unit × Tables :=
  if e.ref.table = TableId.all then (.error (.flowModFailed .badTableId), t)
  else
    let filter : FlowFilter :=
      { table := e.ref.table, selector := e.selector, cookie := e.cookie, cookieMask }
    let (selected, t) := t.select filter (if strict then some e.priority else none)
    let result :=
      if selected.isEmpty then (t.add e hasPort).map (·.2)
      else t.instructAll selected e.instructions e.flags.resetCounts hasPort
    match result with
    | .ok t => (.ok (), t)
    | .error e => (.error e, t)

end Tables

end FlowSwitch
