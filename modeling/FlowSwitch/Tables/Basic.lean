import FlowSwitch.Flow.Filter
import FlowSwitch.Group.Table
import FlowSwitch.Meter.Table

/-!
# The tables of a switch

The flow tables, the groups and the meters. Flow entries name groups and meters,
and each of these counts the entries that name it. Flow entries are numbered
through all tables.
-/

namespace FlowSwitch

structure Tables where
  flow : Vector FlowTable TableId.count
  groups : GroupTable := .empty
  meters : MeterTable := .empty
  /-- The number of the entry added last. -/
  newestEntry : UInt64 := 0

namespace Tables

/-- Tables without entries. -/
def empty (capacity : Nat) : Tables := { flow := Vector.replicate _ { capacity } }

def flowTable? (t : Tables) (id : TableId) : Option FlowTable := t.flow[id.toNat]?

def entry? (t : Tables) (ref : EntryRef) : Option FlowEntry :=
  (t.flowTable? ref.table).bind (·.find? ref.id)

/-- Every flow entry, table by table. -/
def entries (t : Tables) : List FlowEntry := t.flow.toList.flatMap (·.entries)

/-- The flow entries of a table, or of all of them. -/
def entriesOf (t : Tables) (table : TableId) : List FlowEntry :=
  if table = TableId.all then t.entries else ((t.flowTable? table).map (·.entries)).getD []

def modifyFlow (t : Tables) (id : TableId) (change : FlowTable → FlowTable) : Tables :=
  match t.flowTable? id with
  | some f => { t with flow := t.flow.setIfInBounds id.toNat (change f) }
  | none => t

theorem flowTable?_modifyFlow (t : Tables) (id other : TableId) (change : FlowTable → FlowTable) :
    (t.modifyFlow id change).flowTable? other
      = if other = id then (t.flowTable? other).map change else t.flowTable? other := by
  unfold modifyFlow
  split
  · rename_i f found
    by_cases h : other = id
    · subst h
      obtain ⟨inside, rfl⟩ := Vector.getElem?_eq_some_iff.mp found
      simp [flowTable?, inside]
    · have apart : id.toNat ≠ other.toNat := fun e => h (UInt8.toNat_inj.mp e.symm)
      simp [flowTable?, h, apart]
  · rename_i missing
    by_cases h : other = id <;> simp_all

/-- Changes one flow entry. -/
def modifyEntry (t : Tables) (ref : EntryRef) (change : FlowEntry → FlowEntry) : Tables :=
  t.modifyFlow ref.table (·.modify ref.id change)

/-- What flow entries may refer to. -/
def known (t : Tables) (hasPort : PortNo → Bool) : Known := t.groups.known hasPort

/-- Counts a user of each group and of the meter that instructions name. -/
def reference (t : Tables) (s : InstructionSet) : Tables :=
  { t with
    groups := s.groups.foldl GroupTable.reference t.groups
    meters := s.meter.elim t.meters t.meters.reference }

/-- Counts one user less of each group and of the meter that instructions name. -/
def unreference (t : Tables) (s : InstructionSet) : Tables :=
  { t with
    groups := s.groups.foldl GroupTable.unreference t.groups
    meters := s.meter.elim t.meters t.meters.unreference }

/-- The flow entry that a packet follows in a table. -/
def classify (t : Tables) (table : TableId) (packet : Match) : Option FlowEntry × Tables :=
  let hit := (t.flowTable? table).bind (·.classify? packet)
  (hit, t.modifyFlow table (·.countLookup hit.toList.length))

/-- Asks tables in order. If one entry is wanted, the first table that has it is the last one
asked. -/
def queryEach (t : Tables) (q : Query) : List TableId → List FlowEntry × Tables
  | [] => ([], t)
  | table :: rest =>
    let hits := q.answers (t.entriesOf table)
    let t := t.modifyFlow table (·.countLookup hits.length)
    if q.isExact && !hits.isEmpty then (hits, t)
    else
      let (more, t) := t.queryEach q rest
      (hits ++ more, t)

/-- Asks a table, or all of them. -/
def query (t : Tables) (table : TableId) (q : Query) : List FlowEntry × Tables :=
  t.queryEach q (if table = TableId.all then TableId.list else [table])

/-- The entries that pass a filter: those that its match covers, or the one that has its match
and the given priority. -/
def select (t : Tables) (f : FlowFilter) (priority : Option UInt16) :
    List FlowEntry × Tables :=
  let (hits, t) := t.query f.table (f.query priority)
  (hits.filter f.admits, t)

end Tables

end FlowSwitch
