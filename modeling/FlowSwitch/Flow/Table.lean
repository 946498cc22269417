import FlowSwitch.Flow.Entry

/-!
# Flow tables

The entries of a flow table stand in the order in which packets try them: by
falling priority, and within a priority in the order in which they were added,
with the entry for missed packets last. A table counts its entries as they come and
go, how often it was asked and how many entries it answered with.
-/

namespace FlowSwitch

/-- Which entries of a table are asked for. -/
inductive Query
  /-- Every entry whose match is covered by `key`. -/
  | covered (key : Match)
  /-- The entry of this match and priority. -/
  | exactly (key : Match) (priority : UInt16)
  deriving DecidableEq

namespace Query

def accepts : Query → FlowEntry → Bool
  | covered key, e => key.covers e.selector
  | exactly key priority, e => e.priority == priority && e.selector.same key

/-- Whether one entry is enough. -/
def isExact : Query → Bool
  | covered _ => false
  | exactly .. => true

/-- The entries that answer a query. -/
def answers (q : Query) (entries : List FlowEntry) : List FlowEntry :=
  if q.isExact then (entries.find? q.accepts).toList else entries.filter q.accepts

end Query

namespace FlowEntry

/-- Whether packets try `e` before `other`, which is in the table already. -/
def precedes (e other : FlowEntry) : Bool :=
  other.priority < e.priority ||
    (other.priority == e.priority && other.isTableMiss && !e.isTableMiss)

/-- Whether the two have one priority and one match. -/
def isIdentical (e other : FlowEntry) : Bool :=
  e.priority == other.priority && e.selector.same other.selector

/-- Whether some packet could be selected by both, at one priority. -/
def overlaps (e other : FlowEntry) : Bool :=
  e.priority == other.priority && e.selector.overlaps other.selector

end FlowEntry

structure FlowTable where
  /-- How many entries the table holds at most. -/
  capacity : Nat
  entries : List FlowEntry := []
  /-- How many entries were taken in and not given up. -/
  active : UseCount := {}
  /-- How often the table was asked. -/
  lookups : UInt64 := 0
  /-- How many entries were found. -/
  matched : UInt64 := 0

namespace FlowTable

instance : Inhabited FlowTable := ⟨{ capacity := 0 }⟩

def find? (t : FlowTable) (id : UInt64) : Option FlowEntry := t.entries.find? (·.ref.id == id)

def isFull (t : FlowTable) : Bool := t.capacity ≤ t.entries.length

/-- Puts an entry before the first one that it precedes. -/
def insert (t : FlowTable) (e : FlowEntry) : FlowTable :=
  { t with entries :=
      t.entries.takeWhile (!e.precedes ·) ++ e :: t.entries.dropWhile (!e.precedes ·) }

/-- Takes in an entry. -/
def enroll (t : FlowTable) (e : FlowEntry) : FlowTable :=
  { t.insert e with active := t.active.increment }

/-- Puts in an entry for the first one that is identical to it. -/
def replace (t : FlowTable) (e : FlowEntry) : FlowTable :=
  { t with entries := t.entries.eraseP e.isIdentical }.insert e

/-- Gives up the first entry with a number. -/
def release (t : FlowTable) (id : UInt64) : FlowTable :=
  { t with entries := t.entries.eraseP (·.ref.id == id), active := t.active.decrement }

/-- Changes the first entry with a number. -/
def modify (t : FlowTable) (id : UInt64) (change : FlowEntry → FlowEntry) : FlowTable :=
  { t with entries := t.entries.modify (t.entries.findIdx (·.ref.id == id)) change }

/-- Counts a look into the table that found `found` entries. -/
def countLookup (t : FlowTable) (found : Nat) : FlowTable :=
  { t with lookups := t.lookups + 1, matched := t.matched + found.toUInt64 }

/-- The entry that a packet follows: the first one whose match covers it. -/
def classify? (t : FlowTable) (packet : Match) : Option FlowEntry :=
  t.entries.find? fun e => e.selector.covers packet

/-- An entry that is put in displaces no other. -/
theorem insert_perm (t : FlowTable) (e : FlowEntry) :
    (t.insert e).entries.Perm (e :: t.entries) := by
  unfold insert
  exact List.perm_middle.trans (by rw [List.takeWhile_append_dropWhile])

end FlowTable

structure TableStats where
  table : TableId
  active : Nat
  lookups : UInt64
  matched : UInt64
  deriving DecidableEq, Repr

/-- What a flow table can do. -/
structure TableFeatures where
  table : TableId
  name : String
  metadataMatch : UInt64
  metadataWrite : UInt64
  config : UInt32
  capacity : Nat
  instructions : List InstructionKind
  /-- The tables that packets may go on to. -/
  next : List TableId
  writeActions : List ActionKind
  applyActions : List ActionKind
  fields : List Field
  wildcards : List Field
  writeFields : List Field
  applyFields : List Field
  deriving DecidableEq, Repr

namespace TableId

/-- Every flow table, in order. -/
def list : List TableId := (List.range count).map Nat.toUInt8

/-- The metadata bits that a table can write. -/
def writableMetadata : UInt64 := 0xffffffffffffffff

end TableId

namespace FlowTable

def stats (t : FlowTable) (table : TableId) : TableStats :=
  { table, active := t.active.count, lookups := t.lookups, matched := t.matched }

def features (t : FlowTable) (table : TableId) : TableFeatures :=
  { table, name := s!"table{table}", metadataMatch := 0xffffffffffffffff
    metadataWrite := TableId.writableMetadata, config := 0, capacity := t.capacity
    instructions := InstructionKind.supported, next := TableId.list.filter (table < ·)
    writeActions := ActionKind.supported, applyActions := ActionKind.supported
    fields := Field.all, wildcards := Field.all, writeFields := Field.all
    applyFields := Field.all }

end FlowTable

end FlowSwitch
