import FlowSwitch.Group.Bucket
import FlowSwitch.Registry
import FlowSwitch.Time

/-!
# Groups

A group sends packets on through its buckets: through all of them, through one of
them chosen by weight, or through its only one. A bucket may name another group,
which has to be there when the bucket is installed.
-/

namespace FlowSwitch

inductive GroupType
  | all
  | select
  | indirect
  | fastFailover
  deriving DecidableEq, Repr

namespace GroupType

def list : List GroupType := [all, select, indirect, fastFailover]

/-- The protocol number of a type. -/
def number (t : GroupType) : Nat := t.ctorIdx

/-- The bitmap of a list of types: bit `n` stands for type number `n`. -/
def bits (types : List GroupType) : BitVec 32 :=
  types.foldl (fun acc t => acc ||| (1 <<< t.number)) 0

end GroupType

inductive GroupCapability
  | selectWeight
  | selectLiveness
  | chaining
  | chainingChecks
  deriving DecidableEq, Repr

namespace GroupCapability

/-- The bitmap of a list of capabilities, in the order above. -/
def bits (capabilities : List GroupCapability) : BitVec 32 :=
  capabilities.foldl (fun acc c => acc ||| (1 <<< c.ctorIdx)) 0

end GroupCapability

structure GroupFeatures where
  types : List GroupType
  capabilities : List GroupCapability
  maxGroups : GroupType → UInt32
  actions : GroupType → List ActionKind

structure Group where
  type : GroupType
  buckets : List Bucket
  uses : UseCount := {}
  counter : Counter := {}
  createdAt : Time
  deriving DecidableEq

structure GroupStats where
  id : GroupId
  uses : Nat
  counter : Counter
  duration : Time
  buckets : List Counter
  deriving DecidableEq, Repr

namespace Group

/-- What this table of groups can do. -/
def features : GroupFeatures where
  types := [.all, .select, .indirect]
  capabilities := [.selectLiveness, .chaining]
  maxGroups type := if type = .fastFailover then 0 else GroupId.last
  actions type := if type = .fastFailover then [] else ActionKind.supported

def count (g : Group) (length : Nat) : Group := { g with counter := g.counter.add length }

/-- Counts a packet in one of the buckets. -/
def countBucket (g : Group) (bucket length : Nat) : Group :=
  { g with buckets := g.buckets.modify bucket (·.count length) }

/-- Whether a group may have this type and these buckets. The first fault found is reported. -/
def validate (type : GroupType) (buckets : List Bucket) (known : Known) :
    Except SwitchError Unit := do
  if type ∉ features.types then throw (.groupModFailed .badType)
  Bucket.validateAll buckets known
  if type = .indirect ∧ buckets.length ≠ 1 then throw (.groupModFailed .badBucket)

def stats (id : GroupId) (g : Group) (now : Time) : GroupStats :=
  { id, uses := g.uses.count, counter := g.counter, duration := now - g.createdAt
    buckets := g.buckets.map (·.counter) }

end Group

/-- Groups by number, in the order in which they were added. -/
abbrev GroupTable := Registry GroupId Group

namespace GroupTable

/-- The ports given, and the groups of the table. -/
def known (t : GroupTable) (hasPort : PortNo → Bool) : Known := ⟨hasPort, t.contains⟩

/-- The groups that a number stands for: the one, if it is there, or all of them. -/
def matching (t : GroupTable) (id : GroupId) : List GroupId :=
  t.keys.filter fun k => id == GroupId.all || k == id

def add (t : GroupTable) (id : GroupId) (type : GroupType) (buckets : List Bucket)
    (hasPort : PortNo → Bool) (now : Time) : Except SwitchError GroupTable := do
  if id > GroupId.last then throw (.groupModFailed .invalidGroup)
  if type ∉ Group.features.types then throw (.groupModFailed .badType)
  if t.contains id then throw (.groupModFailed .groupExists)
  Group.validate type buckets (t.known hasPort)
  return t.insert id { type, buckets, createdAt := now }

/-- Gives a group another type and other buckets. Its uses and its own counter are kept. -/
def update (t : GroupTable) (id : GroupId) (type : GroupType) (buckets : List Bucket)
    (hasPort : PortNo → Bool) : Except SwitchError GroupTable := do
  if id > GroupId.last then throw (.groupModFailed .invalidGroup)
  if !t.contains id then throw (.groupModFailed .unknownGroup)
  Group.validate type buckets (t.known hasPort)
  return t.modify id fun g => { g with type, buckets }

def reference (t : GroupTable) (id : GroupId) : GroupTable :=
  t.modify id fun g => { g with uses := g.uses.increment }

def unreference (t : GroupTable) (id : GroupId) : GroupTable :=
  t.modify id fun g => { g with uses := g.uses.decrement }

/-- Statistics of a group, or of all of them. -/
def stats (t : GroupTable) (id : GroupId) (now : Time) : Except SwitchError (List GroupStats) :=
  if id = GroupId.all then .ok (t.entries.map fun (id, g) => g.stats id now)
  else
    match t.get? id with
    | some g => .ok [g.stats id now]
    | none => .error (.badRequest .badTableId)

end GroupTable

end FlowSwitch
