import FlowSwitch.Counter
import FlowSwitch.Error
import FlowSwitch.Identifier
import FlowSwitch.Registry
import FlowSwitch.Time

/-!
# Meters

A meter measures the rate of the packets that pass it and has bands, each of
which says what happens to packets above a rate. The table holds meters by
number. Here meters are configured; `Meter.Police` measures packets.
-/

namespace FlowSwitch

inductive BandType
  | drop
  | dscpRemark
  | experimenter
  deriving DecidableEq, Repr

namespace BandType

/-- The protocol number of a type. -/
def number : BandType → Nat
  | drop => 1
  | dscpRemark => 2
  | experimenter => 0xffff

/-- The bitmap of a list of types: bit `n` stands for type number `n`. -/
def bits (types : List BandType) : BitVec 32 :=
  types.foldl (fun acc t => acc ||| (1 <<< t.number)) 0

end BandType

/-- What a band does above a rate. Rates and burst sizes are in kilobits, or in packets. -/
structure BandConfig where
  type : BandType
  rate : UInt32
  burstSize : UInt32
  /-- By how much a remark raises the drop precedence. -/
  precedence : UInt8
  deriving DecidableEq, Repr

/-- A band with the packets that it hit and the level of its token bucket. -/
structure Band where
  config : BandConfig
  counter : Counter := {}
  level : UInt64 := 0
  deriving DecidableEq, Repr

structure MeterFlags where
  kilobits : Bool := false
  packets : Bool := false
  burst : Bool := false
  statistics : Bool := false
  deriving DecidableEq, Repr

namespace MeterFlags

/-- The flags of a bitmap. Bits without a meaning are dropped. -/
def ofBits (n : Nat) : MeterFlags := ⟨n.testBit 0, n.testBit 1, n.testBit 2, n.testBit 3⟩

def bits (f : MeterFlags) : BitVec 16 :=
  (0 : BitVec 12) ++ BitVec.ofBool f.statistics ++ BitVec.ofBool f.burst
    ++ BitVec.ofBool f.packets ++ BitVec.ofBool f.kilobits

end MeterFlags

structure Meter where
  flags : MeterFlags
  bands : List Band
  uses : UseCount := {}
  counter : Counter := {}
  createdAt : Time
  /-- When the last packet was measured. -/
  measuredAt : Time
  /-- The moving average of the rate, in packets or bits per second. -/
  estimate : Float := 0.0

structure MeterStats where
  id : MeterId
  flows : Nat
  counter : Counter
  duration : Time
  bands : List Counter
  deriving DecidableEq, Repr

structure MeterConfig where
  id : MeterId
  flags : MeterFlags
  bands : List BandConfig
  deriving DecidableEq, Repr

structure MeterFeatures where
  lastMeter : MeterId := MeterId.last
  bandTypes : List BandType := [.drop, .dscpRemark]
  flags : MeterFlags := ⟨true, true, true, true⟩
  maxBands : Nat := 255
  maxColor : Nat := 0
  deriving DecidableEq, Repr

namespace Meter

/-- What this table of meters can do. -/
def features : MeterFeatures := {}

/-- Whether a meter may have these flags and bands. The first fault found is reported. -/
def validate (flags : MeterFlags) (bands : List BandConfig) : Except SwitchError Unit := do
  if flags.kilobits && flags.packets then throw (.meterModFailed .badFlags)
  if bands.isEmpty || bands.length > features.maxBands then throw (.meterModFailed .badBand)
  bands.forM fun b => do
    if b.type == .experimenter then throw (.meterModFailed .badBand)
    if b.rate == 0 then throw (.meterModFailed .badRate)

def stats (id : MeterId) (m : Meter) (now : Time) : MeterStats :=
  { id, flows := m.uses.count, counter := m.counter, duration := now - m.createdAt
    bands := m.bands.map (·.counter) }

def config (id : MeterId) (m : Meter) : MeterConfig :=
  { id, flags := m.flags, bands := m.bands.map (·.config) }

end Meter

/-- Meters by number, in the order in which they were added. -/
abbrev MeterTable := Registry MeterId Meter

namespace MeterId

/-- Whether a meter can have this number. -/
def isMeter (id : MeterId) : Bool := id != 0 && (id ≤ last || id == controller)

/-- The numbers that `all` stands for when meters are removed. -/
def isOrdinary (id : MeterId) : Bool := 1 ≤ id && id ≤ last

end MeterId

namespace MeterTable

def add (t : MeterTable) (id : MeterId) (flags : MeterFlags) (bands : List BandConfig)
    (now : Time) : Except SwitchError MeterTable := do
  if !id.isMeter then throw (.meterModFailed .invalidMeter)
  if t.contains id then throw (.meterModFailed .meterExists)
  Meter.validate flags bands
  return t.insert id
    { flags, bands := bands.map ({ config := · }), createdAt := now, measuredAt := now }

/-- Gives a meter other flags and bands. Its uses, its own counter and its estimate are kept. -/
def replace (t : MeterTable) (id : MeterId) (flags : MeterFlags) (bands : List BandConfig) :
    Except SwitchError MeterTable := do
  if !t.contains id then throw (.meterModFailed .unknownMeter)
  Meter.validate flags bands
  return t.modify id fun m => { m with flags, bands := bands.map ({ config := · }) }

/-- Removes a meter, or all ordinary ones. -/
def remove (t : MeterTable) (id : MeterId) : Except SwitchError MeterTable :=
  if id = MeterId.all then .ok (t.filterKeys fun k => !k.isOrdinary)
  else if t.contains id then .ok (t.erase id)
  else .error (.meterModFailed .unknownMeter)

def reference (t : MeterTable) (id : MeterId) : MeterTable :=
  t.modify id fun m => { m with uses := m.uses.increment }

def unreference (t : MeterTable) (id : MeterId) : MeterTable :=
  t.modify id fun m => { m with uses := m.uses.decrement }

/-- A meter with its number, or all of them. -/
def selected (t : MeterTable) (id : MeterId) : Except SwitchError (List (MeterId × Meter)) :=
  if id = MeterId.all then .ok t.entries
  else
    match t.get? id with
    | some m => .ok [(id, m)]
    | none => .error (.meterModFailed .unknownMeter)

def stats (t : MeterTable) (id : MeterId) (now : Time) : Except SwitchError (List MeterStats) :=
  return (← t.selected id).map fun (id, m) => m.stats id now

def config (t : MeterTable) (id : MeterId) : Except SwitchError (List MeterConfig) :=
  return (← t.selected id).map fun (id, m) => m.config id

end MeterTable

end FlowSwitch
