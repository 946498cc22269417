import FlowSwitch.Action.Set

/-!
# Instructions

What a flow entry does with the packets it selects: at most one instruction of
each kind.
-/

namespace FlowSwitch

inductive InstructionKind
  | gotoTable
  | writeMetadata
  | writeActions
  | applyActions
  | clearActions
  | meter
  | experimenter
  deriving DecidableEq, Repr

namespace InstructionKind

def all : List InstructionKind :=
  [gotoTable, writeMetadata, writeActions, applyActions, clearActions, meter, experimenter]

/-- The protocol number of a kind of instruction. -/
def number : InstructionKind → Nat
  | gotoTable => 1
  | writeMetadata => 2
  | writeActions => 3
  | applyActions => 4
  | clearActions => 5
  | meter => 6
  | experimenter => 0xffff

/-- The kinds that the switch carries out. -/
def supported : List InstructionKind := all.filter (· != experimenter)

/-- The bitmap of a list of kinds: bit `n` stands for kind number `n`. -/
def bits (kinds : List InstructionKind) : BitVec 32 :=
  kinds.foldl (fun acc k => acc ||| (1 <<< k.number)) 0

end InstructionKind

/-- Replaces the bits of the metadata under `mask` by those of `value`. -/
structure MetadataWrite where
  value : UInt64
  mask : UInt64
  deriving DecidableEq, Repr

namespace MetadataWrite

def apply (w : MetadataWrite) (current : UInt64) : UInt64 :=
  (current &&& ~~~w.mask) ||| (w.value &&& w.mask)

end MetadataWrite

inductive Instruction
  | gotoTable (table : TableId)
  | writeMetadata (write : MetadataWrite)
  | writeActions (actions : ActionList)
  | applyActions (actions : ActionList)
  /-- Empties the action set. The list it comes with has to be empty. -/
  | clearActions (actions : ActionList)
  | meter (id : MeterId)
  | experimenter (id : UInt32)
  deriving DecidableEq

namespace Instruction

def kind : Instruction → InstructionKind
  | gotoTable _ => .gotoTable
  | writeMetadata _ => .writeMetadata
  | writeActions _ => .writeActions
  | applyActions _ => .applyActions
  | clearActions _ => .clearActions
  | meter _ => .meter
  | experimenter _ => .experimenter

end Instruction

structure InstructionSet where
  gotoTable : Option TableId := none
  writeMetadata : Option MetadataWrite := none
  writeActions : Option ActionList := none
  applyActions : Option ActionList := none
  clearActions : Option ActionList := none
  meter : Option MeterId := none
  deriving DecidableEq

namespace InstructionSet

def empty : InstructionSet := {}

instance : Inhabited InstructionSet := ⟨empty⟩

def isEmpty (s : InstructionSet) : Bool := s == empty

/-- The instruction of a kind. -/
def get? (s : InstructionSet) : InstructionKind → Option Instruction
  | .gotoTable => s.gotoTable.map .gotoTable
  | .writeMetadata => s.writeMetadata.map .writeMetadata
  | .writeActions => s.writeActions.map .writeActions
  | .applyActions => s.applyActions.map .applyActions
  | .clearActions => s.clearActions.map .clearActions
  | .meter => s.meter.map .meter
  | .experimenter => none

/-- Adds an instruction of a kind that the set does not have yet. -/
def add (s : InstructionSet) (i : Instruction) : Except SwitchError InstructionSet :=
  if (s.get? i.kind).isSome then .error .invalidParameter
  else
    match i with
    | .gotoTable table => .ok { s with gotoTable := some table }
    | .writeMetadata write => .ok { s with writeMetadata := some write }
    | .writeActions actions => .ok { s with writeActions := some actions }
    | .applyActions actions => .ok { s with applyActions := some actions }
    | .clearActions actions => .ok { s with clearActions := some actions }
    | .meter id => .ok { s with meter := some id }
    | .experimenter _ => .error (.badInstruction .unsupInst)

def ofList (instructions : List Instruction) : Except SwitchError InstructionSet :=
  instructions.foldlM add empty

def erase (s : InstructionSet) : InstructionKind → InstructionSet
  | .gotoTable => { s with gotoTable := none }
  | .writeMetadata => { s with writeMetadata := none }
  | .writeActions => { s with writeActions := none }
  | .applyActions => { s with applyActions := none }
  | .clearActions => { s with clearActions := none }
  | .meter => { s with meter := none }
  | .experimenter => s

/-- Takes the instruction of a kind out of the set. -/
def remove (s : InstructionSet) (kind : InstructionKind) :
    Except SwitchError (Instruction × InstructionSet) :=
  match s.get? kind with
  | some i => .ok (i, s.erase kind)
  | none => .error .invalidParameter

/-- The lists of actions that refer to ports and groups. -/
def actionLists (s : InstructionSet) : List ActionList :=
  s.writeActions.toList ++ s.applyActions.toList

/-- The groups named by the set, once for each time they are named. -/
def groups (s : InstructionSet) : List GroupId := s.actionLists.flatMap (·.groups)

def outputsTo (s : InstructionSet) (port : PortNo) : Bool :=
  s.actionLists.any (·.outputsTo port)

def refersToGroup (s : InstructionSet) (id : GroupId) : Bool := s.groups.contains id

/-- Whether the set may be installed in `table`, in which `writable` are the metadata bits that
can be written. The first fault found is reported. -/
def validate (s : InstructionSet) (table : TableId) (writable : UInt64) (known : Known) :
    Except SwitchError Unit := do
  s.gotoTable.forM fun next => do
    if next > TableId.last || next ≤ table then throw (.badInstruction .badTableId)
  s.writeMetadata.forM fun w => do
    if w.value &&& writable != w.value then throw (.badInstruction .unsupMetadata)
    if w.mask &&& writable != w.mask then throw (.badInstruction .unsupMetadataMask)
  s.writeActions.forM fun actions => do
    actions.validate known
    actions.validateSet
  s.applyActions.forM fun actions => actions.validate known
  s.clearActions.forM fun actions => do
    if !actions.isEmpty then throw (.badAction .badArgument)
  s.meter.forM fun id => do
    if id == 0 || id > MeterId.last then throw (.meterModFailed .invalidMeter)

end InstructionSet

end FlowSwitch
