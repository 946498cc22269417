import FlowSwitch.Identifier
import FlowSwitch.Match.Basic

/-!
# Actions

What a flow entry or a bucket does to a packet, and lists of actions. A list
never holds an experimenter action; it is refused when the list is made.
-/

namespace FlowSwitch

inductive ActionKind
  | output
  | copyTtlOut
  | copyTtlIn
  | setMplsTtl
  | decMplsTtl
  | pushVlan
  | popVlan
  | pushMpls
  | popMpls
  | setQueue
  | group
  | setNwTtl
  | decNwTtl
  | setField
  | pushPbb
  | popPbb
  | experimenter
  deriving DecidableEq, Repr

namespace ActionKind

def all : List ActionKind :=
  [output, copyTtlOut, copyTtlIn, setMplsTtl, decMplsTtl, pushVlan, popVlan, pushMpls, popMpls,
    setQueue, group, setNwTtl, decNwTtl, setField, pushPbb, popPbb, experimenter]

/-- The protocol number of a kind of action. -/
def number : ActionKind → Nat
  | output => 0
  | copyTtlOut => 11
  | copyTtlIn => 12
  | setMplsTtl => 15
  | decMplsTtl => 16
  | pushVlan => 17
  | popVlan => 18
  | pushMpls => 19
  | popMpls => 20
  | setQueue => 21
  | group => 22
  | setNwTtl => 23
  | decNwTtl => 24
  | setField => 25
  | pushPbb => 26
  | popPbb => 27
  | experimenter => 0xffff

/-- The kinds that the switch carries out. -/
def supported : List ActionKind := all.filter (· != experimenter)

/-- The bitmap of a list of kinds: bit `n` stands for kind number `n`. -/
def bits (kinds : List ActionKind) : BitVec 32 :=
  kinds.foldl (fun acc k => acc ||| (1 <<< k.number)) 0

end ActionKind

inductive Action
  /-- Sends the packet; the controller gets at most `maxLength` bytes of it. -/
  | output (port : PortNo) (maxLength : UInt16)
  /-- Copies the TTL of the second header to the outermost one. -/
  | copyTtlOut
  /-- Copies the TTL of the outermost header to the second one. -/
  | copyTtlIn
  | setMplsTtl (ttl : BitVec 8)
  | decMplsTtl
  | pushVlan (etherType : BitVec 16)
  | popVlan
  | pushMpls (etherType : BitVec 16)
  /-- Removes the top label; what is left gets the given ethertype. -/
  | popMpls (etherType : BitVec 16)
  | setQueue (queue : UInt32)
  | group (id : GroupId)
  | setNwTtl (ttl : BitVec 8)
  | decNwTtl
  /-- Sets the valid fields of a match. -/
  | setField (fields : Match)
  | pushPbb (etherType : BitVec 16)
  | popPbb
  | experimenter (id : UInt32)
  deriving DecidableEq

namespace Action

def kind : Action → ActionKind
  | output .. => .output
  | copyTtlOut => .copyTtlOut
  | copyTtlIn => .copyTtlIn
  | setMplsTtl _ => .setMplsTtl
  | decMplsTtl => .decMplsTtl
  | pushVlan _ => .pushVlan
  | popVlan => .popVlan
  | pushMpls _ => .pushMpls
  | popMpls _ => .popMpls
  | setQueue _ => .setQueue
  | group _ => .group
  | setNwTtl _ => .setNwTtl
  | decNwTtl => .decNwTtl
  | setField _ => .setField
  | pushPbb _ => .pushPbb
  | popPbb => .popPbb
  | experimenter _ => .experimenter

def isExperimenter (a : Action) : Bool := a.kind == .experimenter

end Action

structure ActionList where
  actions : List Action
  supported : ∀ a ∈ actions, a.isExperimenter = false
  deriving DecidableEq

namespace ActionList

def empty : ActionList := ⟨[], by simp⟩

instance : Inhabited ActionList := ⟨empty⟩

def ofList (actions : List Action) : Except SwitchError ActionList :=
  if h : ∀ a ∈ actions, a.isExperimenter = false then .ok ⟨actions, h⟩
  else .error (.badAction .badType)

def append (l : ActionList) (a : Action) : Except SwitchError ActionList :=
  ofList (l.actions ++ [a])

/-- Removes the first action equal to `a`. -/
def remove (l : ActionList) (a : Action) : Except SwitchError ActionList :=
  if a ∈ l.actions then
    .ok ⟨l.actions.erase a, fun b hb => l.supported b (List.mem_of_mem_erase hb)⟩
  else .error .notFound

def length (l : ActionList) : Nat := l.actions.length

def isEmpty (l : ActionList) : Bool := l.actions.isEmpty

def outputsTo (l : ActionList) (port : PortNo) : Bool :=
  l.actions.any fun
    | .output p _ => p == port
    | _ => false

/-- The groups named by the list, once for each time they are named. -/
def groups (l : ActionList) : List GroupId :=
  l.actions.filterMap fun
    | .group id => some id
    | _ => none

end ActionList

/-- What an action may refer to. -/
structure Known where
  hasPort : PortNo → Bool
  hasGroup : GroupId → Bool

namespace Action

/-- Whether the port or group that an action names is there. -/
def validate (known : Known) : Action → Except SwitchError Unit
  | output port _ =>
    if port.isPhysical then
      if known.hasPort port then .ok () else .error (.badAction .badOutPort)
    else if port ∈ [PortNo.all, PortNo.flood, PortNo.inPort, PortNo.controller, PortNo.table] then
      .ok ()
    else .error (.badAction .badOutPort)
  | group id => if known.hasGroup id then .ok () else .error (.badAction .badOutGroup)
  | experimenter _ => .error (.badAction .badType)
  | _ => .ok ()

end Action

namespace ActionList

/-- Checks each action in order. -/
def validate (l : ActionList) (known : Known) : Except SwitchError Unit :=
  l.actions.forM (Action.validate known)

end ActionList

end FlowSwitch
