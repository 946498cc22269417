import FlowSwitch.Action.Basic

/-!
# The action set

A packet gathers actions while it goes through the tables: one of each kind, the
last one written. Set-field actions are merged field by field instead. The set
is carried out in an order of its own, and without its output if it has a group.
-/

namespace FlowSwitch

/-- An action and the flow entry that wrote it. -/
structure WrittenAction where
  action : Action
  origin : Option EntryRef
  deriving DecidableEq

structure ActionSet where
  get : ActionKind → Option WrittenAction

namespace ActionSet

/-- The kinds of action in the order in which a set is carried out. -/
def order : List ActionKind :=
  [.copyTtlIn, .popVlan, .popPbb, .popMpls, .pushMpls, .pushPbb, .pushVlan, .copyTtlOut,
    .decMplsTtl, .decNwTtl, .setMplsTtl, .setNwTtl, .setField, .setQueue, .group, .output]

def empty : ActionSet := ⟨fun _ => none⟩

instance : Inhabited ActionSet := ⟨empty⟩

def put (s : ActionSet) (a : WrittenAction) : ActionSet :=
  ⟨fun k => if k = a.action.kind then some a else s.get k⟩

def writeOne (s : ActionSet) (origin : Option EntryRef) (a : Action) :
    Except SwitchError ActionSet :=
  match a, s.get .setField with
  | .experimenter _, _ => .error (.badAction .badType)
  | .setField fields, some ⟨.setField stored, _⟩ =>
    .ok (s.put ⟨.setField (stored.merge fields), origin⟩)
  | a, _ => .ok (s.put ⟨a, origin⟩)

/-- Writes a list of actions in order. -/
def write (s : ActionSet) (l : ActionList) (origin : Option EntryRef) :
    Except SwitchError ActionSet :=
  l.actions.foldlM (fun s a => s.writeOne origin a) s

def toList (s : ActionSet) : List WrittenAction := order.filterMap s.get

def length (s : ActionSet) : Nat := s.toList.length

def isEmpty (s : ActionSet) : Bool := s.toList.isEmpty

/-- The actions to carry out, in order. -/
def ordered (s : ActionSet) : List WrittenAction :=
  (order.filter fun k => !(k == .output && (s.get .group).isSome)).filterMap s.get

end ActionSet

/-- Kinds of action of which a list for the action set may hold only one. -/
inductive SetCategory
  | output
  | copyTtlOut
  | copyTtlIn
  | pushVlan
  | pushMpls
  | pushPbb
  | pop
  | decTtl
  | setQueue
  | setField
  | group
  deriving DecidableEq, Repr

namespace Action

/-- The category of an action in a set; absent if the action cannot be in one. -/
def setCategory? : Action → Option SetCategory
  | output .. => some .output
  | copyTtlOut => some .copyTtlOut
  | copyTtlIn => some .copyTtlIn
  | pushVlan _ => some .pushVlan
  | pushMpls _ => some .pushMpls
  | pushPbb _ => some .pushPbb
  | popVlan | popMpls _ | popPbb => some .pop
  | decMplsTtl | decNwTtl => some .decTtl
  | setQueue _ => some .setQueue
  | setField _ => some .setField
  | group _ => some .group
  | setMplsTtl _ | setNwTtl _ | experimenter _ => none

end Action

namespace ActionList

/-- Whether every action has a category, and no two the same. -/
def fitsSet (l : ActionList) : Bool :=
  let categories := l.actions.map Action.setCategory?
  categories.all (·.isSome) && decide categories.Nodup

def validateSet (l : ActionList) : Except SwitchError Unit :=
  if l.fitsSet then .ok () else .error (.badAction .unsupportedOrder)

end ActionList

end FlowSwitch
