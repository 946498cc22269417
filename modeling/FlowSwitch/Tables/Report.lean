import FlowSwitch.Tables.Basic

/-!
# Reports on flow tables

Statistics of entries and tables, and what a table can do. What a table can do
cannot be changed.
-/

namespace FlowSwitch

namespace Tables

/-- Statistics of the entries that pass a filter. -/
def flowStats (t : Tables) (f : FlowFilter) (now : Time) : List FlowStats × Tables :=
  let (selected, t) := t.select f none
  (selected.map (·.stats now), t)

def tableStats (t : Tables) : List TableStats :=
  List.zipWith FlowTable.stats t.flow.toList TableId.list

def features (t : Tables) (table : TableId) : Except SwitchError TableFeatures :=
  match t.flowTable? table with
  | some f => .ok (f.features table)
  | none => .error (.badRequest .badTableId)

def setFeatures (_ : Tables) (_ : TableFeatures) : Except SwitchError Tables :=
  .error .notSupported

/-- The settings of a table, of which there are none. -/
def config (t : Tables) (table : TableId) : Except SwitchError UInt32 :=
  (t.features table).map (·.config)

def setConfig (_ : Tables) (_ : TableId) (_ : UInt32) : Except SwitchError Tables :=
  .error .notSupported

end Tables

end FlowSwitch
