import FlowSwitch.Flow.Table

/-!
# Flow filters

A filter picks flow entries to change, remove or report: by their table and match
and, if it says so, by their cookie and by the ports and groups that they name.
-/

namespace FlowSwitch

structure FlowFilter where
  /-- A table, or all of them. -/
  table : TableId := TableId.all
  selector : Match := Match.any
  cookie : UInt64 := 0
  /-- The bits of the cookie that count; none for any cookie. -/
  cookieMask : UInt64 := 0
  /-- A port that the entry sends to, or any. -/
  outPort : PortNo := PortNo.any
  /-- A group that the entry names, or any. -/
  outGroup : GroupId := GroupId.any
  deriving DecidableEq

namespace FlowFilter

/-- Whether an entry passes the filter, its table and match aside. -/
def admits (f : FlowFilter) (e : FlowEntry) : Bool :=
  e.cookieMatches f.cookie f.cookieMask
    && (f.outPort == PortNo.any || e.instructions.outputsTo f.outPort)
    && (f.outGroup == GroupId.any || e.instructions.refersToGroup f.outGroup)

/-- The filter's match as a query: of everything it covers, or of itself at a priority. -/
def query (f : FlowFilter) : Option UInt16 → Query
  | none => .covered f.selector
  | some priority => .exactly f.selector priority

end FlowFilter

end FlowSwitch
