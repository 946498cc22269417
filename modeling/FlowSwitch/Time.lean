/-!
# Time

Points in time and durations are whole microseconds. Nothing here reads a clock:
whatever depends on the time is given it.
-/

namespace FlowSwitch

/-- Microseconds. -/
abbrev Time := Nat

namespace Time

def second : Time := 1000000

def ofMilliseconds (n : Nat) : Time := n * 1000

/-- A duration in seconds: the whole seconds and the nanoseconds of the rest, converted one
by one and added. -/
def toSeconds (t : Time) : Float :=
  (t / second).toUInt64.toFloat + (t % second * 1000).toUInt64.toFloat / 1e9

end Time

end FlowSwitch
