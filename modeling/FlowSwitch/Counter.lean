/-!
# Counters

Packets and bytes are counted in 64 bit words that wrap. The users of a group or
meter and the entries of a table are counted up to the largest 32 bit number, and the
count stays there.
-/

namespace FlowSwitch

/-- Packets and bytes. -/
structure Counter where
  packets : UInt64 := 0
  bytes : UInt64 := 0
  deriving DecidableEq, Repr

namespace Counter

/-- Counts one packet of `length` bytes. -/
def add (c : Counter) (length : Nat) : Counter :=
  ⟨c.packets + 1, c.bytes + length.toUInt64⟩

end Counter

/-- How many flow entries use or are in something. -/
structure UseCount where
  count : Nat := 0
  deriving DecidableEq, Repr

namespace UseCount

def limit : Nat := 0xffffffff

def increment (u : UseCount) : UseCount := ⟨min (u.count + 1) limit⟩

def decrement (u : UseCount) : UseCount := ⟨u.count - 1⟩

end UseCount

end FlowSwitch
