import FlowSwitch.Counter
import FlowSwitch.Flow.Instruction
import FlowSwitch.Time

/-!
# Flow entries

A flow entry selects packets by a match and says what to do with them. It may
expire, a fixed time after it was added or some time after its last packet.
-/

namespace FlowSwitch

structure FlowFlags where
  /-- Reports the removal of the entry. -/
  sendRemoved : Bool := false
  /-- Refuses the entry where it overlaps another of its priority. -/
  checkOverlap : Bool := false
  resetCounts : Bool := false
  noPacketCounts : Bool := false
  noByteCounts : Bool := false
  deriving DecidableEq, Repr

namespace FlowFlags

/-- The flags of a bitmap. Bits without a meaning are dropped. -/
def ofBits (n : Nat) : FlowFlags :=
  ⟨n.testBit 0, n.testBit 1, n.testBit 2, n.testBit 3, n.testBit 4⟩

def bits (f : FlowFlags) : BitVec 16 :=
  (0 : BitVec 11) ++ BitVec.ofBool f.noByteCounts ++ BitVec.ofBool f.noPacketCounts
    ++ BitVec.ofBool f.resetCounts ++ BitVec.ofBool f.checkOverlap ++ BitVec.ofBool f.sendRemoved

end FlowFlags

structure FlowEntry where
  ref : EntryRef := ⟨0, 0⟩
  priority : UInt16
  selector : Match
  instructions : InstructionSet
  cookie : UInt64 := 0
  /-- Seconds after the last packet; zero for never. -/
  idleTimeout : UInt16 := 0
  /-- Seconds after the entry was added; zero for never. -/
  hardTimeout : UInt16 := 0
  flags : FlowFlags := {}
  counter : Counter := {}
  createdAt : Time
  lastSeen : Time
  deriving DecidableEq

inductive RemovalReason
  | idleTimeout
  | hardTimeout
  | delete
  | groupDelete
  deriving DecidableEq, Repr

/-- Reports that a flow entry was removed. -/
structure FlowRemoved where
  cookie : UInt64
  priority : UInt16
  reason : RemovalReason
  table : TableId
  duration : Time
  idleTimeout : UInt16
  hardTimeout : UInt16
  counter : Counter
  selector : Match
  deriving DecidableEq

structure FlowStats where
  table : TableId
  duration : Time
  priority : UInt16
  idleTimeout : UInt16
  hardTimeout : UInt16
  flags : FlowFlags
  cookie : UInt64
  counter : Counter
  selector : Match
  instructions : InstructionSet
  deriving DecidableEq

namespace FlowEntry

/-- Whether the entry is there for the packets that no other entry selects. -/
def isTableMiss (e : FlowEntry) : Bool := e.priority == 0 && e.selector.isAny

/-- Whether the cookie agrees with `cookie` on the bits of `mask`. -/
def cookieMatches (e : FlowEntry) (cookie mask : UInt64) : Bool :=
  e.cookie &&& mask == cookie &&& mask

/-- Counts a packet of `length` bytes. -/
def count (e : FlowEntry) (length : Nat) (now : Time) : FlowEntry :=
  let counted := e.counter.add length
  { e with
    counter := {
      packets := if e.flags.noPacketCounts then e.counter.packets else counted.packets
      bytes := if e.flags.noByteCounts then e.counter.bytes else counted.bytes }
    lastSeen := now }

/-- Whether `timeout` seconds have passed since a point in time. -/
def elapsed (since : Time) (timeout : UInt16) (now : Time) : Bool :=
  0 < timeout && timeout.toNat * Time.second ≤ now - since

/-- Why the entry has expired, if it has. The hard timeout is looked at first. -/
def expired? (e : FlowEntry) (now : Time) : Option RemovalReason :=
  if elapsed e.createdAt e.hardTimeout now then some .hardTimeout
  else if elapsed e.lastSeen e.idleTimeout now then some .idleTimeout
  else none

def stats (e : FlowEntry) (now : Time) : FlowStats :=
  { table := e.ref.table, duration := now - e.createdAt, priority := e.priority
    idleTimeout := e.idleTimeout, hardTimeout := e.hardTimeout, flags := e.flags
    cookie := e.cookie, counter := e.counter, selector := e.selector
    instructions := e.instructions }

def removed (e : FlowEntry) (reason : RemovalReason) (now : Time) : FlowRemoved :=
  { cookie := e.cookie, priority := e.priority, reason, table := e.ref.table
    duration := now - e.createdAt, idleTimeout := e.idleTimeout, hardTimeout := e.hardTimeout
    counter := e.counter, selector := e.selector }

end FlowEntry

end FlowSwitch
