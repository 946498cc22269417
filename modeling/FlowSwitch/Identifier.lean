/-!
# Identifiers

Numbers of tables, ports, groups and meters, and the ones among them that the
protocol sets aside. Everything up to the last ordinary number names an object
of the switch; the rest names a role. Flow entries are named by their table and
a number of their own.
-/

namespace FlowSwitch

abbrev TableId := UInt8

namespace TableId

/-- The last flow table. -/
def last : TableId := 254

/-- Addresses every table. -/
def all : TableId := 255

/-- The number of flow tables. -/
def count : Nat := 255

end TableId

abbrev PortNo := UInt32

namespace PortNo

/-- The last physical port. -/
def last : PortNo := 0xffffff00

/-- The port the packet came in by. -/
def inPort : PortNo := 0xfffffff8

/-- The first flow table. -/
def table : PortNo := 0xfffffff9

/-- Processing as an ordinary bridge. -/
def normal : PortNo := 0xfffffffa

/-- All ports but the one the packet came in by. -/
def flood : PortNo := 0xfffffffb

/-- All ports but the one the packet came in by. -/
def all : PortNo := 0xfffffffc

def controller : PortNo := 0xfffffffd

/-- The network stack of the switch itself. -/
def localPort : PortNo := 0xfffffffe

/-- No particular port. -/
def any : PortNo := 0xffffffff

def isPhysical (p : PortNo) : Bool := 1 ≤ p && p ≤ last

/-- Whether a packet can come from here: from a physical port or the controller. -/
def isSource (p : PortNo) : Bool := p.isPhysical || p == controller

end PortNo

abbrev GroupId := UInt32

namespace GroupId

/-- The last group. -/
def last : GroupId := 0xffffff00

def all : GroupId := 0xfffffffc

/-- No particular group. -/
def any : GroupId := 0xffffffff

end GroupId

abbrev MeterId := UInt32

namespace MeterId

/-- The last flow meter. -/
def last : MeterId := 0xffff0000

/-- The meter of packets that the switch itself handles. -/
def slowPath : MeterId := 0xfffffffd

/-- The meter of packets sent to the controller. -/
def controller : MeterId := 0xfffffffe

def all : MeterId := 0xffffffff

end MeterId

/-- Names a flow entry. -/
@[ext]
structure EntryRef where
  table : TableId
  id : UInt64
  deriving DecidableEq, Repr

/-- The buffer of a packet that is not buffered. -/
def noBuffer : UInt32 := 0xffffffff

/-- The length limit that asks for a whole packet, unbuffered. -/
def wholePacket : UInt16 := 0xffff

end FlowSwitch
