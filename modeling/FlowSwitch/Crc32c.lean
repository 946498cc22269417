import FlowSwitch.Bytes

/-!
# CRC-32C

The reflected Castagnoli code, one table look-up per byte. `shift` is the step
that takes one bit; a table word is eight such steps. `updateBitwise` runs the
same code bit by bit, without the table.
-/

namespace FlowSwitch.Crc32c

def polynomial : BitVec 32 := 0x82f63b78

/-- Takes one bit from the low end of the state. -/
def shift (crc : BitVec 32) : BitVec 32 :=
  if crc.getLsbD 0 then (crc >>> 1) ^^^ polynomial else crc >>> 1

def shift8 (crc : BitVec 32) : BitVec 32 :=
  shift (shift (shift (shift (shift (shift (shift (shift crc)))))))

/-- Eight steps for each value of the low byte. -/
def table : Array (BitVec 32) := (Array.range 256).map fun i => shift8 (BitVec.ofNat 32 i)

/-- Takes one byte through the table. -/
def step (crc : BitVec 32) (b : UInt8) : BitVec 32 :=
  table.getD ((crc ^^^ BitVec.ofNat 32 b.toNat) &&& 0xff).toNat 0 ^^^ (crc >>> 8)

/-- Folds bytes into a running state. -/
def update (crc : BitVec 32) (d : Bytes) : BitVec 32 := d.foldl step crc

/-- Folds bytes into a running state one bit at a time. -/
def updateBitwise (crc : BitVec 32) (d : Bytes) : BitVec 32 :=
  d.foldl (fun c b => shift8 (c ^^^ BitVec.ofNat 32 b.toNat)) crc

def crc32c (d : Bytes) : BitVec 32 := ~~~ update (BitVec.allOnes 32) d

/-- The bytes of a word, least significant first. -/
def littleEndian (w : BitVec 32) : Bytes := (Bytes.ofWord 4 w).reverse

/-- The checksum field of an SCTP packet. The field itself, bytes 8 to 11, counts as zero. -/
def sctp (packet : Bytes) : Bytes :=
  littleEndian <| crc32c <|
    if 12 ≤ packet.length then packet.take 8 ++ [0, 0, 0, 0] ++ packet.drop 12 else packet

end FlowSwitch.Crc32c
