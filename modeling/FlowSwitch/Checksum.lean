import FlowSwitch.Bytes

/-!
# The Internet checksum

Sums run over big-endian 16 bit words and are folded at the end, so that the
partial sums of a pseudo header, a header and a payload can be added first.
A sum is a plain number; nothing here wraps.
-/

namespace FlowSwitch.Checksum

/-- Adds the carry above 16 bits once. -/
def fold (acc : Nat) : Nat := acc % 0x10000 + acc / 0x10000

/-- Partial sum of `d` on top of `acc`, folded after each word. An odd last byte
counts as the high byte of a word and is left unfolded. -/
def sumFrom (acc : Nat) : Bytes → Nat
  | hi :: lo :: rest => sumFrom (fold (acc + (hi.toNat * 256 + lo.toNat))) rest
  | [last] => acc + last.toNat * 256
  | [] => acc

def sum (d : Bytes) : Nat := sumFrom 0 d

/-- Folds a partial sum and complements it. Two folds bring every sum below `2 ^ 32`
down to 16 bits. -/
def finish (acc : Nat) : BitVec 16 := ~~~ BitVec.ofNat 16 (fold (fold acc))

def checksum (d : Bytes) : BitVec 16 := finish (sum d)

/-- A block that contains its own checksum sums to zero. -/
def verify (d : Bytes) : Bool := checksum d == 0

/-- Partial sum of the IPv4 pseudo header: addresses, protocol, length. -/
def pseudoHeader4 (src dst : BitVec 32) (proto : BitVec 8) (length : Nat) : Nat :=
  sum (Bytes.ofWord 4 src) + sum (Bytes.ofWord 4 dst) + proto.toNat + length % 0x10000

/-- Partial sum of the IPv6 pseudo header: addresses, 32 bit length, next header. -/
def pseudoHeader6 (src dst : BitVec 128) (next : BitVec 8) (length : Nat) : Nat :=
  sum (Bytes.ofWord 16 src) + sum (Bytes.ofWord 16 dst)
    + length / 0x10000 + length % 0x10000 + next.toNat

/-- The checksum after one of the words it covers changed from `old` to `new`. -/
def update (checksum old new : BitVec 16) : BitVec 16 :=
  finish ((~~~ checksum).toNat + (~~~ old).toNat + new.toNat)

end FlowSwitch.Checksum
