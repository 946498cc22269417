/-!
# Bytes

A frame is a list of bytes. A slice is a `take` of a `drop`, a write keeps the
length, and a word is a big-endian number as wide as the bytes it is read from.
Reads and writes past the end are refused, never clipped.
-/

namespace FlowSwitch

abbrev Bytes := List UInt8

namespace Bytes

/-- The `n` bytes at `offset`, if all of them are there. -/
def slice? (d : Bytes) (offset n : Nat) : Option Bytes :=
  if offset + n ≤ d.length then some ((d.drop offset).take n) else none

/-- The number that `d` spells in base 256, most significant byte first. -/
def toNat (d : Bytes) : Nat := d.foldl (fun acc b => acc * 256 + b.toNat) 0

/-- The last `n` base 256 digits of `v`, most significant first. -/
def ofNat : Nat → Nat → Bytes
  | 0, _ => []
  | n + 1, v => ofNat n (v / 256) ++ [v.toUInt8]

/-- The big-endian word of `n` bytes at `offset`, if all of them are there. -/
def word? (d : Bytes) (n offset : Nat) : Option (BitVec (8 * n)) :=
  (d.slice? offset n).map fun s => BitVec.ofNat (8 * n) s.toNat

/-- The big-endian word of `n` bytes at `offset`; zero where `word?` finds none. -/
def word (d : Bytes) (n offset : Nat) : BitVec (8 * n) := (d.word? n offset).getD 0

/-- The byte at `offset`; zero past the end. -/
def byte (d : Bytes) (offset : Nat) : BitVec 8 := (d[offset]?.getD 0).toBitVec

/-- The bytes of a word, most significant first. -/
def ofWord (n : Nat) (w : BitVec (8 * n)) : Bytes := ofNat n w.toNat

/-- Replaces the bytes at `offset` by `s`, if `s` fits there. -/
def overwrite? (d : Bytes) (offset : Nat) (s : Bytes) : Option Bytes :=
  if offset + s.length ≤ d.length then
    some (d.take offset ++ s ++ d.drop (offset + s.length))
  else none

/-- Replaces the bytes at `offset` by `s`; changes nothing if `s` does not fit there. -/
def overwrite (d : Bytes) (offset : Nat) (s : Bytes) : Bytes := (d.overwrite? offset s).getD d

/-- Inserts `s` before the byte at `offset`. -/
def insertAt (d : Bytes) (offset : Nat) (s : Bytes) : Bytes := d.take offset ++ s ++ d.drop offset

/-- Removes `n` bytes at `offset`. -/
def removeAt (d : Bytes) (offset n : Nat) : Bytes := d.take offset ++ d.drop (offset + n)

/-- Appends zeros up to a length of `n`. -/
def padTo (d : Bytes) (n : Nat) : Bytes := d ++ List.replicate (n - d.length) 0

@[simp]
theorem length_ofNat (n v : Nat) : (ofNat n v).length = n := by
  induction n generalizing v with
  | zero => rfl
  | succ n ih => simp [ofNat, ih]

@[simp]
theorem length_overwrite (d : Bytes) (offset : Nat) (s : Bytes) :
    (d.overwrite offset s).length = d.length := by
  unfold overwrite overwrite?
  split
  · simp only [Option.getD_some, List.length_append, List.length_take, List.length_drop]
    omega
  · rfl

end Bytes

end FlowSwitch
