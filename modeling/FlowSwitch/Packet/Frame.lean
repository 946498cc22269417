import FlowSwitch.Error
import FlowSwitch.Packet.Parse

/-!
# Frames

An Ethernet frame without its check sequence, and a view of it: the headers that
were read from the bytes and the context that the wire does not carry. Editing
the bytes leaves the view as it was; `reparse` brings it up to date and keeps the
context.
-/

namespace FlowSwitch

/-- What is known about a packet besides its bytes. -/
structure PacketContext where
  inPort : UInt32 := 0
  inPhyPort : UInt32 := 0
  metadata : UInt64 := 0
  tunnelId : UInt64 := 0
  queueId : UInt32 := 0
  deriving DecidableEq, Repr

structure PacketView where
  headers : Headers
  context : PacketContext := {}
  deriving DecidableEq, Repr

structure Frame where
  data : Bytes
  view : Option PacketView := none
  deriving DecidableEq, Repr

inductive SpliceError
  | offsetOutOfRange (offset length : Nat)
  | notLongEnough (offset requested : Nat)
  | tooLong (length : Nat)
  deriving DecidableEq, Repr

namespace SpliceError

def message : SpliceError → String
  | offsetOutOfRange offset length => s!"offset {offset} is past the end of a {length} byte frame"
  | notLongEnough offset requested =>
    s!"frame not long enough to remove {requested} bytes at {offset}"
  | tooLong length => s!"frame would grow to {length} bytes"

end SpliceError

namespace Bytes

/-- No insertion may make a frame longer than this. -/
def maxFrame : Nat := 9216 + 64

/-- Checks that `n` bytes may be inserted before the byte at `offset` of a frame. -/
def checkInsert (d : Bytes) (offset n : Nat) : Except SpliceError Unit :=
  if d.length < offset then .error (.offsetOutOfRange offset d.length)
  else if maxFrame < d.length + n then .error (.tooLong (d.length + n))
  else .ok ()

/-- Inserts `s` before the byte at `offset` of a frame. -/
def insert (d : Bytes) (offset : Nat) (s : Bytes) : Except SpliceError Bytes :=
  (d.checkInsert offset s.length).map fun _ => d.insertAt offset s

/-- Opens a gap of `n` zeros before the byte at `offset` of a frame. -/
def openGap (d : Bytes) (offset n : Nat) : Except SpliceError Bytes :=
  (d.checkInsert offset n).map fun _ => d.insertAt offset (List.replicate n 0)

theorem openGap_eq_insert (d : Bytes) (offset n : Nat) :
    d.openGap offset n = d.insert offset (List.replicate n 0) := by
  simp [openGap, insert]

/-- Removes `n` bytes at `offset` of a frame. -/
def remove (d : Bytes) (offset n : Nat) : Except SpliceError Bytes :=
  if d.length < offset then .error (.offsetOutOfRange offset d.length)
  else if d.length - offset < n then .error (.notLongEnough offset n)
  else .ok (d.removeAt offset n)

end Bytes

namespace Frame

/-- Shorter frames are padded before they are sent. -/
def minLength : Nat := 60

def length (f : Frame) : Nat := f.data.length

/-- A frame with the headers of its bytes and an empty context. -/
def parsed (d : Bytes) : Except ParseError Frame :=
  (Headers.parse d).map fun h => { data := d, view := some { headers := h } }

/-- Gives a frame without a view the one of its bytes. -/
def ensureParsed (f : Frame) : Except ParseError Frame :=
  match f.view with
  | some _ => .ok f
  | none => parsed f.data

def forget (f : Frame) : Frame := { f with view := none }

/-- Reads the headers again. The context is kept; a frame that can no longer be read
loses its view. -/
def reparse (f : Frame) : Except ParseError Unit × Frame :=
  match Headers.parse f.data with
  | .ok h => (.ok (), { f with view := some ⟨h, (f.view.map (·.context)).getD {}⟩ })
  | .error e => (.error e, f.forget)

/-- Reads the headers again and empties the context. -/
def parseAnew (f : Frame) : Except ParseError Unit × Frame := f.forget.reparse

/-- Changes the context of a frame that has a view. -/
def updateContext (f : Frame) (change : PacketContext → PacketContext) : Frame :=
  { f with view := f.view.map fun v => { v with context := change v.context } }

def headers? (f : Frame) : Option Headers := f.view.map (·.headers)

def context? (f : Frame) : Option PacketContext := f.view.map (·.context)

/-- Inserts `s` before the byte at `offset`. -/
def insert (f : Frame) (offset : Nat) (s : Bytes) : Except SpliceError Frame :=
  (f.data.insert offset s).map fun d => { f with data := d }

/-- Opens a gap of `n` zeros before the byte at `offset`. -/
def openGap (f : Frame) (offset n : Nat) : Except SpliceError Frame :=
  (f.data.openGap offset n).map fun d => { f with data := d }

/-- Removes `n` bytes at `offset`. -/
def remove (f : Frame) (offset n : Nat) : Except SpliceError Frame :=
  (f.data.remove offset n).map fun d => { f with data := d }

def overwrite (f : Frame) (offset : Nat) (s : Bytes) : Frame :=
  { f with data := f.data.overwrite offset s }

def isShort (f : Frame) : Bool := f.length < minLength

/-- Appends zeros up to the minimum length. -/
def pad (f : Frame) : Frame := { f with data := f.data.padTo minLength }

/-- Keeps the first `n` bytes. -/
def truncate (f : Frame) (n : Nat) : Frame := { f with data := f.data.take n }

/-- Changes the bytes of a frame in the light of its headers and reads the headers again.
A change that returns `none` has nothing to do and leaves the frame alone. -/
def edit (change : Headers → Bytes → Except SpliceError (Option Bytes)) (f : Frame) :
    Except SwitchError Unit × Frame :=
  match f.ensureParsed with
  | .error _ => (.error .failed, f)
  | .ok f =>
    match f.headers? with
    | none => (.error .failed, f)
    | some h =>
      match change h f.data with
      | .error _ => (.error .failed, f)
      | .ok none => (.ok (), f)
      | .ok (some d) =>
        match reparse { f with data := d } with
        | (.ok _, g) => (.ok (), g)
        | (.error _, g) => (.error .failed, g)

/-- The view holds the headers of the bytes. -/
def Consistent (f : Frame) : Prop := ∃ h, f.headers? = some h ∧ Headers.parse f.data = .ok h

end Frame

end FlowSwitch
