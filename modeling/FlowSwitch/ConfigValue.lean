/-!
# Values of configurations

What a configuration file says, before it is known what it configures. A record names
its fields, or lists their values in order from the first. A field that nobody asks for
is passed over, and one that is missing keeps its default. A value of another kind than
the one asked for is refused, so a number is never read as text, nor a number with a
fraction as a whole one.
-/

namespace FlowSwitch

inductive ConfigValue
  | null
  | truth (b : Bool)
  /-- A whole number that is not negative. -/
  | whole (n : Nat)
  /-- A number that is negative, or written with a fraction or an exponent. -/
  | inexact
  | text (s : String)
  | list (values : List ConfigValue)
  | record (fields : List (String × ConfigValue))
  deriving Inhabited, Repr

namespace ConfigValue

def truth? : ConfigValue → Option Bool
  | truth b => some b
  | _ => none

/-- A whole number that fits in so many bits. -/
def whole? (bits : Nat) : ConfigValue → Option Nat
  | whole n => if (BitVec.ofNat bits n).toNat = n then some n else none
  | _ => none

/-- The fields of a record whose fields are `names`, in their order. -/
def fields? (names : List String) : ConfigValue → Option (List (String × ConfigValue))
  | record fields => some fields
  | list values => if values.length ≤ names.length then some (names.zip values) else none
  | _ => none

/-- Reads a field, unless it is missing. -/
def readField {α : Type} (fields : List (String × ConfigValue)) (name : String)
    (read : ConfigValue → Option α) (default : α) : Option α :=
  match fields.lookup name with
  | some s => read s
  | none => some default

end ConfigValue

end FlowSwitch
