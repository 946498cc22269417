import FlowSwitch.Action.Basic
import FlowSwitch.Counter

/-!
# Buckets

An alternative of a group: a list of actions, its weight among the others, and
the port and group whose liveness it watches.
-/

namespace FlowSwitch

structure Bucket where
  weight : UInt16 := 1
  watchPort : PortNo := PortNo.any
  watchGroup : GroupId := GroupId.any
  counter : Counter := {}
  actions : ActionList
  deriving DecidableEq

namespace Bucket

def count (b : Bucket) (length : Nat) : Bucket := { b with counter := b.counter.add length }

/-- Removes the first bucket equal to `b`. -/
def remove (buckets : List Bucket) (b : Bucket) : Except SwitchError (List Bucket) :=
  if b ∈ buckets then .ok (buckets.erase b) else .error .notFound

/-- Checks the actions of each bucket in order. -/
def validateAll (buckets : List Bucket) (known : Known) : Except SwitchError Unit :=
  buckets.forM fun b => b.actions.validate known

end Bucket

end FlowSwitch
