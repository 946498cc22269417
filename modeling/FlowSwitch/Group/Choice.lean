import FlowSwitch.Group.Table

/-!
# Choosing buckets

Which buckets of a group get a packet. A select group chooses one of its live
buckets by a number: of the remainders of the number by the sum of the weights,
each live bucket owns as many as it weighs.
-/

namespace FlowSwitch

namespace Bucket

/-- Whether the port that a bucket watches and those that it sends to are live. -/
def isLive (b : Bucket) (livePort : PortNo → Bool) : Bool :=
  (b.watchPort == PortNo.any || livePort b.watchPort) &&
    b.actions.actions.all fun
      | .output port _ => !port.isPhysical || livePort port
      | _ => true

/-- The owner of a point among intervals laid end to end, each with its length. -/
def owner? : Nat → List (Nat × Nat) → Option Nat
  | _, [] => none
  | point, (index, weight) :: rest =>
    if point < weight then some index else owner? (point - weight) rest

/-- The length of intervals laid end to end. -/
def extent : List (Nat × Nat) → Nat
  | [] => 0
  | (_, weight) :: rest => weight + extent rest

/-- The place of the live bucket that a number chooses. -/
def select? (buckets : List Bucket) (livePort : PortNo → Bool) (pick : UInt64) : Option Nat :=
  let live := (buckets.zipIdx.filter fun (b, _) => b.isLive livePort).map fun (b, i) =>
    (i, b.weight.toNat)
  if extent live = 0 then none else owner? (pick.toNat % extent live) live

end Bucket

namespace Group

/-- The places of the buckets that get a packet. -/
def choose (g : Group) (livePort : PortNo → Bool) (pick : UInt64) :
    Except SwitchError (List Nat) :=
  match g.type with
  | .all => .ok (List.range g.buckets.length)
  | .select => .ok (Bucket.select? g.buckets livePort pick).toList
  | .indirect => if g.buckets.length = 1 then .ok [0] else .error .failed
  | .fastFailover => .error .failed

end Group

end FlowSwitch
