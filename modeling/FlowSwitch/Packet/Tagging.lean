import FlowSwitch.Packet.FieldWrite

/-!
# Tags and time to live

Pushing and popping of VLAN, MPLS and PBB encapsulations, and copying the time
to live between headers. An action that needs a header which the frame does not
have leaves the frame alone.
-/

namespace FlowSwitch

namespace Tagging

/-- Pushes a VLAN tag; it repeats the priority and id of the outermost tag so far. -/
def pushVlan (tpid : BitVec 16) (h : Headers) (d : Bytes) : Except SpliceError (Option Bytes) :=
  let tci := (h.vlan.map (·.tci)).getD 0
  (d.insert 12 (Bytes.ofWord 2 tpid ++ Bytes.ofWord 2 tci)).map some

def popVlan (h : Headers) (d : Bytes) : Except SpliceError (Option Bytes) :=
  match h.vlan with
  | some tag => (d.remove tag.offset 4).map some
  | none => .ok none

/-- The time to live of the IP header; zero without one. -/
def ipTtl (h : Headers) : BitVec 8 :=
  match h.ip? with
  | some ip => ip.ttl
  | none => 0

/-- Where a label is pushed, and the label. It repeats the top label so far, and is else the
bottom of the stack with the time to live of the IP header. -/
def newLabel (h : Headers) (d : Bytes) : Nat × BitVec 32 :=
  match h.mpls with
  | some top => (top.offset, d.word 4 top.offset &&& ~~~0x100)
  | none => (h.payload.getD d.length, 0x100 ||| (ipTtl h).setWidth 32)

/-- Pushes a label; what it is put into gets the given ethertype. -/
def pushMpls (etherType : BitVec 16) (h : Headers) (d : Bytes) :
    Except SpliceError (Option Bytes) :=
  let (offset, entry) := newLabel h d
  (d.insert offset (Bytes.ofWord 4 entry)).map fun d =>
    some (d.overwrite (offset - 2) (Bytes.ofWord 2 etherType))

def popMpls (etherType : BitVec 16) (h : Headers) (d : Bytes) :
    Except SpliceError (Option Bytes) :=
  match h.mpls with
  | some top =>
    (d.remove top.offset 4).map fun d =>
      some (d.overwrite (top.offset - 2) (Bytes.ofWord 2 etherType))
  | none => .ok none

/-- Pushes a PBB encapsulation with the customer addresses; service id and priority are those
of the tags so far. -/
def pushPbb (etherType : BitVec 16) (h : Headers) (d : Bytes) :
    Except SpliceError (Option Bytes) :=
  let isid := (h.pbb.map (·.isid)).getD 0
  let pcp := (h.vlan.map (·.pcp)).getD 0
  let tag := (pcp.setWidth 32 <<< 29) ||| isid
  (d.insert 12 (Bytes.ofWord 2 etherType ++ Bytes.ofWord 4 tag ++ d.take 12)).map some

/-- Removes everything up to the end of the I-TAG; the customer frame stays. -/
def popPbb (h : Headers) (d : Bytes) : Except SpliceError (Option Bytes) :=
  match h.pbb with
  | some tag => (d.remove 0 (tag.offset + 4)).map some
  | none => .ok none

/-- Where the time to live of the second label is, if the top one is not the last. -/
def secondLabelTtl? (top : MplsEntry) : Option Nat :=
  if top.bottom = 0 then some (top.offset + 7) else none

/-- Copies the time to live of the second label, or of the IP header, to the top label. -/
def copyTtlOut (h : Headers) (d : Bytes) : Except SpliceError (Option Bytes) :=
  match h.mpls with
  | none => .ok none
  | some top =>
    let ttl : Option (BitVec 8) :=
      match secondLabelTtl? top with
      | some offset => d[offset]?.map (·.toBitVec)
      | none => h.ip?.map (·.ttl)
    .ok (ttl.map fun ttl => FieldWrite.setMplsTtl h ttl d)

/-- Copies the time to live of the top label to the second one, or to the IP header. -/
def copyTtlIn (h : Headers) (d : Bytes) : Except SpliceError (Option Bytes) :=
  match h.mpls with
  | none => .ok none
  | some top =>
    match secondLabelTtl? top with
    | some offset => .ok (some (d.overwrite offset (Bytes.ofWord 1 top.ttl)))
    | none => .ok (h.ip?.map fun _ => FieldWrite.setIpTtl h top.ttl d)

end Tagging

end FlowSwitch
