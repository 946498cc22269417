/-!
# Match fields

The fields a packet can be matched on, in the order of their protocol numbers,
and how many bytes each one takes.
-/

namespace FlowSwitch

inductive Field
  | inPort
  | inPhyPort
  | metadata
  | ethDst
  | ethSrc
  | ethType
  | vlanVid
  | vlanPcp
  | ipDscp
  | ipEcn
  | ipProto
  | ipv4Src
  | ipv4Dst
  | tcpSrc
  | tcpDst
  | udpSrc
  | udpDst
  | sctpSrc
  | sctpDst
  | icmpv4Type
  | icmpv4Code
  | arpOp
  | arpSpa
  | arpTpa
  | arpSha
  | arpTha
  | ipv6Src
  | ipv6Dst
  | ipv6Flabel
  | icmpv6Type
  | icmpv6Code
  | ipv6NdTarget
  | ipv6NdSll
  | ipv6NdTll
  | mplsLabel
  | mplsTc
  | mplsBos
  | pbbIsid
  | tunnelId
  | ipv6Exthdr
  deriving DecidableEq, Repr

namespace Field

/-- Every field, in the order of the protocol numbers. -/
def all : List Field :=
  [inPort, inPhyPort, metadata, ethDst, ethSrc, ethType, vlanVid, vlanPcp, ipDscp, ipEcn, ipProto,
    ipv4Src, ipv4Dst, tcpSrc, tcpDst, udpSrc, udpDst, sctpSrc, sctpDst, icmpv4Type, icmpv4Code,
    arpOp, arpSpa, arpTpa, arpSha, arpTha, ipv6Src, ipv6Dst, ipv6Flabel, icmpv6Type, icmpv6Code,
    ipv6NdTarget, ipv6NdSll, ipv6NdTll, mplsLabel, mplsTc, mplsBos, pbbIsid, tunnelId, ipv6Exthdr]

/-- The protocol number of a field. -/
def number (f : Field) : Nat := f.ctorIdx

/-- The bytes that a value of the field takes. -/
def size : Field → Nat
  | vlanPcp | ipDscp | ipEcn | ipProto | icmpv4Type | icmpv4Code | icmpv6Type | icmpv6Code
  | mplsTc | mplsBos => 1
  | ethType | vlanVid | tcpSrc | tcpDst | udpSrc | udpDst | sctpSrc | sctpDst | arpOp
  | ipv6Exthdr => 2
  | inPort | inPhyPort | ipv4Src | ipv4Dst | arpSpa | arpTpa | ipv6Flabel | mplsLabel
  | pbbIsid => 4
  | ethDst | ethSrc | arpSha | arpTha | ipv6NdSll | ipv6NdTll => 6
  | metadata | tunnelId => 8
  | ipv6Src | ipv6Dst | ipv6NdTarget => 16

abbrev width (f : Field) : Nat := 8 * f.size

theorem mem_all (f : Field) : f ∈ all := by cases f <;> decide

/-- The bitmap of a list of fields: bit `n` stands for field number `n`. -/
def bits (fields : List Field) : BitVec 64 :=
  fields.foldl (fun acc f => acc ||| (1 <<< f.number)) 0

end Field

end FlowSwitch
