import FlowSwitch.Meter.Table
import FlowSwitch.Packet.FieldWrite

/-!
# Policing

A meter estimates the rate of its packets by a moving average and picks the band
that a packet falls into. With bursts each band also has a token bucket, which
every packet fills and time drains; a bucket that would overflow takes precedence
over every rate. The average takes a dropped packet for none.
-/

namespace FlowSwitch

/-- Why a packet falls into a band, with the place of the band. -/
inductive BandHit
  | burst (band : Nat)
  | rate (band : Nat)
  deriving DecidableEq, Repr

namespace BandHit

def band : BandHit → Nat
  | burst i | rate i => i

def isBurst : BandHit → Bool
  | burst _ => true
  | rate _ => false

end BandHit

namespace Meter

/-- The weight of the moving average, in seconds. -/
def baseInterval : Float := 2.0

/-- How many of the units that packets are measured in make one unit of a rate. -/
def scale (m : Meter) : Float := if m.flags.packets then 1.0 else 1000.0

/-- The measure of a packet of `length` bytes: its bits, or one packet. -/
def size (m : Meter) (length : Nat) : UInt64 := if m.flags.packets then 1 else length.toUInt64 * 8

/-- The measure of what passed in an `interval`, averaged with the estimate so far. -/
def average (m : Meter) (interval measure : Float) : Float :=
  (baseInterval * m.estimate + measure) / (interval + baseInterval)

/-- The place of the first band that the packet would overflow. -/
def burstHit? (m : Meter) (size : UInt64) (applies : Band → Bool) : Option Nat :=
  m.bands.findIdx? fun b =>
    applies b && b.config.burstSize.toFloat * m.scale < (b.level + size).toFloat

/-- The place of the band of highest rate below `passing`; the first of several. -/
def rateHit? (m : Meter) (passing : Float) (applies : Band → Bool) : Option Nat :=
  let exceeded := m.bands.zipIdx.filter fun (b, _) =>
    applies b && b.config.rate.toFloat * m.scale < passing
  let highest := exceeded.foldl
    (fun best (b, i) =>
      match best with
      | some (rate, _) => if b.config.rate > rate then some (b.config.rate, i) else best
      | none => some (b.config.rate, i))
    (none : Option (UInt32 × Nat))
  highest.map (·.2)

/-- Lets the token buckets drain for an `interval`. -/
def drain (m : Meter) (interval : Float) : Meter :=
  { m with bands := m.bands.map fun b =>
      let drained := (interval * b.config.rate.toFloat * m.scale).toUInt64
      { b with level := b.level - min drained b.level } }

/-- Fills the token buckets; a full one stays full. -/
def fill (m : Meter) (size : UInt64) : Meter :=
  { m with bands := m.bands.map fun b =>
      { b with level := b.level + min size (~~~b.level) } }

def isDropBand (m : Meter) (band : Nat) : Bool :=
  match m.bands[band]? with
  | some b => b.config.type == .drop
  | none => false

/-- Measures a packet of `length` bytes and finds the band that it falls into. Remarking bands
apply to IP packets only. -/
def measure (m : Meter) (length : Nat) (isIp : Bool) (now : Time) : Option BandHit × Meter :=
  let interval := (now - m.measuredAt).toSeconds
  let size := m.size length
  let m := if m.flags.burst then m.drain interval else m
  let passing := m.average interval size.toFloat
  let applies (b : Band) : Bool := b.config.type != .dscpRemark || isIp
  let burst := if m.flags.burst then m.burstHit? size applies else none
  let hit := (burst.map BandHit.burst).or ((m.rateHit? passing applies).map BandHit.rate)
  let overflows := hit.any (·.isBurst)
  let m := if m.flags.burst && !overflows then m.fill size else m
  let drops := hit.any fun h => m.isDropBand h.band
  (hit, { m with
    measuredAt := now
    estimate := if drops then m.average interval 0.0 else passing })

/-- Counts a packet in a band. -/
def countBand (m : Meter) (band length : Nat) : Meter :=
  { m with bands := m.bands.modify band fun b => { b with counter := b.counter.add length } }

end Meter

/-- A code point of the assured forwarding classes with its drop precedence raised, up to the
highest one. Other code points stay as they are. -/
def raisePrecedence (dscp : BitVec 8) (by_ : UInt8) : BitVec 8 :=
  let phb := dscp >>> 3
  if 1 ≤ phb ∧ phb ≤ 3 then
    (phb <<< 3) ||| BitVec.ofNat 8 (min ((dscp &&& 7).toNat + by_.toNat) 7)
  else dscp

/-- The code point of a frame's IP header; zero without one. -/
def Frame.dscp (f : Frame) : BitVec 8 :=
  match f.headers?.bind (·.ip?) with
  | some ip => ip.dscp
  | none => 0

namespace MeterTable

/-- Sends a frame through a meter. The frame is dropped, remarked or left alone. -/
def police (t : MeterTable) (id : MeterId) (f : Frame) (now : Time) :
    Except SwitchError Unit × Frame × MeterTable :=
  match t.get? id with
  | none => (.error .notFound, f, t)
  | some m =>
    let isIp := f.headers?.any (·.ip?.isSome)
    let measured (m : Meter) :=
      { m with counter := m.counter.add f.length }.measure f.length isIp now
    let (hit, m) := measured m
    match hit.bind fun h => (m.bands[h.band]?).map fun b => (h.band, b.config) with
    | none => (.ok (), f, t.modify id fun m => (measured m).2)
    | some (place, band) =>
      let t := t.modify id fun m => (measured m).2.countBand place f.length
      match band.type with
      | .drop => (.error .dropPacket, f, t)
      | .experimenter => (.ok (), f, t)
      | .dscpRemark =>
        let remarked := raisePrecedence f.dscp band.precedence
        if f.view.isSome && remarked != f.dscp then
          let (result, f) := f.setDscp remarked
          (result, f, t)
        else (.ok (), f, t)

end MeterTable

end FlowSwitch
