import FlowSwitch.Proofs.Packet.CodePoint

/-!
# What a meter does to a packet

Which band a packet falls into hangs on comparisons of rates. Here the comparisons are left open,
and a meter still does the same to a packet in a band: it counts it once for itself and once for
the band, and only a band that remarks changes the packet.
-/

namespace FlowSwitch

/-- What a meter takes from arithmetic on rates. -/
structure Reckoning where
  /-- What drains from the bucket of a band in an interval. -/
  drained : Meter → Time → Band → UInt64
  /-- Whether a packet of a size makes the bucket of a band overflow. -/
  overflows : Meter → UInt64 → Band → Bool
  /-- Whether the rate with a packet of a size after an interval is above that of a band. -/
  exceeds : Meter → Time → UInt64 → Band → Bool
  /-- The rate after a packet that was dropped or not. -/
  estimate : Meter → Time → UInt64 → Bool → Float

namespace Reckoning

/-- The arithmetic of a meter. -/
def floating : Reckoning where
  drained m interval b := (interval.toSeconds * b.config.rate.toFloat * m.scale).toUInt64
  overflows m size b := b.config.burstSize.toFloat * m.scale < (b.level + size).toFloat
  exceeds m interval size b :=
    b.config.rate.toFloat * m.scale < m.average interval.toSeconds size.toFloat
  estimate m interval size drops :=
    if drops then m.average interval.toSeconds 0.0 else m.average interval.toSeconds size.toFloat

end Reckoning

namespace Meter

variable (r : Reckoning)

def drainBy (m : Meter) (interval : Time) : Meter :=
  { m with bands := m.bands.map fun b =>
      { b with level := b.level - min (r.drained m interval b) b.level } }

/-- The place of the band of highest rate that passes a test; the first of several. -/
def highest? (m : Meter) (test : Band → Bool) : Option Nat :=
  let best := (m.bands.zipIdx.filter fun (b, _) => test b).foldl
    (fun best (b, i) =>
      match best with
      | some (rate, _) => if b.config.rate > rate then some (b.config.rate, i) else best
      | none => some (b.config.rate, i))
    (none : Option (UInt32 × Nat))
  best.map (·.2)

/-- The band that a packet falls into. -/
def hitBy? (m : Meter) (interval : Time) (size : UInt64) (isIp : Bool) : Option BandHit :=
  let applies (b : Band) : Bool := b.config.type != .dscpRemark || isIp
  let burst :=
    if m.flags.burst then m.bands.findIdx? fun b => applies b && r.overflows m size b else none
  (burst.map BandHit.burst).or
    ((m.highest? fun b => applies b && r.exceeds m interval size b).map BandHit.rate)

/-- Measures a packet with the given arithmetic. -/
def measureBy (m : Meter) (length : Nat) (isIp : Bool) (now : Time) : Option BandHit × Meter :=
  let interval := now - m.measuredAt
  let size := m.size length
  let m := if m.flags.burst then m.drainBy r interval else m
  let hit := m.hitBy? r interval size isIp
  let n := if m.flags.burst && !hit.any (·.isBurst) then m.fill size else m
  (hit, { n with
    measuredAt := now
    estimate := r.estimate m interval size (hit.any fun h => n.isDropBand h.band) })

theorem hitBy?_floating (m : Meter) (interval : Time) (size : UInt64) (isIp : Bool) :
    m.hitBy? .floating interval size isIp =
      let applies (b : Band) : Bool := b.config.type != .dscpRemark || isIp
      ((if m.flags.burst then m.burstHit? size applies else none).map BandHit.burst).or
        ((m.rateHit? (m.average interval.toSeconds size.toFloat) applies).map BandHit.rate) := rfl

theorem measure_eq (m : Meter) (length : Nat) (isIp : Bool) (now : Time) :
    m.measure length isIp now = m.measureBy .floating length isIp now := by
  have drain : m.drain (now - m.measuredAt).toSeconds = m.drainBy .floating (now - m.measuredAt) :=
    rfl
  have average (m : Meter) (full : Prop) [Decidable full] (size : UInt64) :
      (if full then m.fill size else m).average = m.average := by
    split <;> rfl
  simp only [measure, measureBy, hitBy?_floating, drain]
  simp only [average]
  rfl

end Meter

/-- The packets and bytes of a meter, and those of each of its bands. -/
structure Ledger where
  own : Counter
  bands : List (BandConfig × Counter)
  deriving DecidableEq

namespace Ledger

/-- The type of the band at `place`, if there is one. -/
def type? (l : Ledger) (place : Option Nat) : Option BandType :=
  place.bind fun i => l.bands[i]?.map (·.1.type)

/-- Counts a packet of `length` bytes, also in the band at `place`. -/
def charge (l : Ledger) (place : Option Nat) (length : Nat) : Ledger :=
  ⟨l.own.add length,
    place.elim l.bands fun i => l.bands.modify i (Prod.map id (·.add length))⟩

end Ledger

namespace Meter

def ledger (m : Meter) : Ledger := ⟨m.counter, m.bands.map fun b => (b.config, b.counter)⟩

theorem ledger_ite (c : Prop) [Decidable c] {m n : Meter} (same : m.ledger = n.ledger) :
    (if c then m else n).ledger = n.ledger := by
  split
  · exact same
  · rfl

theorem ledger_drainBy (r : Reckoning) (m : Meter) (interval : Time) :
    (m.drainBy r interval).ledger = m.ledger := by
  simp [ledger, drainBy]

theorem ledger_fill (m : Meter) (size : UInt64) : (m.fill size).ledger = m.ledger := by
  simp [ledger, fill]

theorem ledger_measureBy (r : Reckoning) (m : Meter) (length : Nat) (isIp : Bool) (now : Time) :
    (m.measureBy r length isIp now).2.ledger = m.ledger :=
  (ledger_ite _ (ledger_fill ..)).trans (ledger_ite _ (ledger_drainBy ..))

/-- The band of highest rate is one of those that pass the test. Induction on the bands that
do. -/
theorem highest?_passes {m : Meter} {test : Band → Bool} {i : Nat}
    (found : m.highest? test = some i) : ∃ b, m.bands[i]? = some b ∧ test b = true := by
  obtain ⟨⟨rate, _⟩, best, rfl⟩ := Option.map_eq_some_iff.mp found
  have each : ∀ e ∈ m.bands.zipIdx.filter fun (b, _) => test b,
      ∃ b, m.bands[e.2]? = some b ∧ test b = true := by
    rintro ⟨b, i⟩ inside
    obtain ⟨listed, passes⟩ := List.mem_filter.mp inside
    exact ⟨b, List.mem_zipIdx_iff_getElem?.mp listed, passes⟩
  have first : ∀ e : UInt32 × Nat, (none : Option (UInt32 × Nat)) = some e →
      ∃ b, m.bands[e.2]? = some b ∧ test b = true := nofun
  generalize m.bands.zipIdx.filter (fun (b, _) => test b) = l at best each
  generalize (none : Option (UInt32 × Nat)) = start at best first
  induction l generalizing start with
  | nil => exact first _ best
  | cons e l ih =>
    obtain ⟨here, rest⟩ := List.forall_mem_cons.mp each
    refine ih rest _ best fun e' is => ?_
    dsimp only at is
    split at is
    · split at is
      · obtain rfl := Option.some.inj is
        exact here
      · exact first _ is
    · obtain rfl := Option.some.inj is
      exact here

/-- A packet falls into a band that there is, and into one that remarks only if it is an IP
packet. -/
theorem hitBy?_applies {r : Reckoning} {m : Meter} {interval : Time} {size : UInt64} {isIp : Bool}
    {hit : BandHit} (found : m.hitBy? r interval size isIp = some hit) :
    ∃ b, m.bands[hit.band]? = some b ∧ (b.config.type = .dscpRemark → isIp = true) := by
  have remarks {b : Band} {test : Bool}
      (applies : ((b.config.type != .dscpRemark || isIp) && test) = true) :
      b.config.type = .dscpRemark → isIp = true := by
    intro is
    simp [is] at applies
    exact applies.1
  unfold hitBy? at found
  dsimp only at found
  rcases Option.or_eq_some_iff.mp found with burst | ⟨-, rate⟩
  · obtain ⟨i, first, rfl⟩ := Option.map_eq_some_iff.mp burst
    split at first
    · obtain ⟨inside, passes, -⟩ := List.findIdx?_eq_some_iff_getElem.mp first
      exact ⟨_, List.getElem?_eq_getElem inside, remarks passes⟩
    · cases first
  · obtain ⟨i, highest, rfl⟩ := Option.map_eq_some_iff.mp rate
    obtain ⟨b, there, passes⟩ := highest?_passes highest
    exact ⟨b, there, remarks passes⟩

/-- Counts and measures a frame. -/
def receive (r : Reckoning) (m : Meter) (f : Frame) (now : Time) : Option BandHit × Meter :=
  Meter.measureBy r { m with counter := m.counter.add f.length } f.length
    (f.headers?.any (·.ip?.isSome)) now

theorem ledger_receive (r : Reckoning) (m : Meter) (f : Frame) (now : Time) :
    (m.receive r f now).2.ledger = m.ledger.charge none f.length :=
  ledger_measureBy ..

theorem hit_of_receive {r : Reckoning} {m : Meter} {f : Frame} {now : Time} {hit : BandHit}
    (found : (m.receive r f now).1 = some hit) :
    hit.band < m.bands.length ∧ ∃ b, (m.receive r f now).2.bands[hit.band]? = some b ∧
      m.ledger.type? (some hit.band) = some b.config.type ∧
      (b.config.type = .dscpRemark → f.headers?.any (·.ip?.isSome) = true) := by
  obtain ⟨b, there, remarks⟩ := hitBy?_applies found
  have drained : (if m.flags.burst then drainBy r { m with counter := m.counter.add f.length }
      (now - m.measuredAt) else { m with counter := m.counter.add f.length }).ledger.bands =
        m.ledger.bands := congrArg (·.bands) (ledger_ite _ (ledger_drainBy ..))
  have listed : m.ledger.bands[hit.band]? = some (b.config, b.counter) := by
    rw [← drained, ledger, List.getElem?_map, there, Option.map_some]
  have after : (m.receive r f now).2.ledger.bands[hit.band]? = some (b.config, b.counter) := by
    rw [ledger_receive]
    exact listed
  obtain ⟨b', placed, same⟩ : ∃ b', (m.receive r f now).2.bands[hit.band]? = some b' ∧
      (b'.config, b'.counter) = (b.config, b.counter) := by
    rwa [ledger, List.getElem?_map, Option.map_eq_some_iff] at after
  have config : b'.config = b.config := congrArg (·.1) same
  have inside := (List.getElem?_eq_some_iff.mp listed).1
  rw [ledger, List.length_map] at inside
  refine ⟨inside, b', placed, ?_, config ▸ remarks⟩
  rw [Ledger.type?, Option.bind_some, listed, Option.map_some, config]

theorem ledger_countBand (m : Meter) (place length : Nat) :
    (m.countBand place length).ledger =
      ⟨m.ledger.own, m.ledger.bands.modify place (Prod.map id (·.add length))⟩ := by
  rw [ledger, Ledger.mk.injEq]
  refine ⟨rfl, List.ext_getElem? fun i => ?_⟩
  simp only [countBand, ledger, List.getElem?_map, List.getElem?_modify]
  cases m.bands[i]? with
  | none => rfl
  | some b =>
    by_cases here : place = i
    · simp [here]
    · simp [here]

/-- What becomes of a meter and a frame when the frame falls into the band at `place`. -/
structure Charged (m : Meter) (f : Frame) (place : Option Nat) (result : Except SwitchError Unit)
    (g : Frame) (m' : Meter) : Prop where
  inside : ∀ i, place = some i → i < m.bands.length
  ledger : m'.ledger = m.ledger.charge place f.length
  result : result = if m.ledger.type? place = some .drop then .error .dropPacket else .ok ()
  frame : g ≠ f → m.ledger.type? place = some .dscpRemark ∧
    f.headers?.any (·.ip?.isSome) = true ∧ Raised f.dscp g.dscp ∧ f.Recoded g g.dscp

end Meter

namespace MeterTable

/-- Sends a frame through a meter that measures with the given arithmetic. -/
def policeBy (r : Reckoning) (t : MeterTable) (id : MeterId) (f : Frame) (now : Time) :
    Except SwitchError Unit × Frame × MeterTable :=
  match t.get? id with
  | none => (.error .notFound, f, t)
  | some m =>
    let (hit, m) := m.receive r f now
    match hit.bind fun h => (m.bands[h.band]?).map fun b => (h.band, b.config) with
    | none => (.ok (), f, t.modify id fun m => (m.receive r f now).2)
    | some (place, band) =>
      let t := t.modify id fun m => (m.receive r f now).2.countBand place f.length
      match band.type with
      | .drop => (.error .dropPacket, f, t)
      | .experimenter => (.ok (), f, t)
      | .dscpRemark =>
        let remarked := raisePrecedence f.dscp band.precedence
        if f.view.isSome && remarked != f.dscp then
          let (result, f) := f.setDscp remarked
          (result, f, t)
        else (.ok (), f, t)

theorem police_eq (t : MeterTable) (id : MeterId) (f : Frame) (now : Time) :
    t.police id f now = t.policeBy .floating id f now := by
  unfold police policeBy
  simp only [Meter.measure_eq]
  rfl

/-- What sending the frame `f` through a meter comes to. -/
structure Accounts (t : MeterTable) (id : MeterId) (f : Frame)
    (answer : Except SwitchError Unit × Frame × MeterTable) : Prop where
  missing : t.get? id = none → answer = (.error .notFound, f, t)
  notFound : answer.1 = .error .notFound ↔ t.get? id = none
  found : ∀ m, t.get? id = some m → ∃ place m', answer.2.2.get? id = some m' ∧
    m.Charged f place answer.1 answer.2.1 m'
  others : ∀ j, j ≠ id → answer.2.2.get? j = t.get? j

theorem Accounts.of_charged {t : MeterTable} {id : MeterId} {f g : Frame} {m : Meter}
    (held : t.get? id = some m) (place : Option Nat) {result : Except SwitchError Unit}
    {change : Meter → Meter} (charged : m.Charged f place result g (change m)) :
    t.Accounts id f (result, g, t.modify id change) where
  missing absent := by
    rw [held] at absent
    cases absent
  notFound := by
    rw [charged.result, held]
    split <;> simp
  found m' is := by
    obtain rfl := Option.some.inj (held.symm.trans is)
    refine ⟨place, change m, ?_, charged⟩
    rw [Registry.get?_modify, if_pos rfl, held, Option.map_some]
  others j other := by rw [Registry.get?_modify, if_neg other]

/-- A meter charges one band at most, and then drops, passes or remarks the frame by the type of
that band. -/
theorem policeBy_cases (r : Reckoning) {t : MeterTable} {id : MeterId} {m : Meter}
    (held : t.get? id = some m) (f : Frame) (now : Time) :
    ∃ (place : Option Nat) (change : Meter → Meter),
      (∀ i, place = some i → i < m.bands.length) ∧
      (change m).ledger = m.ledger.charge place f.length ∧
      (t.policeBy r id f now =
          (if m.ledger.type? place = some .drop then .error .dropPacket else .ok (), f,
            t.modify id change) ∨
        m.ledger.type? place = some .dscpRemark ∧ f.headers?.any (·.ip?.isSome) = true ∧
          ∃ by_, t.policeBy r id f now =
            ((f.setDscp (raisePrecedence f.dscp by_)).1,
              (f.setDscp (raisePrecedence f.dscp by_)).2, t.modify id change)) := by
  unfold policeBy
  rw [held]
  dsimp only
  cases found : (m.receive r f now).1 with
  | none =>
    refine ⟨none, fun m => (m.receive r f now).2, fun i is => ?_, m.ledger_receive r f now,
      .inl rfl⟩
    cases is
  | some hit =>
    obtain ⟨inside, b, placed, type, isIp⟩ := Meter.hit_of_receive found
    rw [Option.bind_some, placed, Option.map_some]
    dsimp only
    refine ⟨some hit.band, fun m => (m.receive r f now).2.countBand hit.band f.length,
      fun i is => ?_, ?_, ?_⟩
    · obtain rfl := Option.some.inj is
      exact inside
    · rw [Meter.ledger_countBand, Meter.ledger_receive]
      rfl
    · rw [type]
      cases kind : b.config.type with
      | drop => exact .inl rfl
      | experimenter => exact .inl rfl
      | dscpRemark =>
        dsimp only
        split
        · exact .inr ⟨rfl, isIp kind, b.config.precedence, rfl⟩
        · exact .inl rfl

/-- A frame without a view, or with the one of its bytes, is accounted for. -/
theorem policeBy_accounts {f : Frame} (known : f.view = none ∨ f.Consistent) (r : Reckoning)
    (t : MeterTable) (id : MeterId) (now : Time) : t.Accounts id f (t.policeBy r id f now) := by
  cases held : t.get? id with
  | none =>
    have refused : t.policeBy r id f now = (.error .notFound, f, t) := by
      rw [policeBy, held]
    rw [refused]
    refine ⟨fun _ => rfl, iff_of_true rfl held, fun m is => ?_, fun _ _ => rfl⟩
    rw [held] at is
    cases is
  | some m =>
    obtain ⟨place, change, inside, ledger, plain | ⟨type, isIp, by_, remarked⟩⟩ :=
      policeBy_cases r held f now
    · rw [plain]
      exact .of_charged held place ⟨inside, ledger, rfl, fun changed => absurd rfl changed⟩
    · obtain ⟨g, set, raised, recoded⟩ := Frame.exists_raised known isIp by_
      rw [remarked, set]
      refine .of_charged held place ⟨inside, ledger, ?_, fun _ => ⟨type, isIp, raised, recoded⟩⟩
      rw [type]
      rfl

end MeterTable

end FlowSwitch
