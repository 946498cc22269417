import FlowSwitch.Proofs.Forward.Effect
import FlowSwitch.Proofs.Tables.Settled

/-!
# What packets do to the tables

A pass counts in the entries, tables, groups and meters that it meets, however it ends,
and changes nothing else in the tables.
-/

namespace FlowSwitch

namespace Meter

theorem settled_drain (m : Meter) (interval : Float) : (m.drain interval).settled = m.settled := by
  simp [drain, settled, Function.comp_def]

theorem settled_fill (m : Meter) (size : UInt64) : (m.fill size).settled = m.settled := by
  simp [fill, settled, Function.comp_def]

theorem settled_measure (m : Meter) (length : Nat) (isIp : Bool) (now : Time) :
    (m.measure length isIp now).2.settled = m.settled := by
  have noted (m : Meter) (measuredAt : Time) (estimate : Float) :
      { m with measuredAt, estimate : Meter }.settled = m.settled := rfl
  have filled (m : Meter) (size : UInt64) (full : Bool) :
      (if full then m.fill size else m).settled = m.settled := by
    cases full
    · rfl
    · exact m.settled_fill size
  have drained (interval : Float) :
      (if m.flags.burst then m.drain interval else m).settled = m.settled := by
    split
    · exact m.settled_drain interval
    · rfl
  simp only [measure]
  exact (noted _ _ _).trans ((filled _ _ _).trans (drained _))

theorem settled_countBand (m : Meter) (band length : Nat) :
    (m.countBand band length).settled = m.settled := by
  simp only [countBand, settled, Meter.mk.injEq, true_and, and_true]
  generalize m.bands = bands
  induction bands generalizing band with
  | nil => simp
  | cons b bands ih =>
    cases band with
    | zero => simp
    | succ band => simp [ih]

end Meter

theorem Group.settled_countBucket (g : Group) (place length : Nat) :
    (g.countBucket place length).settled = g.settled := by
  simp only [countBucket, settled, Group.mk.injEq, true_and, and_true]
  generalize g.buckets = buckets
  induction buckets generalizing place with
  | nil => simp
  | cons b buckets ih =>
    cases place with
    | zero => simp [Bucket.count]
    | succ place => simp [ih]

theorem MeterTable.settled_police (t : MeterTable) (id : MeterId) (f : Frame) (now : Time) :
    (t.police id f now).2.2.map (fun _ m => m.settled) = t.map fun _ m => m.settled := by
  have counted (m : Meter) (isIp : Bool) :
      ({ m with counter := m.counter.add f.length : Meter }.measure f.length isIp now).2.settled
        = m.settled := Meter.settled_measure ..
  unfold police
  split
  · rfl
  · simp only
    split
    · exact t.map_modify_of_eq (f := fun _ m => m.settled) id fun m => counted m _
    · have banded (place : Nat) (isIp : Bool) :
          (t.modify id fun m =>
            ({ m with counter := m.counter.add f.length : Meter }.measure
              f.length isIp now).2.countBand place f.length).map (fun _ m => m.settled)
            = t.map fun _ m => m.settled :=
        t.map_modify_of_eq (f := fun _ m => m.settled) id fun m =>
          (Meter.settled_countBand ..).trans (counted m isIp)
      split
      · exact banded ..
      · exact banded ..
      · split <;> exact banded ..

namespace Run

/-- The tables are as they were but for their counters. -/
def keepsSettled : Effect := fun p _ q => q.tables.settled = p.tables.settled

theorem steps_keepsSettled (s : Setting) : Steps s keepsSettled where
  composes := { halt := fun _ _ => rfl, trans := fun first next => next.trans first }
  restore := id
  parse p := by rw [parse, on_edit]; rfl
  edit a p := by rw [on_edit]; rfl
  packetIn p reason origin maxLength := by
    obtain same | ⟨requests, same⟩ := packetIn_cases s reason origin maxLength p
    · rw [keepsSettled, same]
    · have counted := p.tables.meters.settled_police MeterId.controller p.frame s.now
      simp only [keepsSettled, same, Tables.settled, counted]
  send _ _ _ := rfl
  draw _ _ := rfl
  countGroup p id length := by
    have counted : (p.tables.groups.modify id (·.count length)).map (fun _ g => g.settled)
        = p.tables.groups.map fun _ g => g.settled :=
      Registry.map_modify_of_eq _ _ fun _ => rfl
    simp only [keepsSettled, Tables.settled, counted]
  countBucket p id place length := by
    have counted :
        (p.tables.groups.modify id (·.countBucket place length)).map (fun _ g => g.settled)
          = p.tables.groups.map fun _ g => g.settled :=
      Registry.map_modify_of_eq _ _ fun g => g.settled_countBucket place length
    simp only [keepsSettled, Tables.settled, counted]
  police id p := by
    have counted := p.tables.meters.settled_police id p.frame s.now
    simp only [keepsSettled, on_police, Tables.settled, counted]
  look table p := by
    rw [on_look]
    split
    · rfl
    · exact p.tables.settled_classify table _
  countFrame e p := p.tables.settled_modifyEntry e.ref fun _ => rfl
  writeMetadata _ _ := rfl

/-- A pass leaves the tables as they were but for their counters. -/
theorem settled_process (s : Setting) (p : Pass) :
    ((process s).on p).2.tables.settled = p.tables.settled := (steps_keepsSettled s).process p

theorem settled_carryOut (s : Setting) (actions : ActionList) (p : Pass) :
    ((carryOut s actions).on p).2.tables.settled = p.tables.settled :=
  (steps_keepsSettled s).carryOut actions p

end Run

end FlowSwitch
