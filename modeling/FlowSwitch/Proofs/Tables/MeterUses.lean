import FlowSwitch.Proofs.Tables.Installed
import FlowSwitch.Proofs.Tables.Moves
import Mathlib.Logic.Relation

/-!
# Users of meters

A meter counts the entries that name it as they come and go, and begins with none when it
is added. An entry that names a meter before it is there is not counted, but is taken off the
count when it goes, as long as there is something to take off.
-/

namespace FlowSwitch

/-- Whether instructions name a meter. -/
def InstructionSet.namesMeter (s : InstructionSet) (id : MeterId) : Bool := s.meter == some id

namespace MeterTable

/-- The users that a meter counts, if it is there. -/
def uses (t : MeterTable) (id : MeterId) : Option Nat := (t.get? id).map (·.uses.count)

/-- The statistics of a meter tell the users that it counts. -/
theorem flows_of_stats {t : MeterTable} {id : MeterId} {now : Time} {l : List MeterStats}
    (one : id ≠ MeterId.all) (told : t.stats id now = .ok l) :
    l.map (·.flows) = (t.uses id).toList := by
  obtain ⟨chosen, selected, done⟩ := bind_eq_ok.mp told
  obtain rfl := Except.ok.inj done
  rw [MeterTable.selected, if_neg one] at selected
  unfold uses
  cases held : t.get? id with
  | none => simp [held] at selected
  | some m =>
    simp only [held, Except.ok.injEq] at selected
    subst selected
    rfl

theorem uses_reference (t : MeterTable) (m id : MeterId) :
    (t.reference m).uses id
      = if id = m then (t.uses id).map fun n => min (n + 1) UseCount.limit else t.uses id := by
  simp only [uses, reference, Registry.get?_modify]
  split <;> cases t.get? id <;> rfl

theorem uses_unreference (t : MeterTable) (m id : MeterId) :
    (t.unreference m).uses id = if id = m then (t.uses id).map (· - 1) else t.uses id := by
  simp only [uses, unreference, Registry.get?_modify]
  split <;> cases t.get? id <;> rfl

theorem uses_insert (t : MeterTable) (other id : MeterId) (m : Meter) :
    uses (t.insert other m) id = if id = other then some m.uses.count else t.uses id := by
  rw [uses, Registry.get?_insert]
  split <;> rfl

end MeterTable

/-- The users of one meter: those that it counts, if it is there, and the entries that name it. -/
structure MeterTally where
  count : Option Nat
  named : Nat

namespace MeterTally

/-- An entry that names the meter comes or goes, or the meter itself goes. -/
inductive Step : MeterTally → MeterTally → Prop
  | come {count : Option Nat} {named : Nat} (room : named < UseCount.limit) :
      Step ⟨count, named⟩ ⟨count.map fun n => min (n + 1) UseCount.limit, named + 1⟩
  | leave {count : Option Nat} {named : Nat} : Step ⟨count, named + 1⟩ ⟨count.map (· - 1), named⟩
  | drop {count : Option Nat} {named : Nat} : Step ⟨count, named⟩ ⟨none, named⟩

/-- Any such steps, one after the other. -/
def Course : MeterTally → MeterTally → Prop := Relation.ReflTransGen Step

/-- Whether the meter is there after and was not before. -/
structure Gains (m m' : MeterTally) : Prop where
  absent : m.count = none
  present : m'.count ≠ none

/-- The meter is added and counts no entry. -/
structure Begins (m m' : MeterTally) : Prop where
  absent : m.count = none
  none : m'.count = some 0
  named : m'.named = m.named

/-- Whether the meter, if it is there, counts the entries that name it. -/
def Exact (m : MeterTally) : Prop := ∀ n, m.count = some n → n = m.named

/-- Whether the meter, if it is there, counts no other entries than those that name it, and leaves
out `d` of these at most. -/
def Misses (d : Nat) (m : MeterTally) : Prop :=
  ∀ n, m.count = some n → n ≤ m.named ∧ m.named ≤ n + d

variable {m m' : MeterTally} {d : Nat}

theorem exact_of_misses (misses : m.Misses 0) : m.Exact := by
  intro n counted
  have bounds := misses n counted
  omega

theorem Begins.gains (begins : m.Begins m') : m.Gains m' :=
  ⟨begins.absent, by simp [begins.none]⟩

/-- A meter that begins leaves out every entry that named it before. -/
theorem Begins.misses (begins : m.Begins m') (few : m.named ≤ d) : m'.Misses d := by
  intro n counted
  have zero : n = 0 := by simpa [begins.none] using counted.symm
  have same := begins.named
  omega

/-- An entry that goes uncounted takes one off the count, but then the count falls with the
entries: what is left out does not grow. -/
theorem Step.misses (step : Step m m') (misses : m.Misses d) : m'.Misses d := by
  intro n counted
  cases step with
  | come room =>
    obtain ⟨n', was, rfl⟩ := Option.map_eq_some_iff.mp counted
    have bounds := misses n' was
    dsimp only at bounds ⊢
    omega
  | leave =>
    obtain ⟨n', was, rfl⟩ := Option.map_eq_some_iff.mp counted
    have bounds := misses n' was
    dsimp only at bounds ⊢
    omega
  | drop => cases counted

theorem Step.absent (step : Step m m') (absent : m.count = none) : m'.count = none := by
  cases step with
  | come => exact congrArg (Option.map _) absent
  | leave => exact congrArg (Option.map _) absent
  | drop => rfl

theorem Course.misses (course : Course m m') (misses : m.Misses d) : m'.Misses d := by
  induction course with
  | refl => exact misses
  | tail _ step ih => exact step.misses ih

theorem Course.absent (course : Course m m') (absent : m.count = none) : m'.count = none := by
  induction course with
  | refl => exact absent
  | tail _ step ih => exact step.absent ih

end MeterTally

namespace Tables

open MeterTally

variable {may : MeterId → Prop} {t t' : Tables} {id : MeterId}

/-- The entries that name a meter. -/
def tally (t : Tables) (id : MeterId) : MeterTally where
  count := t.meters.uses id
  named := t.entries.countP (·.instructions.namesMeter id)

theorem named_le (small : t.entries.length < UInt32.size) (id : MeterId) :
    (t.tally id).named ≤ UseCount.limit :=
  Nat.le_of_lt_succ (Nat.lt_of_le_of_lt List.countP_le_length small)

theorem named_of_perm (id : MeterId) {e : FlowEntry} {l : List FlowEntry}
    (whole : t.entries.Perm (e :: l)) :
    (t.tally id).named
      = l.countP (·.instructions.namesMeter id) + (e.instructions.namesMeter id).toNat := by
  have counted : (t.tally id).named = (e :: l).countP (·.instructions.namesMeter id) :=
    whole.countP_eq _
  rw [counted, List.countP_cons]
  cases e.instructions.namesMeter id <;> rfl

theorem uses_reference (t : Tables) (s : InstructionSet) (id : MeterId) :
    (t.reference s).meters.uses id
      = if s.namesMeter id then (t.meters.uses id).map fun n => min (n + 1) UseCount.limit
        else t.meters.uses id := by
  unfold reference InstructionSet.namesMeter
  cases s.meter with
  | none => rfl
  | some other =>
    rw [Option.elim_some, MeterTable.uses_reference]
    by_cases same : id = other
    · simp [same]
    · simp [same, Ne.symm same]

theorem uses_unreference (t : Tables) (s : InstructionSet) (id : MeterId) :
    (t.unreference s).meters.uses id
      = if s.namesMeter id then (t.meters.uses id).map (· - 1) else t.meters.uses id := by
  unfold unreference InstructionSet.namesMeter
  cases s.meter with
  | none => rfl
  | some other =>
    rw [Option.elim_some, MeterTable.uses_unreference]
    by_cases same : id = other
    · simp [same]
    · simp [same, Ne.symm same]

/-- What a set of instructions named leaves, and `rest` stay. -/
theorem leave_course (t : Tables) (s : InstructionSet) (id : MeterId) (rest : Nat) :
    Course ⟨t.meters.uses id, rest + (s.namesMeter id).toNat⟩
      ⟨(t.unreference s).meters.uses id, rest⟩ := by
  rw [uses_unreference]
  cases s.namesMeter id with
  | false => exact .refl
  | true => exact .single .leave

/-- What a set of instructions names comes to the `rest`. -/
theorem come_course (t : Tables) (s : InstructionSet) (id : MeterId) (rest : Nat)
    (few : rest + (s.namesMeter id).toNat ≤ UseCount.limit) :
    Course ⟨t.meters.uses id, rest⟩
      ⟨(t.reference s).meters.uses id, rest + (s.namesMeter id).toNat⟩ := by
  rw [uses_reference]
  cases named : s.namesMeter id with
  | false => exact .refl
  | true =>
    rw [named] at few
    exact .single (.come few)

theorem erase_course (t : Tables) (id : MeterId) (ref : EntryRef) (reason : RemovalReason)
    (now : Time) : Course (t.tally id) ((t.erase ref reason now).2.tally id) := by
  rcases t.erase_cases ref reason now with ⟨-, none⟩ | ⟨e, found, one⟩
  · rw [none]
    exact .refl
  · obtain ⟨rest, was, -, left⟩ := perm_entry? found
    have before := named_of_perm id was
    have after : ((t.modifyFlow ref.table (·.release ref.id)).unreference e.instructions).tally id
        = ⟨_, rest.countP (·.instructions.namesMeter id)⟩ :=
      congrArg (MeterTally.mk _) (left.countP_eq _)
    have gone := (t.modifyFlow ref.table (·.release ref.id)).leave_course e.instructions id
      (rest.countP (·.instructions.namesMeter id))
    rw [meters_modifyFlow, ← before] at gone
    rw [one, after]
    exact gone

theorem remove_course (t : Tables) (id : MeterId) (now : Time)
    (refs : List (EntryRef × RemovalReason)) :
    Course (t.tally id) ((t.remove now refs).2.tally id) :=
  remove_keeps (P := fun t' => Course (t.tally id) (t'.tally id))
    (fun t' ref reason now course => course.trans (t'.erase_course id ref reason now))
    .refl now refs

/-- One entry has come for another: this one leaves, that one comes. -/
theorem swap_course {m : Tables} {old new : FlowEntry} {rest : List FlowEntry} (id : MeterId)
    (meters : m.meters = t.meters) (was : t.entries.Perm (old :: rest))
    (becomes : m.entries.Perm (new :: rest)) (few : (m.tally id).named ≤ UseCount.limit) :
    Course (t.tally id)
      (((m.unreference old.instructions).reference new.instructions).tally id) := by
  have before := named_of_perm id was
  have after := named_of_perm id becomes
  have left := m.leave_course old.instructions id (rest.countP (·.instructions.namesMeter id))
  rw [meters, ← before] at left
  have came := (m.unreference old.instructions).come_course new.instructions id _ (after ▸ few)
  rw [← after] at came
  exact left.trans came

theorem enroll_course {f : FlowTable} {e : FlowEntry} (id : MeterId)
    (found : t.flowTable? e.ref.table = some f)
    (few : ((t.enroll e).tally id).named ≤ UseCount.limit) :
    Course (t.tally id) ((t.enroll e).tally id) := by
  have after := named_of_perm id (enroll_perm found)
  have came := ({ t with newestEntry := e.ref.id }.modifyFlow e.ref.table
    (·.enroll e)).come_course e.instructions id _ (after ▸ few)
  rw [meters_modifyFlow, ← after] at came
  exact came

theorem exchange_course {f : FlowTable} {old e : FlowEntry} (id : MeterId)
    (found : t.flowTable? e.ref.table = some f)
    (identical : f.entries.find? e.isIdentical = some old)
    (few : ((t.exchange old e).tally id).named ≤ UseCount.limit) :
    Course (t.tally id) ((t.exchange old e).tally id) := by
  obtain ⟨rest, was, becomes⟩ := exchange_perm found identical
  exact swap_course id (meters_modifyFlow ..) was becomes few

theorem instruct_course (t : Tables) (id : MeterId) (ref : EntryRef) (s : InstructionSet)
    (reset : Bool) (few : ((t.instruct ref s reset).tally id).named ≤ UseCount.limit) :
    Course (t.tally id) ((t.instruct ref s reset).tally id) := by
  obtain ⟨-, same⟩ | ⟨old, found, same⟩ := t.instruct_cases ref s reset
  · rw [same]
    exact .refl
  · obtain ⟨rest, was, becomes, -⟩ := perm_entry? found
    rw [same] at few ⊢
    have came := becomes fun e =>
      { e with instructions := s, counter := if reset then {} else e.counter }
    have swapped := swap_course id (meters_modifyFlow ..) was came few
    exact swapped

theorem tally_settled (t : Tables) (id : MeterId) : t.settled.tally id = t.tally id := by
  have held : t.settled.meters.get? id = (t.meters.get? id).map (·.settled) := by
    simp only [settled, Registry.get?_map]
  have count : t.settled.meters.uses id = t.meters.uses id := by
    rw [MeterTable.uses, held]
    cases found : t.meters.get? id <;> simp [MeterTable.uses, found, Meter.settled]
  have named : t.settled.entries.countP (·.instructions.namesMeter id)
      = t.entries.countP (·.instructions.namesMeter id) := by
    rw [entries_settled, List.countP_map]
    rfl
  rw [tally, tally, count, named]

/-- Meters that keep the count of one change nothing for it. -/
theorem kept_course {meters : MeterTable} (same : meters.uses id = t.meters.uses id) :
    Course (t.tally id) ({ t with meters : Tables }.tally id) := by
  have equal : { t with meters : Tables }.tally id = t.tally id := congrArg (MeterTally.mk · _) same
  rw [equal]
  exact .refl

/-- A move that does not add the meter lets entries come and go, or takes the meter away. -/
theorem Move.course {l : List Tables} {n : Nat} (move : Move may t l n t') (never : ¬ may id)
    (few : ∀ m ∈ l, (m.tally id).named ≤ UseCount.limit) : Course (t.tally id) (t'.tally id) := by
  cases move with
  | settle same =>
    rw [← tally_settled t', same, tally_settled]
    exact .refl
  | enroll found => exact enroll_course id found (few _ List.mem_cons_self)
  | exchange found identical =>
    exact exchange_course id found identical (few _ List.mem_cons_self)
  | instruct => exact instruct_course t id _ _ _ (few _ List.mem_cons_self)
  | remove => exact remove_course t id _ _
  | addGroup | changeGroup => exact .refl
  | @dropGroup group now =>
    have begun : { t with groups := t.groups.erase group : Tables }.tally id = t.tally id := rfl
    exact begun ▸ remove_course _ id _ _
  | @addMeter other m allowed =>
    have apart : id ≠ other := by
      rintro rfl
      exact never allowed
    exact kept_course (by rw [MeterTable.uses_insert, if_neg apart])
  | @changeMeter other change uses =>
    refine kept_course ?_
    simp only [MeterTable.uses, Registry.get?_modify]
    split
    · cases t.meters.get? id <;> simp [uses]
    · rfl
  | @dropMeters meters had =>
    cases held : meters.get? id with
    | none =>
      have gone : meters.uses id = none := by rw [MeterTable.uses, held]; rfl
      have tally : { t with meters : Tables }.tally id = ⟨none, (t.tally id).named⟩ :=
        congrArg (MeterTally.mk · _) gone
      rw [tally]
      exact .single .drop
    | some m => exact kept_course (by rw [MeterTable.uses, MeterTable.uses, held, had id m held])

theorem Moves.course {l : List Tables} {n : Nat} (moves : Moves may t l n t') (never : ¬ may id)
    (few : ∀ m ∈ l, (m.tally id).named ≤ UseCount.limit) : Course (t.tally id) (t'.tally id) := by
  induction moves with
  | none => exact .refl
  | next _ move ih =>
    have earlier := ih fun m inside => few m (List.mem_append_left _ inside)
    have last := move.course never fun m inside => few m (List.mem_append_right _ inside)
    exact earlier.trans last

/-- An addition that is not refused lets the meter begin. -/
theorem addMeter_begins {flags : MeterFlags} {bands : List BandConfig} {now : Time}
    {meters : MeterTable} (added : t.meters.add id flags bands now = .ok meters) :
    (t.tally id).Begins ({ t with meters : Tables }.tally id) := by
  obtain ⟨fresh, m, unused, rfl⟩ := MeterTable.insert_of_add added
  refine ⟨?_, ?_, rfl⟩
  · simpa [tally, MeterTable.uses, Registry.contains_eq_isSome] using fresh
  · simp [tally, MeterTable.uses_insert, unused]

/-- A command lets entries come and go, or takes the meter away, or lets it begin. -/
theorem step_course (t : Tables) (c : Command) (id : MeterId)
    (few : ∀ m, m ∈ t.between c ∨ m = t.step c → (m.tally id).named ≤ UseCount.limit) :
    Course (t.tally id) ((t.step c).tally id) ∨ (t.tally id).Begins ((t.step c).tally id) := by
  by_cases new : c.newMeter? = some id
  · cases c with
    | addMeter other flags bands now =>
      obtain rfl := Option.some.inj new
      cases added : t.meters.add other flags bands now with
      | error e =>
        have same : t.step (.addMeter other flags bands now) = t := by
          simp only [step, added]
          rfl
        rw [same]
        exact .inl .refl
      | ok meters =>
        have done : t.step (.addMeter other flags bands now) = { t with meters } := by
          simp only [step, added]
          rfl
        exact .inr (done ▸ addMeter_begins added)
    | _ => cases new
  · have others : ∀ other, c.newMeter? = some other → other ≠ id := by
      rintro other added rfl
      exact new added
    obtain ⟨l, n, moves, made, -⟩ := t.step_moves others
    exact .inl (moves.course (fun apart => apart rfl) fun m inside => few m (made m inside))

end Tables

end FlowSwitch
