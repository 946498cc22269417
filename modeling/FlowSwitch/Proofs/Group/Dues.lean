import FlowSwitch.Group.Choice
import Mathlib.Algebra.Order.BigOperators.Group.List
import Mathlib.Algebra.Ring.Nat
import Mathlib.Data.List.Nodup

/-!
# What groups owe their buckets

A group counts a packet before any of its buckets does. Until then the packet is due to each
bucket that is to get it, and before it is that bucket's turn the others may send the packet
through the same group again. What a group has counted covers what its buckets have counted
together with what is due to them: for every bucket alone, and for all buckets together where a
packet goes to one of them only.
-/

namespace FlowSwitch

/-- One of the two numbers of a counter. -/
inductive Measure
  | packets
  | bytes

namespace Measure

def read : Measure → Counter → Nat
  | packets, c => c.packets.toNat
  | bytes, c => c.bytes.toNat

/-- What a packet of some length adds. -/
def worth : Measure → Nat → Nat
  | packets, _ => 1
  | bytes, length => length

end Measure

namespace Counter

/-- Whether a packet of some length can be counted without wrapping. -/
def hasRoom (c : Counter) (length : Nat) : Bool :=
  c.packets.toNat + 1 < UInt64.size && c.bytes.toNat + length < UInt64.size

end Counter

namespace Measure

variable (m : Measure)

theorem read_zero : m.read {} = 0 := by cases m <;> rfl

/-- A counter that wraps reads less than it counted. -/
theorem read_add_le (c : Counter) (length : Nat) :
    m.read (c.add length) ≤ m.read c + m.worth length := by
  cases m with
  | packets =>
    simp only [read, worth, Counter.add, UInt64.toNat_add]
    exact Nat.mod_le ..
  | bytes =>
    simp only [read, worth, Counter.add, UInt64.toNat_add, Nat.toUInt64_eq, UInt64.toNat_ofNat']
    omega

theorem read_add_of_room {c : Counter} {length : Nat} (room : c.hasRoom length = true) :
    m.read (c.add length) = m.read c + m.worth length := by
  simp only [Counter.hasRoom, Bool.and_eq_true, decide_eq_true_eq, UInt64.size] at room
  cases m with
  | packets =>
    simp only [read, worth, Counter.add, UInt64.toNat_add, UInt64.toNat_one]
    omega
  | bytes =>
    simp only [read, worth, Counter.add, UInt64.toNat_add, Nat.toUInt64_eq, UInt64.toNat_ofNat']
    omega

end Measure

/-! ## Dues -/

/-- A packet that a group has counted, and the bucket at a place not yet. -/
structure Due where
  group : GroupId
  place : Nat
  length : Nat

namespace Measure

variable (m : Measure)

/-- What is due to some buckets. -/
def owed (whose : Due → Bool) (dues : List Due) : Nat :=
  ((dues.filter whose).map fun d => m.worth d.length).sum

variable {m}

theorem owed_append (whose : Due → Bool) (dues rest : List Due) :
    m.owed whose (dues ++ rest) = m.owed whose dues + m.owed whose rest := by
  rw [owed, List.filter_append, List.map_append, List.sum_append]
  rfl

theorem owed_cons_of_pos {whose : Due → Bool} {d : Due} (its : whose d = true) (dues : List Due) :
    m.owed whose (d :: dues) = m.worth d.length + m.owed whose dues := by
  rw [owed, List.filter_cons_of_pos its, List.map_cons, List.sum_cons]
  rfl

theorem owed_cons_of_neg {whose : Due → Bool} {d : Due} (other : whose d = false)
    (dues : List Due) : m.owed whose (d :: dues) = m.owed whose dues := by
  rw [owed, List.filter_cons_of_neg (by simp [other])]
  rfl

theorem owed_eq_zero {whose : Due → Bool} {dues : List Due} (others : ∀ d ∈ dues, whose d = false) :
    m.owed whose dues = 0 := by
  have none : dues.filter whose = [] := List.filter_eq_nil_iff.mpr fun d inside => by
    simp [others d inside]
  rw [owed, none]
  rfl

/-- If a packet is due to one of some buckets at most, its worth is all that is owed to them. -/
theorem owed_le {whose : Due → Bool} {id : GroupId} {length : Nat} {places : List Nat}
    (one : (places.filter fun place => whose ⟨id, place, length⟩).length ≤ 1) :
    m.owed whose (places.map (⟨id, ·, length⟩)) ≤ m.worth length := by
  have each : m.owed whose (places.map (⟨id, ·, length⟩))
      = (places.filter fun place => whose ⟨id, place, length⟩).length * m.worth length := by
    rw [owed, List.filter_map, List.map_map]
    show (List.map (fun _ => m.worth length) _).sum = _
    rw [List.map_const', List.sum_replicate_nat]
    rfl
  have most := Nat.mul_le_mul_right (m.worth length) one
  rw [each]
  rwa [Nat.one_mul] at most

end Measure

/-- Whether a packet is due to a bucket of a group. -/
def Due.isOf (id : GroupId) (d : Due) : Bool := d.group == id

/-- Whether a packet is due to the bucket at a place of a group. -/
def Due.isAt (id : GroupId) (place : Nat) (d : Due) : Bool := d.group == id && d.place == place

/-- Whether a group sends a packet to one of its buckets at most. -/
def GroupType.choosesOne : GroupType → Bool
  | .select | .indirect => true
  | .all | .fastFailover => false

namespace Group

/-- Whether a group has counted whatever its buckets have, and what is due to them. -/
structure Covers (g : Group) (id : GroupId) (dues : List Due) : Prop where
  each : ∀ (m : Measure) place b, g.buckets[place]? = some b →
    m.read b.counter + m.owed (Due.isAt id place) dues ≤ m.read g.counter
  all : g.type.choosesOne = true → ∀ m : Measure,
    (g.buckets.map fun b => m.read b.counter).sum + m.owed (Due.isOf id) dues ≤ m.read g.counter

variable {g : Group} {id : GroupId} {dues pending : List Due}

/-- What is due to none of the buckets may be left out. -/
theorem Covers.of_owed (covers : g.Covers id dues)
    (less : ∀ (m : Measure) whose, m.owed whose pending ≤ m.owed whose dues) :
    g.Covers id pending where
  each m place b found :=
    (Nat.add_le_add_left (less m _) _).trans (covers.each m place b found)
  all one m := (Nat.add_le_add_left (less m _) _).trans (covers.all one m)

/-- Buckets that have counted nothing need no cover. -/
theorem covers_of_fresh (fresh : ∀ b ∈ g.buckets, b.counter = {}) : g.Covers id [] := by
  constructor
  · intro m place b found
    rw [fresh b (List.mem_of_getElem? found), m.read_zero]
    exact Nat.zero_le _
  · intro _ m
    have zeros : (g.buckets.map fun b => m.read b.counter).sum = 0 :=
      List.sum_eq_zero fun n inside => by
        obtain ⟨b, bucket, rfl⟩ := List.mem_map.mp inside
        rw [fresh b bucket, m.read_zero]
    rw [zeros]
    exact Nat.zero_le _

/-- Whether a packet may go to the buckets at some places of a group. -/
structure Serves (g : Group) (places : List Nat) : Prop where
  distinct : places.Nodup
  single : g.type.choosesOne = true → places.length ≤ 1

theorem serves_nil (g : Group) : g.Serves [] := ⟨List.nodup_nil, fun _ => Nat.zero_le _⟩

theorem serves_of_choose {livePort : PortNo → Bool} {pick : UInt64} {places : List Nat}
    (chosen : g.choose livePort pick = .ok places) : g.Serves places := by
  unfold choose at chosen
  cases type : g.type with
  | all =>
    rw [type] at chosen
    obtain rfl := Except.ok.inj chosen
    exact ⟨List.nodup_range, fun one => by rw [type] at one; cases one⟩
  | select =>
    rw [type] at chosen
    obtain rfl := Except.ok.inj chosen
    cases Bucket.select? g.buckets livePort pick with
    | none => exact g.serves_nil
    | some place => exact ⟨List.nodup_singleton place, fun _ => Nat.le_refl _⟩
  | indirect =>
    simp only [type] at chosen
    split at chosen
    · obtain rfl := Except.ok.inj chosen
      exact ⟨List.nodup_singleton 0, fun _ => Nat.le_refl _⟩
    · cases chosen
  | fastFailover =>
    rw [type] at chosen
    cases chosen

/-- A packet that the group counts may be due to the buckets that it goes to. -/
theorem Covers.enter {places : List Nat} {length : Nat} (covers : g.Covers id pending)
    (room : g.counter.hasRoom length = true) (serves : g.Serves places) :
    (g.count length).Covers id (places.map (⟨id, ·, length⟩) ++ pending) := by
  have counted (m : Measure) : m.read (g.count length).counter
      = m.read g.counter + m.worth length := m.read_add_of_room room
  constructor
  · intro m place b found
    have own : places.filter (fun other => Due.isAt id place ⟨id, other, length⟩)
        = places.filter (· == place) := by
      simp only [Due.isAt, beq_self_eq_true, Bool.true_and]
    have one : (places.filter fun other => Due.isAt id place ⟨id, other, length⟩).length ≤ 1 := by
      rw [own, ← List.countP_eq_length_filter]
      exact List.nodup_iff_count_le_one.mp serves.distinct place
    have before := covers.each m place b found
    have more := Measure.owed_le (m := m) one
    rw [Measure.owed_append, counted]
    omega
  · intro one m
    have few : (places.filter fun place => Due.isOf id ⟨id, place, length⟩).length ≤ 1 :=
      (List.length_filter_le ..).trans (serves.single one)
    have before := covers.all one m
    have more := Measure.owed_le (m := m) few
    rw [Measure.owed_append, counted]
    simp only [count]
    omega

/-- What a bucket counts shows at most once in all of them together. -/
theorem sum_countBucket_le (m : Measure) (buckets : List Bucket) (place length : Nat) :
    ((buckets.modify place (·.count length)).map fun b => m.read b.counter).sum
      ≤ (buckets.map fun b => m.read b.counter).sum + m.worth length := by
  induction buckets generalizing place with
  | nil => simp
  | cons b buckets ih =>
    cases place with
    | zero =>
      have counted : m.read (b.count length).counter ≤ m.read b.counter + m.worth length :=
        m.read_add_le b.counter length
      simp only [List.modify_zero_cons, List.map_cons, List.sum_cons]
      omega
    | succ place =>
      have rest := ih place
      simp only [List.modify_succ_cons, List.map_cons, List.sum_cons]
      omega

/-- A packet that its bucket counts is not due to it any more. -/
theorem Covers.spend {place length : Nat} (covers : g.Covers id (⟨id, place, length⟩ :: pending)) :
    (g.countBucket place length).Covers id pending := by
  constructor
  · intro m other b found
    have asked : (g.buckets.modify place (·.count length))[other]? = some b := found
    rw [List.getElem?_modify] at asked
    show _ ≤ m.read g.counter
    by_cases same : place = other
    · subst same
      cases before : g.buckets[place]? with
      | none =>
        rw [before] at asked
        cases asked
      | some old =>
        rw [before] at asked
        obtain rfl : old.count length = b := by simpa using asked
        have owned : Due.isAt id place ⟨id, place, length⟩ = true := by simp [Due.isAt]
        have covered := covers.each m place old before
        have counted : m.read (old.count length).counter ≤ m.read old.counter + m.worth length :=
          m.read_add_le old.counter length
        rw [Measure.owed_cons_of_pos owned] at covered
        dsimp only at covered
        omega
    · have before : g.buckets[other]? = some b := by simpa [same] using asked
      have others : Due.isAt id other ⟨id, place, length⟩ = false := by simp [Due.isAt, same]
      have covered := covers.each m other b before
      rwa [Measure.owed_cons_of_neg others] at covered
  · intro one m
    have owned : Due.isOf id ⟨id, place, length⟩ = true := by simp [Due.isOf]
    have covered := covers.all one m
    have counted := sum_countBucket_le m g.buckets place length
    rw [Measure.owed_cons_of_pos owned] at covered
    dsimp only at covered
    show (List.map _ (g.buckets.modify place (·.count length))).sum + _ ≤ m.read g.counter
    omega

/-- What is due to other groups does not matter. -/
theorem Covers.of_others (covers : g.Covers id pending)
    (others : ∀ d ∈ dues, d.group ≠ id) : g.Covers id (dues ++ pending) := by
  have zero (m : Measure) {whose : Due → Bool} (own : ∀ d, whose d = true → d.group = id) :
      m.owed whose dues = 0 :=
    Measure.owed_eq_zero fun d inside => by
      by_contra its
      exact others d inside (own d (by simpa using its))
  constructor
  · intro m place b found
    have none : m.owed (Due.isAt id place) dues = 0 :=
      zero m fun d its => by simpa using (Bool.and_eq_true_iff.mp its).1
    rw [Measure.owed_append, none, Nat.zero_add]
    exact covers.each m place b found
  · intro one m
    have none : m.owed (Due.isOf id) dues = 0 := zero m fun d its => by simpa [Due.isOf] using its
    rw [Measure.owed_append, none, Nat.zero_add]
    exact covers.all one m

theorem Covers.drop (covers : g.Covers id (dues ++ pending)) : g.Covers id pending :=
  covers.of_owed fun m whose => by
    rw [Measure.owed_append]
    exact Nat.le_add_left ..

end Group

/-! ## All groups -/

namespace GroupTable

/-- Whether every group has counted whatever its buckets have, and what is due to them. -/
def Covers (t : GroupTable) (dues : List Due) : Prop :=
  ∀ id g, t.get? id = some g → g.Covers id dues

variable {t : GroupTable} {id : GroupId} {dues pending : List Due}

theorem Covers.drop (covers : t.Covers (dues ++ pending)) : t.Covers pending :=
  fun id g found => (covers id g found).drop

theorem Covers.enter {g : Group} {places : List Nat} {length : Nat} (covers : t.Covers pending)
    (found : t.get? id = some g) (room : g.counter.hasRoom length = true)
    (serves : g.Serves places) :
    Covers (t.modify id (·.count length)) (places.map (⟨id, ·, length⟩) ++ pending) := by
  intro other h there
  rw [Registry.get?_modify] at there
  split at there
  · rename_i same
    subst same
    rw [found] at there
    obtain rfl := Option.some.inj there
    exact (covers other g found).enter room serves
  · rename_i apart
    refine (covers other h there).of_others fun d inside => ?_
    obtain ⟨place, -, rfl⟩ := List.mem_map.mp inside
    exact Ne.symm apart

theorem Covers.spend {place length : Nat} (covers : t.Covers (⟨id, place, length⟩ :: pending)) :
    Covers (t.modify id (·.countBucket place length)) pending := by
  intro other h there
  rw [Registry.get?_modify] at there
  split at there
  · rename_i same
    subst same
    obtain ⟨g, found, rfl⟩ := Option.map_eq_some_iff.mp there
    exact (covers other g found).spend
  · have owed : h.Covers other ([⟨id, place, length⟩] ++ pending) := covers other h there
    exact owed.drop

end GroupTable

end FlowSwitch
