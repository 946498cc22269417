import FlowSwitch.Proofs.Tables.Numbers

/-!
# Sound flow tables

Whatever was done to the tables, each flow table has its entries in order, counts them, and
holds no more of them than it may, and no two entries of the tables have one number.
-/

namespace FlowSwitch

/-- A flow table in order: of its own entries only, as many as it counts and may hold. -/
structure FlowTable.Sound (capacity : Nat) (id : TableId) (t : FlowTable) : Prop where
  ordered : Ordered t.entries
  own : t.Own id
  active : t.active.count = t.entries.length
  sized : t.capacity = capacity
  room : t.entries.length ≤ t.capacity

theorem ordered_outline {l : List FlowEntry} : Ordered (l.map (·.outline)) ↔ Ordered l := by
  have sorted : (l.map (·.outline)).Pairwise FlowEntry.leads ↔ l.Pairwise FlowEntry.leads :=
    List.pairwise_map
  have distinct : (l.map (·.outline)).Pairwise FlowEntry.differs ↔ l.Pairwise FlowEntry.differs :=
    List.pairwise_map
  constructor
  · intro ordered
    exact ⟨sorted.mp ordered.sorted, distinct.mp ordered.distinct⟩
  · intro ordered
    exact ⟨sorted.mpr ordered.sorted, distinct.mpr ordered.distinct⟩

namespace FlowTable

variable {capacity : Nat} {id : TableId} {t t' : FlowTable}

theorem Sound.outline (same : t'.outline = t.outline) (sound : t.Sound capacity id) :
    t'.Sound capacity id := by
  have entries : t'.entries.map (·.outline) = t.entries.map (·.outline) :=
    congrArg (·.entries) same
  have active : t'.active = t.active := congrArg (·.active) same
  have sized : t'.capacity = t.capacity := congrArg (·.capacity) same
  have length : t'.entries.length = t.entries.length := by
    simpa using congrArg List.length entries
  constructor
  · exact ordered_outline.mp (entries ▸ ordered_outline.mpr sound.ordered)
  · exact sound.own.outline same
  · rw [active, length, sound.active]
  · rw [sized, sound.sized]
  · rw [length, sized]
    exact sound.room

theorem Sound.enroll {e : FlowEntry} (table : e.ref.table = id)
    (alone : t.entries.find? e.isIdentical = none) (room : t.isFull = false)
    (small : (t.enroll e).entries.length < UInt32.size) (sound : t.Sound capacity id) :
    (t.enroll e).Sound capacity id := by
  have placed : (t.enroll e).entries.Perm (e :: t.entries) := t.insert_perm e
  have grown : (t.enroll e).entries.length = t.entries.length + 1 := placed.length_eq
  have below : t.entries.length < t.capacity := by simpa [isFull] using room
  constructor
  · refine insert_ordered sound.ordered fun x inside => ?_
    exact Bool.eq_false_iff.mpr (List.find?_eq_none.mp alone x inside)
  · exact sound.own.insert table
  · show min (t.active.count + 1) UseCount.limit = _
    have limit : UInt32.size = UseCount.limit + 1 := rfl
    rw [grown, sound.active]
    omega
  · exact sound.sized
  · rw [grown]
    exact below

theorem Sound.replace {e old : FlowEntry} (table : e.ref.table = id)
    (identical : t.entries.find? e.isIdentical = some old) (sound : t.Sound capacity id) :
    (t.replace e).Sound capacity id := by
  obtain ⟨before, after, whole, rest⟩ := split_identical identical
  have placed : (t.replace e).entries.Perm (e :: (before ++ after)) := rest ▸ t.replace_perm e
  have length : (t.replace e).entries.length = t.entries.length := by
    rw [placed.length_eq, whole]
    simp
    omega
  constructor
  · exact replace_ordered sound.ordered identical
  · exact sound.own.replace table
  · exact sound.active.trans length.symm
  · exact sound.sized
  · rw [length]
    exact sound.room

theorem Sound.release {number : UInt64} {e : FlowEntry} (found : t.find? number = some e)
    (sound : t.Sound capacity id) : (t.release number).Sound capacity id := by
  obtain ⟨before, after, whole, -, -, -, left⟩ := split_find? found
  have length : (t.release number).entries.length + 1 = t.entries.length := by
    rw [left, whole]
    simp
    omega
  constructor
  · exact sound.ordered.sublist List.eraseP_sublist
  · exact sound.own.release
  · show t.active.count - 1 = _
    rw [sound.active]
    omega
  · exact sound.sized
  · have room := sound.room
    show _ ≤ t.capacity
    omega

end FlowTable

namespace Tables

theorem kept_sound (capacity : Nat) :
    Kept (fun f => f.entries.length < UInt32.size) fun id f => f.Sound capacity id where
  outline := FlowTable.Sound.outline
  enroll table alone room _ small sound := sound.enroll table alone room small
  replace table identical _ sound := sound.replace table identical
  release := FlowTable.Sound.release

/-- Sound tables of one capacity, whose entries have a number each. -/
structure Sound (capacity : Nat) (t : Tables) : Prop where
  each : t.Each fun id f => f.Sound capacity id
  nodup : t.numbers.Nodup

theorem each_sound_empty (capacity : Nat) :
    (empty capacity).Each fun id f => f.Sound capacity id := by
  intro id f found
  rw [flowTable?_empty found]
  exact ⟨⟨.nil, .nil⟩, by simp [FlowTable.Own], rfl, rfl, Nat.zero_le _⟩

theorem Moves.sound {may : MeterId → Prop} {capacity n : Nat} {l : List Tables} {t : Tables}
    (moves : Moves may (empty capacity) l n t) (few : n < UInt64.size)
    (small : ∀ m ∈ l, m.Each fun _ f => f.entries.length < UInt32.size) : t.Sound capacity := by
  have last : (empty capacity).newestEntry.toNat = 0 := rfl
  have numbered := moves.numbered (numbered_empty capacity) (by omega)
  exact ⟨moves.each (kept_sound capacity) small (each_sound_empty capacity), numbered.nodup⟩

/-- Tables that were empty at first are sound after any commands, refused or not, while the
numbers last and no table holds more entries than can be counted. -/
theorem run_sound (capacity : Nat) (cs : List Command)
    (few : (empty capacity).additions cs < UInt64.size)
    (small : ∀ m ∈ (empty capacity).history cs, m.Each fun _ f => f.entries.length < UInt32.size) :
    ((empty capacity).run cs).Sound capacity := by
  obtain ⟨l, moves, made⟩ := (empty capacity).run_moves cs
  exact moves.sound few fun m inside => small m (made m inside)

/-- An entry that selects every packet and does nothing with it. -/
def idleEntry (priority : UInt16) : FlowEntry where
  priority
  selector := Match.any
  instructions := {}
  createdAt := 0
  lastSeen := 0

/-- An entry is added, gives way to another like it, leaves no room for a third, and is deleted. -/
def comeAndGo : List Command :=
  [.add (idleEntry 10) fun _ => false, .add (idleEntry 10) fun _ => false,
    .add (idleEntry 5) fun _ => false, .delete { table := 0 } none 0]

theorem run_sound_comeAndGo :
    (empty 1).additions comeAndGo < UInt64.size ∧
      (∀ m ∈ (empty 1).history comeAndGo, m.Each fun _ f => f.entries.length < UInt32.size) ∧
      ((empty 1).run comeAndGo).Sound 1 := by
  have few : (empty 1).additions comeAndGo < UInt64.size := by decide +kernel
  have lengths : ∀ m ∈ (empty 1).history comeAndGo, ∀ f ∈ m.flow.toList,
      f.entries.length < UInt32.size := by decide +kernel
  have small := fun m inside => each_of_mem (lengths m inside)
  exact ⟨few, small, run_sound 1 comeAndGo few small⟩

end Tables

end FlowSwitch
