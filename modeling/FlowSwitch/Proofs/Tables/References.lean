import FlowSwitch.Proofs.Tables.Installed
import FlowSwitch.Proofs.Tables.Removal

/-!
# References to groups

Every group that a flow entry names is there, and every group counts how often it is
named. The count of a group goes with the entries: what comes, goes or changes in one
entry is counted up and down by as much.
-/

namespace FlowSwitch

namespace GroupTable

/-- The users that a group counts, if it is there. -/
def uses (t : GroupTable) (id : GroupId) : Option Nat := (t.get? id).map (·.uses.count)

theorem uses_referenceOne (t : GroupTable) (g id : GroupId) :
    (t.reference g).uses id
      = if id = g then (t.uses id).map fun n => min (n + 1) UseCount.limit else t.uses id := by
  simp only [uses, reference, Registry.get?_modify]
  split <;> cases t.get? id <;> rfl

theorem uses_unreferenceOne (t : GroupTable) (g id : GroupId) :
    (t.unreference g).uses id = if id = g then (t.uses id).map (· - 1) else t.uses id := by
  simp only [uses, unreference, Registry.get?_modify]
  split <;> cases t.get? id <;> rfl

/-- A count that stays below the limit goes up by one for each time that a group is named.
Induction on the names. -/
theorem uses_reference (t : GroupTable) (l : List GroupId) (id : GroupId)
    (few : ∀ n, t.uses id = some n → n + l.count id ≤ UseCount.limit) :
    uses (l.foldl reference t) id = (t.uses id).map (· + l.count id) := by
  induction l generalizing t with
  | nil => cases h : t.uses id <;> simp [h]
  | cons g l ih =>
    have step := t.uses_referenceOne g id
    rw [List.foldl_cons]
    by_cases same : id = g
    · subst same
      rw [if_pos rfl] at step
      rw [List.count_cons_self] at few ⊢
      cases held : t.uses id with
      | none =>
        rw [held, Option.map_none] at step
        rw [ih _ (by simp [step]), step]
        rfl
      | some n =>
        have room := few n held
        have once : min (n + 1) UseCount.limit = n + 1 := Nat.min_eq_left (by omega)
        rw [held, Option.map_some, once] at step
        have rest : ∀ m, (t.reference id).uses id = some m → m + l.count id ≤ UseCount.limit := by
          intro m counted
          rw [step, Option.some.injEq] at counted
          omega
        rw [ih _ rest, step, Option.map_some, Option.map_some, Option.some.injEq]
        omega
    · rw [if_neg same] at step
      rw [List.count_cons_of_ne (Ne.symm same)] at few ⊢
      rw [ih _ (by rw [step]; exact few), step]

theorem uses_unreference (t : GroupTable) (l : List GroupId) (id : GroupId) :
    uses (l.foldl unreference t) id = (t.uses id).map (· - l.count id) := by
  induction l generalizing t with
  | nil => cases h : t.uses id <;> simp [h]
  | cons g l ih =>
    rw [List.foldl_cons, ih, uses_unreferenceOne]
    by_cases same : id = g
    · subst same
      rw [if_pos rfl, List.count_cons_self, Option.map_map]
      congr 1
      funext n
      simp only [Function.comp_apply]
      omega
    · rw [if_neg same, List.count_cons_of_ne (Ne.symm same)]

end GroupTable

namespace Tables

variable {may : MeterId → Prop} {t t' : Tables}

/-- The groups that entries name, once for each time they are named. -/
def namedGroups (l : List FlowEntry) : List GroupId := l.flatMap (·.instructions.groups)

/-- How often the entries of all tables name a group. -/
def references (t : Tables) (id : GroupId) : Nat := (namedGroups t.entries).count id

/-- Whether every group counts how often it is named. -/
def Counted (t : Tables) : Prop := ∀ id n, t.groups.uses id = some n → n = t.references id

/-- Whether every group that an entry names is there. -/
def Resolved (t : Tables) : Prop := ∀ e ∈ t.entries, t.Knows e.instructions

/-- Counting down what one set of instructions named and up what another one does keeps the counts
right if one came for the other in the entries. -/
theorem Counted.shift {m : Tables} {old new : InstructionSet} {rest : GroupId → Nat}
    (counted : t.Counted) (groups : m.groups = t.groups)
    (had : ∀ id, t.references id = old.groups.count id + rest id)
    (has : ∀ id, m.references id = new.groups.count id + rest id)
    (few : ∀ id, m.references id < UInt32.size) : ((m.unreference old).reference new).Counted := by
  intro id n found
  have now : ((m.unreference old).reference new).references id = m.references id := rfl
  have small := few id
  have limit : UInt32.size = UseCount.limit + 1 := rfl
  have down : (m.unreference old).groups.uses id
      = (t.groups.uses id).map (· - old.groups.count id) := by
    rw [← groups]
    exact m.groups.uses_unreference old.groups id
  have up := (m.unreference old).groups.uses_reference new.groups id (by
    intro n' held
    rw [down] at held
    obtain ⟨n, uses, rfl⟩ := Option.map_eq_some_iff.mp held
    have before := counted id n uses
    have was := had id
    have becomes := has id
    omega)
  have whole : ((m.unreference old).groups.uses id).map (· + new.groups.count id) = some n :=
    up.symm.trans found
  rw [down, Option.map_map] at whole
  obtain ⟨n', uses, rfl⟩ := Option.map_eq_some_iff.mp whole
  have before := counted id n' uses
  have was := had id
  have becomes := has id
  simp only [Function.comp_apply, now]
  omega

/-- Counting down what an entry named keeps the counts right if the entry is gone. -/
theorem Counted.drop {m : Tables} {old : InstructionSet} (counted : t.Counted)
    (groups : m.groups = t.groups)
    (had : ∀ id, t.references id = old.groups.count id + m.references id) :
    (m.unreference old).Counted := by
  intro id n found
  have now : (m.unreference old).references id = m.references id := rfl
  have down : (m.unreference old).groups.uses id
      = (t.groups.uses id).map (· - old.groups.count id) := by
    rw [← groups]
    exact m.groups.uses_unreference old.groups id
  rw [down] at found
  obtain ⟨n', uses, rfl⟩ := Option.map_eq_some_iff.mp found
  have before := counted id n' uses
  have was := had id
  omega

theorem references_perm {l : List FlowEntry} (same : t.entries.Perm l) (id : GroupId) :
    t.references id = (namedGroups l).count id :=
  (same.flatMap_right _).count_eq id

theorem references_of_perm {e : FlowEntry} {l : List FlowEntry} (whole : t.entries.Perm (e :: l))
    (id : GroupId) :
    t.references id = e.instructions.groups.count id + (namedGroups l).count id := by
  rw [references_perm whole, namedGroups, List.flatMap_cons, List.count_append]
  rfl

theorem references_of_not_mem {id : GroupId}
    (unnamed : ∀ e ∈ t.entries, id ∉ e.instructions.groups) : t.references id = 0 := by
  refine List.count_eq_zero.mpr fun named => ?_
  obtain ⟨e, inside, here⟩ := List.mem_flatMap.mp named
  exact unnamed e inside here

theorem Resolved.of_keys (resolved : t.Resolved) (keys : t'.groups.keys = t.groups.keys)
    (named : ∀ e ∈ t'.entries,
      t.Knows e.instructions ∨ ∃ e' ∈ t.entries, e'.instructions = e.instructions) :
    t'.Resolved := by
  intro e inside
  refine Knows.of_keys keys ?_
  rcases named e inside with known | ⟨e', among, same⟩
  · exact known
  · exact same ▸ resolved e' among

/-- Every group that an entry names is there and counts how often it is named. -/
structure Linked (t : Tables) : Prop where
  resolved : t.Resolved
  counted : t.Counted

/-! ## What each move does to the references -/

theorem uses_settled (t : Tables) (id : GroupId) :
    t.settled.groups.uses id = t.groups.uses id := by
  have held : t.settled.groups.get? id = (t.groups.get? id).map (·.settled) := by
    simp only [settled, Registry.get?_map]
  rw [GroupTable.uses, held]
  cases h : t.groups.get? id <;> simp [GroupTable.uses, h, Group.settled]

theorem references_settled (t : Tables) (id : GroupId) :
    t.settled.references id = t.references id := by
  simp only [references, namedGroups, entries_settled, List.flatMap_map]
  rfl

theorem Linked.settle (linked : t.Linked) (same : t'.settled = t.settled) : t'.Linked where
  resolved := linked.resolved.of_keys (keys_groups_of_settled same) fun _ inside =>
    .inr (exists_mem_entries_of_settled same inside)
  counted := by
    intro id n found
    rw [← uses_settled, same, uses_settled] at found
    rw [linked.counted id n found, ← references_settled, ← same, references_settled]

theorem Linked.enroll {f : FlowTable} {e : FlowEntry} (linked : t.Linked)
    (found : t.flowTable? e.ref.table = some f) (known : t.Knows e.instructions)
    (few : ∀ id, (t.enroll e).references id < UInt32.size) : (t.enroll e).Linked := by
  have whole := enroll_perm found
  constructor
  · refine linked.resolved.of_keys ?_ fun x inside => ?_
    · rw [Tables.enroll, keys_reference, groups_modifyFlow]
    · rcases List.mem_cons.mp (whole.mem_iff.mp inside) with rfl | earlier
      · exact .inl known
      · exact .inr ⟨x, earlier, rfl⟩
  · have groups := groups_modifyFlow { t with newestEntry := e.ref.id } e.ref.table (·.enroll e)
    have nothing (id : GroupId) :
        t.references id = InstructionSet.empty.groups.count id + t.references id := by
      have none : InstructionSet.empty.groups = [] := rfl
      simp [none]
    have taken := linked.counted.shift groups nothing (references_of_perm whole) few
    exact taken

/-- One entry has come for another. -/
theorem Linked.swap {m : Tables} {old new : FlowEntry} {rest : List FlowEntry} (linked : t.Linked)
    (groups : m.groups = t.groups) (was : t.entries.Perm (old :: rest))
    (becomes : m.entries.Perm (new :: rest)) (known : t.Knows new.instructions)
    (few : ∀ id, m.references id < UInt32.size) :
    ((m.unreference old.instructions).reference new.instructions).Linked := by
  constructor
  · refine linked.resolved.of_keys ?_ fun e inside => ?_
    · rw [keys_reference, keys_unreference, groups]
    · rcases List.mem_cons.mp (becomes.mem_iff.mp inside) with rfl | stayed
      · exact .inl known
      · exact .inr ⟨e, was.mem_iff.mpr (List.mem_cons_of_mem _ stayed), rfl⟩
  · exact linked.counted.shift groups (references_of_perm was) (references_of_perm becomes) few

theorem Linked.exchange {f : FlowTable} {old e : FlowEntry} (linked : t.Linked)
    (found : t.flowTable? e.ref.table = some f)
    (identical : f.entries.find? e.isIdentical = some old) (known : t.Knows e.instructions)
    (few : ∀ id, (t.exchange old e).references id < UInt32.size) :
    (t.exchange old e).Linked := by
  obtain ⟨rest, was, becomes⟩ := exchange_perm found identical
  exact linked.swap (groups_modifyFlow ..) was becomes known few

theorem Linked.instruct {ref : EntryRef} {s : InstructionSet} {reset : Bool} (linked : t.Linked)
    (known : t.Knows s) (few : ∀ id, (t.instruct ref s reset).references id < UInt32.size) :
    (t.instruct ref s reset).Linked := by
  obtain ⟨-, same⟩ | ⟨old, found, same⟩ := t.instruct_cases ref s reset
  · rwa [same]
  · obtain ⟨rest, was, becomes, -⟩ := perm_entry? found
    rw [same] at few ⊢
    exact linked.swap (groups_modifyFlow ..) was (becomes _) known few

/-! ## What a removal does to the references -/

theorem Counted.erase (counted : t.Counted) (ref : EntryRef) (reason : RemovalReason)
    (now : Time) : (t.erase ref reason now).2.Counted := by
  rcases t.erase_cases ref reason now with ⟨-, none⟩ | ⟨e, found, one⟩
  · rwa [none]
  · obtain ⟨rest, was, -, left⟩ := perm_entry? found
    rw [one]
    refine counted.drop (groups_modifyFlow ..) fun id => ?_
    rw [references_of_perm was, references_perm left]

theorem Linked.remove (linked : t.Linked) (now : Time) (refs : List (EntryRef × RemovalReason)) :
    (t.remove now refs).2.Linked where
  resolved := linked.resolved.of_keys (t.keys_remove now refs) fun e inside =>
    .inr ⟨e, (t.entries_remove now refs).subset inside, rfl⟩
  counted := remove_keeps (fun _ ref reason now counted => counted.erase ref reason now)
    linked.counted now refs

/-! ## What changes to the groups do to the references -/

theorem Linked.addGroup {id : GroupId} {g : Group} (linked : t.Linked)
    (fresh : t.groups.contains id = false) (unused : g.uses = {}) :
    Linked { t with groups := t.groups.insert id g } := by
  constructor
  · intro e inside group named
    have known := linked.resolved e inside group named
    rw [Registry.contains_eq_isSome] at known ⊢
    rw [Registry.get?_insert]
    split
    · rfl
    · exact known
  · intro other n found
    simp only [GroupTable.uses, Registry.get?_insert] at found
    by_cases same : other = id
    · subst same
      have unnamed : ∀ e ∈ t.entries, other ∉ e.instructions.groups := by
        intro e inside named
        have known := linked.resolved e inside other named
        rw [fresh] at known
        cases known
      rw [if_pos rfl] at found
      have zero : n = 0 := by simpa [unused] using found.symm
      rw [zero]
      exact (references_of_not_mem unnamed).symm
    · rw [if_neg same] at found
      exact linked.counted other n found

theorem Linked.changeGroup {id : GroupId} {change : Group → Group} (linked : t.Linked)
    (uses : ∀ g, (change g).uses = g.uses) :
    Linked { t with groups := t.groups.modify id change } := by
  constructor
  · exact linked.resolved.of_keys (Registry.keys_modify ..) fun e inside => .inr ⟨e, inside, rfl⟩
  · intro other n found
    refine linked.counted other n ?_
    rw [← found]
    simp only [GroupTable.uses, Registry.get?_modify]
    split
    · cases t.groups.get? other <;> simp [uses]
    · rfl

/-- What a group takes with it are the entries that name it, so that none is left to miss it. -/
theorem Linked.dropGroup (linked : t.Linked) (addressed : t.Addressed) (id : GroupId)
    (now : Time) : (t.dropGroup id now).2.Linked := by
  constructor
  · intro e inside
    obtain ⟨table, l, held, among⟩ := mem_entries_iff_held.mp inside
    rw [held?_dropGroup addressed] at held
    obtain ⟨l', held', rfl⟩ := Option.map_eq_some_iff.mp held
    obtain ⟨here, unnamed⟩ := List.mem_filter.mp among
    have known := linked.resolved e (mem_entries_iff_held.mpr ⟨table, l', held', here⟩)
    have left : Knows { t with groups := t.groups.erase id } e.instructions := by
      intro group named
      have apart : group ≠ id := by
        rintro rfl
        simp [InstructionSet.refersToGroup, named] at unnamed
      have there := known group named
      rw [Registry.contains_eq_isSome] at there ⊢
      rwa [Registry.get?_erase, if_neg apart]
    exact left.of_keys (keys_remove ..)
  · have begun : Counted { t with groups := t.groups.erase id } := by
      intro other n found
      simp only [GroupTable.uses, Registry.get?_erase] at found
      by_cases same : other = id
      · simp [same] at found
      · rw [if_neg same] at found
        exact linked.counted other n found
    exact remove_keeps (fun _ ref reason now counted => counted.erase ref reason now) begun now _

theorem Move.linked {l : List Tables} {n : Nat} (move : Move may t l n t') (linked : t.Linked)
    (addressed : t.Addressed) (few : ∀ m ∈ l, ∀ id, m.references id < UInt32.size) : t'.Linked := by
  cases move with
  | settle same => exact linked.settle same
  | enroll found alone room clear number known =>
    exact linked.enroll found known (few _ List.mem_cons_self)
  | exchange found identical clear number known =>
    exact linked.exchange found identical known (few _ List.mem_cons_self)
  | instruct known => exact linked.instruct known (few _ List.mem_cons_self)
  | remove => exact linked.remove _ _
  | addGroup fresh unused => exact linked.addGroup fresh unused
  | changeGroup uses => exact linked.changeGroup uses
  | dropGroup => exact linked.dropGroup addressed _ _
  | addMeter | changeMeter | dropMeters => exact ⟨linked.resolved, linked.counted⟩

/-- Chains of moves keep the references right while the numbers last. Only then is it the entries
that name a group that go with it. -/
theorem Moves.linked {l : List Tables} {n : Nat} (moves : Moves may t l n t')
    (own : t.Each FlowTable.Own) (numbered : t.Numbered)
    (left : t.newestEntry.toNat + n < UInt64.size)
    (few : ∀ m ∈ l, ∀ id, m.references id < UInt32.size) (linked : t.Linked) : t'.Linked := by
  induction moves with
  | none => exact linked
  | next moves move ih =>
    have earlier := ih (by omega) fun m inside => few m (List.mem_append_left _ inside)
    have owned := moves.each FlowTable.kept_own (fun _ _ _ _ _ => trivial) own
    have told := moves.numbered numbered (by omega)
    exact move.linked earlier (addressed_of_numbers owned told.nodup) fun m inside =>
      few m (List.mem_append_right _ inside)

theorem linked_empty (capacity : Nat) : (empty capacity).Linked := by
  constructor
  · intro e inside
    obtain ⟨id, f, found, among⟩ := mem_entries.mp inside
    rw [flowTable?_empty found] at among
    cases among
  · intro id n found
    cases found

/-- Tables that were empty at first have their references right after any commands, refused or
not, and each entry is found by its name, while the numbers last and no group is named more often
than can be counted. -/
theorem run_linked {capacity : Nat} {cs : List Command}
    (few : (empty capacity).additions cs < UInt64.size)
    (small : ∀ m ∈ (empty capacity).history cs, ∀ id, m.references id < UInt32.size) :
    ((empty capacity).run cs).Linked ∧ ((empty capacity).run cs).Addressed := by
  obtain ⟨l, moves, made⟩ := (empty capacity).run_moves cs
  have first : (empty capacity).newestEntry.toNat = 0 := rfl
  have left : (empty capacity).newestEntry.toNat + (empty capacity).additions cs < UInt64.size := by
    omega
  have own := FlowTable.own_empty capacity
  have owned := moves.each FlowTable.kept_own (fun _ _ _ _ _ => trivial) own
  have told := moves.numbered (numbered_empty capacity) left
  refine ⟨?_, addressed_of_numbers owned told.nodup⟩
  exact moves.linked own (numbered_empty capacity) left
    (fun m inside => small m (made m inside)) (linked_empty capacity)

end Tables

end FlowSwitch
