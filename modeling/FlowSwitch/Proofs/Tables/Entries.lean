import FlowSwitch.Proofs.Flow.Order
import FlowSwitch.Tables.Modify
import FlowSwitch.Tables.Remove

/-!
# Where the entries of the tables are

The entries of all tables are one list, and what is done to one entry or one table is
done in the middle of it. Asking the tables leaves the entries alone.
-/

namespace FlowSwitch

namespace FlowTable

/-- What is done to the first entry with a number, and what is left without it. -/
theorem split_find? {t : FlowTable} {id : UInt64} {e : FlowEntry} (found : t.find? id = some e) :
    ∃ before after, t.entries = before ++ e :: after ∧ e.ref.id = id ∧
      (∀ x ∈ before, x.ref.id ≠ id) ∧
      (∀ change, (t.modify id change).entries = before ++ change e :: after) ∧
      (t.release id).entries = before ++ after := by
  obtain ⟨named, before, after, split, others⟩ := List.find?_eq_some_iff_append.mp found
  have named : e.ref.id = id := by simpa using named
  have others : ∀ x ∈ before, x.ref.id ≠ id := fun x h => by simpa using others x h
  have none : ∀ x ∈ before, ¬ (x.ref.id == id) = true := fun x h => by simpa using others x h
  have place : t.entries.findIdx (·.ref.id == id) = before.length := by
    rw [split, List.findIdx_append]
    have : before.findIdx (·.ref.id == id) = before.length :=
      List.findIdx_eq_length.mpr fun x h => by simpa using others x h
    simp [this, List.findIdx_cons, named]
  refine ⟨before, after, split, named, others, fun change => ?_, ?_⟩
  · simp only [modify, place]
    have inside : before.length < t.entries.length := by simp [split]
    rw [List.modify_eq_take_cons_drop inside]
    simp [split]
  · simp only [release]
    rw [split, List.eraseP_append_right _ none, List.eraseP_cons_of_pos (by simp [named])]

/-- Changing one entry leaves what it does not change of any. -/
theorem map_modify {β : Type} (t : FlowTable) (id : UInt64) (change : FlowEntry → FlowEntry)
    (shown : FlowEntry → β) (same : ∀ e, shown (change e) = shown e) :
    (t.modify id change).entries.map shown = t.entries.map shown := by
  simp only [modify]
  generalize t.entries.findIdx (·.ref.id == id) = i
  induction t.entries generalizing i with
  | nil => simp
  | cons e l ih =>
    cases i with
    | zero => simp [same]
    | succ i => simp [ih]

end FlowTable

namespace Tables

/-- Changing one table leaves what it does not change of any. -/
theorem map_modifyFlow {β : Type} (t : Tables) (id : TableId) {change : FlowTable → FlowTable}
    {shown : FlowTable → β} (same : ∀ f, t.flowTable? id = some f → shown (change f) = shown f) :
    (t.modifyFlow id change).flow.map shown = t.flow.map shown := by
  unfold modifyFlow
  split
  · rename_i f found
    obtain ⟨inside, rfl⟩ := Vector.getElem?_eq_some_iff.mp found
    rw [Vector.map_setIfInBounds, same _ found]
    refine Vector.ext fun i h => ?_
    rw [Vector.getElem_setIfInBounds]
    split
    · rename_i here
      subst here
      simp
    · rfl
  · rfl

@[simp]
theorem groups_modifyFlow (t : Tables) (id : TableId) (change : FlowTable → FlowTable) :
    (t.modifyFlow id change).groups = t.groups := by
  unfold modifyFlow
  split <;> rfl

@[simp]
theorem meters_modifyFlow (t : Tables) (id : TableId) (change : FlowTable → FlowTable) :
    (t.modifyFlow id change).meters = t.meters := by
  unfold modifyFlow
  split <;> rfl

@[simp]
theorem newestEntry_modifyFlow (t : Tables) (id : TableId) (change : FlowTable → FlowTable) :
    (t.modifyFlow id change).newestEntry = t.newestEntry := by
  unfold modifyFlow
  split <;> rfl

theorem mem_entries {t : Tables} {e : FlowEntry} :
    e ∈ t.entries ↔ ∃ id f, t.flowTable? id = some f ∧ e ∈ f.entries := by
  simp only [entries, List.mem_flatMap, Vector.mem_toList_iff, flowTable?]
  constructor
  · rintro ⟨f, held, inside⟩
    obtain ⟨i, h, rfl⟩ := Vector.getElem_of_mem held
    have : i.toUInt8.toNat = i := by
      have : TableId.count = 255 := rfl
      simp only [Nat.toUInt8_eq, UInt8.toNat_ofNat']
      omega
    exact ⟨i.toUInt8, _, by rw [this]; exact Vector.getElem?_eq_getElem h, inside⟩
  · rintro ⟨id, f, found, inside⟩
    exact ⟨f, Vector.mem_of_getElem? found, inside⟩

/-- A table stands among the others, and a change of it leaves these alone. -/
theorem split_flowTable? {t : Tables} {id : TableId} {f : FlowTable}
    (found : t.flowTable? id = some f) :
    ∃ before after : List FlowTable, t.flow.toList = before ++ f :: after ∧
      ∀ change, (t.modifyFlow id change).flow.toList = before ++ change f :: after := by
  obtain ⟨inside, rfl⟩ := Vector.getElem?_eq_some_iff.mp found
  refine ⟨t.flow.toList.take id.toNat, t.flow.toList.drop (id.toNat + 1), ?_, fun change => ?_⟩
  · have whole := (List.take_append_drop id.toNat t.flow.toList).symm
    rw [List.drop_eq_getElem_cons (by simpa using inside)] at whole
    simpa using whole
  · simp only [modifyFlow, found, Vector.toList_setIfInBounds]
    rw [List.set_eq_take_append_cons_drop]
    simp [inside]

theorem split_entries {t : Tables} {id : TableId} {f : FlowTable}
    (found : t.flowTable? id = some f) :
    ∃ before after : List FlowEntry, t.entries = before ++ f.entries ++ after ∧
      ∀ change, (t.modifyFlow id change).entries = before ++ (change f).entries ++ after := by
  obtain ⟨before, after, whole, changed⟩ := split_flowTable? found
  refine ⟨before.flatMap (·.entries), after.flatMap (·.entries), ?_, fun change => ?_⟩
  · simp [entries, whole]
  · simp [entries, changed]

theorem entry?_eq_bind (t : Tables) (ref : EntryRef) :
    t.entry? ref = (t.flowTable? ref.table).bind (·.find? ref.id) := rfl

/-- An entry stands among the others, and what is done to it leaves these alone. -/
theorem split_entry? {t : Tables} {ref : EntryRef} {e : FlowEntry} (found : t.entry? ref = some e) :
    ∃ before after, t.entries = before ++ e :: after ∧ e.ref.id = ref.id ∧
      (∀ change, (t.modifyEntry ref change).entries = before ++ change e :: after) ∧
      (t.modifyFlow ref.table (·.release ref.id)).entries = before ++ after := by
  obtain ⟨f, table, inside⟩ := Option.bind_eq_some_iff.mp found
  obtain ⟨before, after, whole, changed⟩ := split_entries table
  obtain ⟨left, right, here, named, -, modified, released⟩ := FlowTable.split_find? inside
  refine ⟨before ++ left, right ++ after, ?_, named, fun change => ?_, ?_⟩
  · simp [whole, here]
  · simp [modifyEntry, changed, modified]
  · simp [changed, released]

/-- The entry with a name among the others, in any order. -/
theorem perm_entry? {t : Tables} {ref : EntryRef} {e : FlowEntry} (found : t.entry? ref = some e) :
    ∃ rest, t.entries.Perm (e :: rest) ∧
      (∀ change, (t.modifyEntry ref change).entries.Perm (change e :: rest)) ∧
      (t.modifyFlow ref.table (·.release ref.id)).entries.Perm rest := by
  obtain ⟨before, after, whole, -, modified, released⟩ := split_entry? found
  refine ⟨before ++ after, whole ▸ List.perm_middle, fun change => ?_, .of_eq released⟩
  rw [modified]
  exact List.perm_middle

/-- The entries of all tables before and after one table has changed. -/
theorem perm_modifyFlow {t : Tables} {id : TableId} {f : FlowTable} {l l' : List FlowEntry}
    (found : t.flowTable? id = some f) (change : FlowTable → FlowTable)
    (was : f.entries.Perm l) (becomes : (change f).entries.Perm l') :
    ∃ rest, t.entries.Perm (l ++ rest) ∧ (t.modifyFlow id change).entries.Perm (l' ++ rest) := by
  obtain ⟨before, after, whole, changed⟩ := split_entries found
  have gather {here there : List FlowEntry} (same : here.Perm there) :
      (before ++ here ++ after).Perm (there ++ (before ++ after)) := by
    rw [List.append_assoc]
    exact (List.perm_append_comm_assoc ..).trans (same.append_right _)
  exact ⟨before ++ after, whole ▸ gather was, changed change ▸ gather becomes⟩

theorem enroll_perm {t : Tables} {f : FlowTable} {e : FlowEntry}
    (found : t.flowTable? e.ref.table = some f) : (t.enroll e).entries.Perm (e :: t.entries) := by
  have begun : { t with newestEntry := e.ref.id : Tables }.flowTable? e.ref.table = some f := found
  obtain ⟨rest, was, becomes⟩ := perm_modifyFlow begun (·.enroll e) (.refl _) (f.insert_perm e)
  exact becomes.trans (was.symm.cons e)

theorem exchange_perm {t : Tables} {f : FlowTable} {old e : FlowEntry}
    (found : t.flowTable? e.ref.table = some f)
    (identical : f.entries.find? e.isIdentical = some old) :
    ∃ rest, t.entries.Perm (old :: rest) ∧ (t.exchange old e).entries.Perm (e :: rest) := by
  obtain ⟨left, right, here, stay⟩ := FlowTable.split_identical identical
  have was : f.entries.Perm (old :: (left ++ right)) := here ▸ List.perm_middle
  have becomes : (f.replace e).entries.Perm (e :: (left ++ right)) := stay ▸ f.replace_perm e
  obtain ⟨rest, before, after⟩ := perm_modifyFlow found (·.replace e) was becomes
  exact ⟨left ++ right ++ rest, before, after⟩

/-- An entry is given up and no longer refers to anything, or there was none. -/
theorem erase_cases (t : Tables) (ref : EntryRef) (reason : RemovalReason) (now : Time) :
    (t.entry? ref = none ∧ (t.erase ref reason now).2 = t) ∨
      ∃ e, t.entry? ref = some e ∧ (t.erase ref reason now).2
        = (t.modifyFlow ref.table (·.release ref.id)).unreference e.instructions := by
  unfold erase
  cases found : t.entry? ref with
  | none => exact .inl ⟨rfl, rfl⟩
  | some e => exact .inr ⟨e, rfl, rfl⟩

/-- An entry has got other instructions, and the references are those of the new ones, or there
was none. -/
theorem instruct_cases (t : Tables) (ref : EntryRef) (s : InstructionSet) (reset : Bool) :
    (t.entry? ref = none ∧ t.instruct ref s reset = t) ∨
      ∃ old, t.entry? ref = some old ∧ t.instruct ref s reset
        = ((t.modifyEntry ref fun e =>
            { e with instructions := s, counter := if reset then {} else e.counter }).unreference
          old.instructions).reference s := by
  unfold instruct
  cases found : t.entry? ref with
  | none => exact .inl ⟨rfl, rfl⟩
  | some old => exact .inr ⟨old, rfl, rfl⟩

/-- What is kept when one entry is given up is kept when many are. Induction on these. -/
theorem remove_keeps {P : Tables → Prop} {t : Tables}
    (each : ∀ t ref reason now, P t → P (t.erase ref reason now).2) (start : P t) (now : Time)
    (refs : List (EntryRef × RemovalReason)) : P (t.remove now refs).2 := by
  induction refs generalizing t with
  | nil => exact start
  | cons r refs ih => exact ih (each t r.1 r.2 now start)

theorem entries_erase (t : Tables) (ref : EntryRef) (reason : RemovalReason) (now : Time) :
    (t.erase ref reason now).2.entries.Sublist t.entries := by
  rcases t.erase_cases ref reason now with ⟨-, none⟩ | ⟨e, found, one⟩
  · have same : (t.erase ref reason now).2.entries = t.entries := congrArg entries none
    exact same ▸ List.Sublist.refl _
  · obtain ⟨before, after, whole, -, -, released⟩ := split_entry? found
    have left : (t.erase ref reason now).2.entries = before ++ after := by
      rw [one]
      exact released
    rw [whole, left]
    exact (List.Sublist.refl before).append (List.sublist_cons_self e after)

theorem entries_remove (t : Tables) (now : Time) (refs : List (EntryRef × RemovalReason)) :
    (t.remove now refs).2.entries.Sublist t.entries := by
  refine remove_keeps (P := fun t' => t'.entries.Sublist t.entries) ?_ (.refl _) now refs
  intro t' ref reason now part
  exact (t'.entries_erase ref reason now).trans part

theorem modifyFlow_of_none {t : Tables} {id : TableId} (missing : t.flowTable? id = none)
    (change : FlowTable → FlowTable) : t.modifyFlow id change = t := by
  simp [modifyFlow, missing]

theorem entries_countLookup (t : Tables) (id : TableId) (found : Nat) :
    (t.modifyFlow id (·.countLookup found)).entries = t.entries := by
  cases table : t.flowTable? id with
  | none => rw [modifyFlow_of_none table]
  | some f =>
    obtain ⟨before, after, whole, changed⟩ := split_entries table
    rw [changed, whole]
    rfl

theorem entriesOf_countLookup (t : Tables) (id table : TableId) (found : Nat) :
    (t.modifyFlow id (·.countLookup found)).entriesOf table = t.entriesOf table := by
  unfold entriesOf
  rw [entries_countLookup, flowTable?_modifyFlow]
  split
  · rfl
  · split
    · cases t.flowTable? table <;> rfl
    · rfl

theorem mem_entries_of_mem_entriesOf {t : Tables} {table : TableId} {e : FlowEntry}
    (inside : e ∈ t.entriesOf table) : e ∈ t.entries := by
  unfold entriesOf at inside
  split at inside
  · exact inside
  · cases found : t.flowTable? table with
    | none => simp [found] at inside
    | some f =>
      simp only [found, Option.map_some, Option.getD_some] at inside
      exact mem_entries.mpr ⟨table, f, found, inside⟩

theorem mem_answers {q : Query} {l : List FlowEntry} {e : FlowEntry} (answer : e ∈ q.answers l) :
    e ∈ l ∧ q.accepts e = true := by
  unfold Query.answers at answer
  split at answer
  · have found := Option.mem_toList.mp answer
    exact ⟨List.mem_of_find?_eq_some found, List.find?_some found⟩
  · exact List.mem_filter.mp answer

/-- Induction on the tables that are left to ask. -/
theorem mem_queryEach {t : Tables} {q : Query} {ids : List TableId} {e : FlowEntry}
    (answer : e ∈ (t.queryEach q ids).1) :
    (∃ id ∈ ids, e ∈ t.entriesOf id) ∧ q.accepts e = true := by
  induction ids generalizing t with
  | nil => simp [queryEach] at answer
  | cons id ids ih =>
    have here (hit : e ∈ q.answers (t.entriesOf id)) :
        (∃ other ∈ id :: ids, e ∈ t.entriesOf other) ∧ q.accepts e = true :=
      ⟨⟨id, List.mem_cons_self .., (mem_answers hit).1⟩, (mem_answers hit).2⟩
    simp only [queryEach] at answer
    split at answer
    · exact here answer
    · rcases List.mem_append.mp answer with hit | later
      · exact here hit
      · obtain ⟨⟨other, among, inside⟩, accepted⟩ := ih later
        rw [entriesOf_countLookup] at inside
        exact ⟨⟨other, List.mem_cons_of_mem _ among, inside⟩, accepted⟩

theorem mem_select {t : Tables} {f : FlowFilter} {priority : Option UInt16} {e : FlowEntry}
    (selected : e ∈ (t.select f priority).1) :
    e ∈ t.entries ∧ (f.query priority).accepts e = true ∧ f.admits e = true := by
  obtain ⟨answer, admitted⟩ := List.mem_filter.mp selected
  obtain ⟨⟨id, -, inside⟩, accepted⟩ := mem_queryEach answer
  exact ⟨mem_entries_of_mem_entriesOf inside, accepted, admitted⟩

end Tables

end FlowSwitch
