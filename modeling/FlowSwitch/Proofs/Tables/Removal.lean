import FlowSwitch.Proofs.Tables.Numbers
import Mathlib.Data.List.Nodup

/-!
# What a removal takes

Entries are removed by table and number. Where these name one entry at most, a removal
takes the entries that it was asked for and leaves every other one in its place.
-/

namespace FlowSwitch

/-- Whether `table`, a table or all of them, stands for the table `id`. -/
def TableId.addresses (table id : TableId) : Bool := table == TableId.all || table == id

/-- The report of a removal, if the entry asks for one. -/
def FlowEntry.report? (e : FlowEntry) (now : Time) (reason : RemovalReason) : Option FlowRemoved :=
  if e.flags.sendRemoved then some (e.removed reason now) else none

namespace Tables

variable {t t' : Tables}

/-- The entries of one table, in order. -/
def held? (t : Tables) (id : TableId) : Option (List FlowEntry) :=
  (t.flowTable? id).map (·.entries)

theorem mem_entries_iff_held {e : FlowEntry} :
    e ∈ t.entries ↔ ∃ id l, t.held? id = some l ∧ e ∈ l := by
  rw [mem_entries]
  constructor
  · rintro ⟨id, f, found, inside⟩
    exact ⟨id, f.entries, by simp [held?, found], inside⟩
  · rintro ⟨id, l, held, inside⟩
    obtain ⟨f, found, rfl⟩ := Option.map_eq_some_iff.mp held
    exact ⟨id, f, found, inside⟩

/-- What one filter leaves after another. -/
theorem held?_filter_filter {t'' : Tables} {id : TableId} {p q : FlowEntry → Bool}
    (first : t'.held? id = (t.held? id).map (·.filter p))
    (rest : t''.held? id = (t'.held? id).map (·.filter q)) :
    t''.held? id = (t.held? id).map (·.filter fun e => p e && q e) := by
  rw [rest, first, Option.map_map]
  congr 1
  funext l
  simp only [Function.comp_apply, List.filter_filter]
  congr 1
  funext e
  exact Bool.and_comm ..

/-- Whether a table and a number name one entry at most. -/
def Addressed (t : Tables) : Prop :=
  t.Each fun id f => f.Own id ∧ (f.entries.map (·.ref.id)).Nodup

theorem addressed_of_numbers (own : t.Each FlowTable.Own) (nodup : t.numbers.Nodup) :
    t.Addressed := by
  intro id f found
  obtain ⟨before, after, whole, -⟩ := split_entries found
  rw [numbers, whole, List.append_assoc, List.map_append, List.map_append] at nodup
  exact ⟨own id f found, ((List.nodup_append.mp nodup).2.1 |> List.nodup_append.mp).1⟩

theorem Addressed.of_flow (flow : t'.flow = t.flow) (addressed : t.Addressed) : t'.Addressed :=
  Each.of_flow flow addressed

theorem Addressed.erase (addressed : t.Addressed) (ref : EntryRef) (reason : RemovalReason)
    (now : Time) : (t.erase ref reason now).2.Addressed := by
  rcases t.erase_cases ref reason now with ⟨-, none⟩ | ⟨e, found, one⟩
  · rwa [none]
  · obtain ⟨f, table, -⟩ := Option.bind_eq_some_iff.mp found
    obtain ⟨own, nodup⟩ := addressed _ f table
    have part : (f.release ref.id).entries.Sublist f.entries := List.eraseP_sublist
    have released := addressed.modifyFlow (·.release ref.id) table
      ⟨own.release, nodup.sublist (part.map _)⟩
    rw [one]
    exact released.of_flow rfl

/-- Entries of one name are one entry. -/
theorem Addressed.eq_of_ref (addressed : t.Addressed) {id : TableId} {f : FlowTable}
    (found : t.flowTable? id = some f) {e e' : FlowEntry} (inside : e ∈ f.entries)
    (among : e' ∈ t.entries) (same : e'.ref = e.ref) : e' = e := by
  obtain ⟨id', f', found', inside'⟩ := mem_entries.mp among
  have table : id' = id := by
    rw [← (addressed id' f' found').1 e' inside', same, (addressed id f found).1 e inside]
  subst table
  obtain rfl : f' = f := Option.some.inj (found'.symm.trans found)
  have number : e'.ref.id = e.ref.id := by rw [same]
  exact List.inj_on_of_nodup_map (addressed id' f' found).2 inside' inside number

theorem entry?_of_mem (addressed : t.Addressed) {e : FlowEntry} (inside : e ∈ t.entries) :
    t.entry? e.ref = some e := by
  obtain ⟨id, f, found, held⟩ := mem_entries.mp inside
  obtain ⟨own, nodup⟩ := addressed id f found
  rw [entry?_eq_bind, own e held, found, Option.bind_some]
  cases first : f.find? e.ref.id with
  | none => exact absurd (List.find?_eq_none.mp first e held) (by simp)
  | some x =>
    have number : x.ref.id = e.ref.id := by simpa using List.find?_some first
    have among : x ∈ f.entries := List.mem_of_find?_eq_some first
    rw [List.inj_on_of_nodup_map nodup among held number]

theorem held?_erase_eraseP (t : Tables) (ref : EntryRef) (reason : RemovalReason) (now : Time)
    (id : TableId) :
    (t.erase ref reason now).2.held? id
      = if id = ref.table then (t.held? id).map (·.eraseP (·.ref.id == ref.id))
        else t.held? id := by
  rcases t.erase_cases ref reason now with ⟨missing, same⟩ | ⟨e, -, one⟩
  · rw [same]
    split
    · rename_i here
      subst here
      cases table : t.flowTable? ref.table with
      | none => simp [held?, table]
      | some f =>
        have nowhere : f.find? ref.id = none := by
          simpa [entry?_eq_bind, table] using missing
        simp [held?, table, List.eraseP_of_forall_not (List.find?_eq_none.mp nowhere)]
    · rfl
  · have change : (t.erase ref reason now).2.flowTable? id
        = (t.modifyFlow ref.table (·.release ref.id)).flowTable? id := by
      rw [one]
      rfl
    simp only [held?, change, flowTable?_modifyFlow]
    split
    · cases t.flowTable? id <;> rfl
    · rfl

/-- Where numbers are given once, the first entry with a number is the only one. Induction on the
entries. -/
theorem eraseP_number {l : List FlowEntry} (nodup : (l.map (·.ref.id)).Nodup) (number : UInt64) :
    l.eraseP (·.ref.id == number) = l.filter (·.ref.id != number) := by
  induction l with
  | nil => rfl
  | cons e l ih =>
    obtain ⟨apart, rest⟩ := List.nodup_cons.mp nodup
    by_cases named : e.ref.id = number
    · subst named
      have others : ∀ x ∈ l, (x.ref.id != e.ref.id) = true := by
        intro x inside
        refine bne_iff_ne.mpr fun same => apart ?_
        exact List.mem_map.mpr ⟨x, inside, same⟩
      simp [List.filter_eq_self.mpr others]
    · simp [named, ih rest]

theorem held?_erase (addressed : t.Addressed) (ref : EntryRef) (reason : RemovalReason)
    (now : Time) (id : TableId) :
    (t.erase ref reason now).2.held? id = (t.held? id).map (·.filter (ref != ·.ref)) := by
  rw [held?_erase_eraseP]
  cases found : t.flowTable? id with
  | none => simp [held?, found]
  | some f =>
    obtain ⟨own, nodup⟩ := addressed id f found
    simp only [held?, found, Option.map_some]
    by_cases here : id = ref.table
    · rw [if_pos here, eraseP_number nodup]
      refine congrArg some (List.filter_congr fun e inside => ?_)
      have table : e.ref.table = ref.table := (own e inside).trans here
      have number : e.ref.id = ref.id ↔ ref = e.ref := by
        rw [EntryRef.ext_iff]
        exact ⟨fun same => ⟨table.symm, same.symm⟩, fun same => same.2.symm⟩
      rw [Bool.eq_iff_iff, bne_iff_ne, bne_iff_ne]
      exact not_congr number
    · rw [if_neg here]
      refine congrArg some (List.filter_eq_self.mpr fun e inside => ?_).symm
      refine bne_iff_ne.mpr fun same => here ?_
      rw [same, own e inside]

/-- Induction on the entries to remove. -/
theorem held?_remove (addressed : t.Addressed) (now : Time)
    (refs : List (EntryRef × RemovalReason)) (id : TableId) :
    (t.remove now refs).2.held? id
      = (t.held? id).map (·.filter fun e => refs.all (·.1 != e.ref)) := by
  induction refs generalizing t with
  | nil => simp [remove]
  | cons r refs ih =>
    have first := held?_erase addressed r.1 r.2 now id
    have rest := ih (addressed.erase r.1 r.2 now)
    simp only [List.all_cons]
    exact held?_filter_filter first rest

theorem mem_entriesOf_iff (own : t.Each FlowTable.Own) {id : TableId} {f : FlowTable}
    (found : t.flowTable? id = some f) {e : FlowEntry} (inside : e ∈ f.entries) (table : TableId) :
    e ∈ t.entriesOf table ↔ table.addresses id = true := by
  unfold entriesOf TableId.addresses
  by_cases all : table = TableId.all
  · simpa [all] using mem_entries.mpr ⟨id, f, found, inside⟩
  · rw [if_neg all, beq_eq_false_iff_ne.mpr all, Bool.false_or, beq_iff_eq]
    constructor
    · intro listed
      cases there : t.flowTable? table with
      | none => simp [there] at listed
      | some g =>
        rw [there] at listed
        exact (own table g there e listed).symm.trans (own id f found e inside)
    · rintro rfl
      rw [found]
      exact inside

theorem fst_erase (addressed : t.Addressed) {e : FlowEntry} (inside : e ∈ t.entries)
    (reason : RemovalReason) (now : Time) :
    (t.erase e.ref reason now).1 = (e.report? now reason).toList := by
  unfold erase FlowEntry.report?
  rw [entry?_of_mem addressed inside]
  dsimp only
  split <;> rfl

/-- Each entry that is removed is reported once, if it asks for that, in the order of the removals.
Induction on these. -/
theorem fst_remove (addressed : t.Addressed) (now : Time) {l : List (FlowEntry × RemovalReason)}
    (present : ∀ x ∈ l, x.1 ∈ t.entries) (apart : l.Pairwise fun x y => x.1.ref ≠ y.1.ref) :
    (t.remove now (l.map fun x => (x.1.ref, x.2))).1
      = l.filterMap fun x => x.1.report? now x.2 := by
  induction l generalizing t with
  | nil => rfl
  | cons x l ih =>
    obtain ⟨first, apart⟩ := List.pairwise_cons.mp apart
    have left : ∀ y ∈ l, y.1 ∈ (t.erase x.1.ref x.2 now).2.entries := by
      intro y inside
      have among := present y (List.mem_cons_of_mem _ inside)
      obtain ⟨id, held, here, there⟩ := mem_entries_iff_held.mp among
      refine mem_entries_iff_held.mpr ⟨id, held.filter (x.1.ref != ·.ref), ?_, ?_⟩
      · rw [held?_erase addressed, here, Option.map_some]
      · exact List.mem_filter.mpr ⟨there, bne_iff_ne.mpr (first y inside)⟩
    have here := fst_erase addressed (present x List.mem_cons_self) x.2 now
    have rest := ih (addressed.erase x.1.ref x.2 now) left apart
    simp only [List.map_cons, remove, here, rest, List.filterMap_cons]
    cases x.1.report? now x.2 <;> rfl

/-- What names an entry of the tables that are meant is that entry. -/
theorem exists_ref_iff (addressed : t.Addressed) {id : TableId} {f : FlowTable}
    (found : t.flowTable? id = some f) {e : FlowEntry} (inside : e ∈ f.entries) (table : TableId)
    (p : FlowEntry → Prop) :
    (∃ x ∈ t.entriesOf table, p x ∧ x.ref = e.ref) ↔ table.addresses id = true ∧ p e := by
  rw [← mem_entriesOf_iff (fun id f found => (addressed id f found).1) found inside]
  constructor
  · rintro ⟨x, listed, chosen, same⟩
    obtain rfl := addressed.eq_of_ref found inside (mem_entries_of_mem_entriesOf listed) same
    exact ⟨listed, chosen⟩
  · rintro ⟨listed, chosen⟩
    exact ⟨e, listed, chosen, rfl⟩

/-- A removal leaves the entries that it is not about and those that there is no reason for. -/
theorem held?_removeWhere (addressed : t.Addressed) (table : TableId)
    (reason? : FlowEntry → Option RemovalReason) (now : Time) (id : TableId) :
    (t.removeWhere table reason? now).2.held? id
      = (t.held? id).map (·.filter fun e => !(table.addresses id && (reason? e).isSome)) := by
  unfold removeWhere
  rw [held?_remove addressed]
  cases found : t.flowTable? id with
  | none => simp [held?, found]
  | some f =>
    simp only [held?, found, Option.map_some, Option.some.injEq]
    refine List.filter_congr fun e inside => ?_
    have meant := exists_ref_iff addressed found inside table fun e => (reason? e).isSome = true
    cases taken : table.addresses id && (reason? e).isSome with
    | true =>
      obtain ⟨x, listed, reason, same⟩ := meant.mpr (Bool.and_eq_true_iff.mp taken)
      obtain ⟨r, reason⟩ := Option.isSome_iff_exists.mp reason
      have named : (x.ref, r) ∈ (t.entriesOf table).filterMap fun e => (reason? e).map (e.ref, ·) :=
        List.mem_filterMap.mpr ⟨x, listed, by simp [reason]⟩
      exact List.all_eq_false.mpr ⟨_, named, by simp [same]⟩
    | false =>
      refine List.all_eq_true.mpr fun r named => ?_
      obtain ⟨x, listed, named⟩ := List.mem_filterMap.mp named
      obtain ⟨r', reason, rfl⟩ := Option.map_eq_some_iff.mp named
      refine bne_iff_ne.mpr fun same => ?_
      have both := meant.mp ⟨x, listed, by simp [reason], same⟩
      rw [both.1, both.2] at taken
      cases taken

/-! ## Groups that go with the entries that name them -/

theorem held?_dropGroup (addressed : t.Addressed) (group : GroupId) (now : Time) (id : TableId) :
    (t.dropGroup group now).2.held? id
      = (t.held? id).map (·.filter (!·.instructions.refersToGroup group)) := by
  have begun : { t with groups := t.groups.erase group : Tables }.Addressed := addressed.of_flow rfl
  refine (held?_removeWhere begun TableId.all _ now id).trans ?_
  congr 1
  funext l
  congr 1
  funext e
  cases e.instructions.refersToGroup group <;> rfl

theorem Addressed.dropGroup (addressed : t.Addressed) (group : GroupId) (now : Time) :
    (t.dropGroup group now).2.Addressed := by
  have begun : { t with groups := t.groups.erase group : Tables }.Addressed := addressed.of_flow rfl
  exact remove_keeps (fun _ ref reason now addressed => addressed.erase ref reason now) begun now _

theorem keys_remove (t : Tables) (now : Time) (refs : List (EntryRef × RemovalReason)) :
    (t.remove now refs).2.groups.keys = t.groups.keys := by
  refine remove_keeps (P := fun t' => t'.groups.keys = t.groups.keys) ?_ rfl now refs
  intro t' ref reason now same
  rcases t'.erase_cases ref reason now with ⟨-, none⟩ | ⟨e, -, one⟩
  · rw [none, same]
  · rw [one, keys_unreference, groups_modifyFlow, same]

theorem contains_dropGroup (t : Tables) (group id : GroupId) (now : Time) :
    (t.dropGroup group now).2.groups.contains id = (t.groups.contains id && id != group) := by
  have kept : (t.dropGroup group now).2.groups.keys = Registry.keys (t.groups.erase group) :=
    keys_remove ..
  rw [Bool.eq_iff_iff, Registry.contains_iff_mem_keys, kept, ← Registry.contains_iff_mem_keys,
    Registry.contains_eq_isSome, Registry.contains_eq_isSome, Registry.get?_erase]
  by_cases same : id = group <;> simp [same]

theorem contains_dropGroups (t : Tables) (now : Time) (groups : List GroupId) (id : GroupId) :
    (t.dropGroups now groups).2.groups.contains id
      = (t.groups.contains id && !groups.contains id) := by
  induction groups generalizing t with
  | nil => simp [dropGroups]
  | cons group groups ih =>
    refine (ih (t.dropGroup group now).2).trans ?_
    rw [contains_dropGroup, List.contains_cons, Bool.not_or, Bool.and_assoc]
    rfl

/-- Groups that are dropped one by one take the entries that name any of them. Induction on the
groups. -/
theorem held?_dropGroups (addressed : t.Addressed) (now : Time) (groups : List GroupId)
    (id : TableId) :
    (t.dropGroups now groups).2.held? id
      = (t.held? id).map (·.filter fun e => groups.all (!e.instructions.refersToGroup ·)) := by
  induction groups generalizing t with
  | nil => simp [dropGroups]
  | cons group groups ih =>
    have first := held?_dropGroup addressed group now id
    have rest := ih (addressed.dropGroup group now)
    simp only [List.all_cons]
    exact held?_filter_filter first rest

end Tables

end FlowSwitch
