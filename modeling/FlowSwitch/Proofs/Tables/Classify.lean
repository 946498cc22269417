import FlowSwitch.Proofs.Tables.Installed
import FlowSwitch.Proofs.Tables.Sound

/-!
# The entry that a packet follows

A packet follows the first entry of a table that selects it. As the entries stand in order,
none that selects it has a higher priority, and the entry for missed packets is followed in
the absence of all others. The order in which entries were added decides between entries
of one priority only.
-/

namespace FlowSwitch

/-- Whether a packet is to follow `e` among the entries of a table: `e` selects it, none that
selects it has a higher priority, and if `e` is the entry for missed packets, it is the only one
that selects it. -/
structure FlowEntry.Leading (packet : Match) (l : List FlowEntry) (e : FlowEntry) : Prop where
  inside : e ∈ l
  selects : e.selector.covers packet = true
  highest : ∀ x ∈ l, x.selector.covers packet = true → x.priority ≤ e.priority
  alone : e.isTableMiss = true → l.filter (·.selector.covers packet) = [e]

theorem Ordered.leading {l : List FlowEntry} {packet : Match} {e : FlowEntry}
    (ordered : Ordered l) (first : l.find? (·.selector.covers packet) = some e) :
    e.Leading packet l := by
  obtain ⟨selects, before, after, rfl, earlier⟩ := List.find?_eq_some_iff_append.mp first
  have none : ∀ x ∈ before, x.selector.covers packet = false :=
    fun x inside => by simpa using earlier x inside
  have later : ∀ x ∈ after, e.leads x :=
    (List.pairwise_cons.mp (List.pairwise_append.mp ordered.sorted).2.1).1
  refine ⟨by simp, selects, fun x inside chosen => ?_, fun miss => ?_⟩
  · rcases List.mem_append.mp inside with early | late
    · exact absurd chosen (by simp [none x early])
    · rcases List.mem_cons.mp late with rfl | late
      · exact UInt16.le_refl _
      · exact (later x late).1
  · -- behind the entry for missed packets there is none of its priority, and it has the lowest
    have last : after = [] := by
      refine List.eq_nil_iff_forall_not_mem.mpr fun x inside => ?_
      have zero : e.priority = 0 := by
        simp only [FlowEntry.isTableMiss, Bool.and_eq_true, beq_iff_eq] at miss
        exact miss.1
      obtain ⟨lower, level⟩ := later x inside
      rw [zero] at lower
      have same : x.priority = e.priority := zero ▸ UInt16.le_antisymm lower (UInt16.zero_le ..)
      exact Bool.false_ne_true ((level same).symm.trans miss)
    have first : before.filter (·.selector.covers packet) = [] :=
      List.filter_eq_nil_iff.mpr fun x inside => by simp [none x inside]
    rw [last, List.filter_append, first, List.nil_append,
      List.filter_cons_of_pos (by exact selects), List.filter_nil]

namespace Tables

variable {t t' : Tables}

theorem kept_ordered : Kept (fun _ => True) fun _ f => Ordered f.entries where
  outline {_ f f'} same ordered := by
    have entries : f'.entries.map (·.outline) = f.entries.map (·.outline) :=
      congrArg (·.entries) same
    exact ordered_outline.mp (entries ▸ ordered_outline.mpr ordered)
  enroll _ alone _ _ _ ordered := FlowTable.insert_ordered ordered fun x inside =>
    Bool.eq_false_iff.mpr (List.find?_eq_none.mp alone x inside)
  replace _ identical _ ordered := FlowTable.replace_ordered ordered identical
  release _ ordered := ordered.sublist List.eraseP_sublist

theorem entries_of_none (none : t.entries = []) {id : TableId} {f : FlowTable}
    (found : t.flowTable? id = some f) : f.entries = [] := by
  refine List.eq_nil_iff_forall_not_mem.mpr fun e inside => ?_
  have among := mem_entries.mpr ⟨id, f, found, inside⟩
  rw [none] at among
  cases among

theorem ordered_of_none (none : t.entries = []) : t.Each fun _ f => Ordered f.entries := by
  intro id f found
  rw [entries_of_none none found]
  exact ⟨.nil, .nil⟩

theorem run_ordered (capacity : Nat) (cs : List Command) :
    ((empty capacity).run cs).Each fun _ f => Ordered f.entries := by
  obtain ⟨l, moves, -⟩ := (empty capacity).run_moves cs
  refine moves.each kept_ordered (fun _ _ _ _ _ => trivial) (ordered_of_none ?_)
  simp [entries, empty]

end Tables

/-! ## Filling tables -/

/-- An entry without its number. -/
def FlowEntry.unnumbered (e : FlowEntry) : FlowEntry := { e with ref := ⟨e.ref.table, 0⟩ }

/-- The entry that a packet follows does not depend on the order in which entries were added, if
no two entries of one priority select the packet. -/
theorem Ordered.find?_congr {l l' : List FlowEntry} {packet : Match} (ordered : Ordered l)
    (ordered' : Ordered l')
    (same : (l.map (·.unnumbered)).Perm (l'.map (·.unnumbered)))
    (untied : ∀ a ∈ l.map (·.unnumbered), ∀ b ∈ l.map (·.unnumbered), a.priority = b.priority →
      a.selector.covers packet = true → b.selector.covers packet = true → a = b) :
    (l.find? (·.selector.covers packet)).map (·.unnumbered) =
      (l'.find? (·.selector.covers packet)).map (·.unnumbered) := by
  have there {x : FlowEntry} (inside : x ∈ l) : ∃ y ∈ l', y.unnumbered = x.unnumbered :=
    List.mem_map.mp (same.mem_iff.mp (List.mem_map_of_mem inside))
  have here {y : FlowEntry} (inside : y ∈ l') : ∃ x ∈ l, x.unnumbered = y.unnumbered :=
    List.mem_map.mp (same.mem_iff.mpr (List.mem_map_of_mem inside))
  have alike {x y : FlowEntry} (equal : x.unnumbered = y.unnumbered) :
      x.priority = y.priority ∧ x.selector = y.selector :=
    ⟨congrArg (·.priority) equal, congrArg (·.selector) equal⟩
  cases hit : l.find? (·.selector.covers packet) with
  | none =>
    cases hit' : l'.find? (·.selector.covers packet) with
    | none => rfl
    | some y =>
      obtain ⟨inside, selects⟩ := (ordered'.leading hit').inside, (ordered'.leading hit').selects
      obtain ⟨x, among, equal⟩ := here inside
      exact absurd ((alike equal).2 ▸ selects) (List.find?_eq_none.mp hit x among)
  | some x =>
    have first := ordered.leading hit
    obtain ⟨x', among', equal'⟩ := there first.inside
    have chosen : x'.selector.covers packet = true := (alike equal').2 ▸ first.selects
    cases hit' : l'.find? (·.selector.covers packet) with
    | none => exact absurd chosen (List.find?_eq_none.mp hit' x' among')
    | some y =>
      have first' := ordered'.leading hit'
      obtain ⟨y', among, equal⟩ := here first'.inside
      have level : x.priority = y.priority := by
        refine UInt16.le_antisymm ?_ ?_
        · exact (alike equal').1 ▸ first'.highest x' among' chosen
        · exact (alike equal).1 ▸ first.highest y' among ((alike equal).2 ▸ first'.selects)
      refine congrArg some (untied _ (List.mem_map_of_mem first.inside) _ ?_ level
        first.selects first'.selects)
      exact same.mem_iff.mpr (List.mem_map_of_mem first'.inside)

namespace Tables

/-- Tables to which entries are added one after the other, none of them in vain. -/
inductive Filled : Tables → List FlowEntry → Tables → Prop
  | none {t : Tables} : Filled t [] t
  | add {t t' t'' : Tables} {e : FlowEntry} {hasPort : PortNo → Bool} {ref : EntryRef}
      {l : List FlowEntry} (added : t.add e hasPort = .ok (ref, t')) (rest : Filled t' l t'') :
      Filled t (e :: l) t''

/-- Whether entries that go to one table differ in priority or match. -/
def Distinct (l : List FlowEntry) : Prop :=
  l.Pairwise fun a b => a.ref.table = b.ref.table → a.differs b

variable {t t' : Tables}

/-- An entry that is like no other of its table is taken in with a new number. -/
theorem flowTable?_add {e : FlowEntry} {hasPort : PortNo → Bool} {ref : EntryRef}
    (added : t.add e hasPort = .ok (ref, t'))
    (new : ∀ f, t.flowTable? e.ref.table = some f → ∀ x ∈ f.entries, e.differs x) :
    ∃ number, ∀ id, t'.flowTable? id = if id = e.ref.table
      then (t.flowTable? id).map (·.enroll { e with ref := ⟨e.ref.table, number⟩ })
      else t.flowTable? id := by
  obtain ⟨f, found, -, ⟨old, counter, same, -⟩ | ⟨-, -, rfl⟩⟩ := add_cases added
  · have apart : e.isIdentical old = false := new f found old (List.mem_of_find?_eq_some same)
    exact absurd (List.find?_some same) (by simp [apart])
  · refine ⟨t.newestEntry + 1, fun id => ?_⟩
    exact flowTable?_modifyFlow { t with newestEntry := t.newestEntry + 1 } _ id _

/-- What tables hold when entries were added to them. Induction on the entries. -/
theorem Filled.perm {l : List FlowEntry} (filled : Filled t l t')
    (ordered : t.Each fun _ f => Ordered f.entries)
    (new : ∀ e ∈ l, ∀ f, t.flowTable? e.ref.table = some f → ∀ x ∈ f.entries, e.differs x)
    (distinct : Distinct l) {id : TableId} {f' : FlowTable} (found : t'.flowTable? id = some f') :
    Ordered f'.entries ∧ ∃ f, t.flowTable? id = some f ∧
      (f'.entries.map (·.unnumbered)).Perm
        ((l.filter (·.ref.table == id)).map (·.unnumbered) ++ f.entries.map (·.unnumbered)) := by
  induction filled with
  | none => exact ⟨ordered id f' found, f', found, by simp⟩
  | @add t t₁ t' e hasPort ref l added rest ih =>
    obtain ⟨apart, distinct⟩ := List.pairwise_cons.mp distinct
    have mine := new e List.mem_cons_self
    obtain ⟨number, put⟩ := flowTable?_add added mine
    have placed (f : FlowTable) :
        (f.enroll { e with ref := ⟨e.ref.table, number⟩ }).entries.Perm
          ({ e with ref := ⟨e.ref.table, number⟩ } :: f.entries) := f.insert_perm _
    have ordered₁ : t₁.Each fun _ f => Ordered f.entries := by
      intro other g here
      rw [put] at here
      split at here
      · rename_i table
        subst table
        obtain ⟨f, found, rfl⟩ := Option.map_eq_some_iff.mp here
        exact FlowTable.insert_ordered (ordered _ f found) (mine f found)
      · exact ordered other g here
    have new₁ : ∀ x ∈ l, ∀ g, t₁.flowTable? x.ref.table = some g →
        ∀ y ∈ g.entries, x.differs y := by
      intro x inside g here y among
      rw [put] at here
      split at here
      · rename_i table
        obtain ⟨f, found, rfl⟩ := Option.map_eq_some_iff.mp here
        rcases List.mem_cons.mp ((placed f).mem_iff.mp among) with rfl | earlier
        · exact FlowEntry.differs_symm (apart x inside table.symm)
        · exact new x (List.mem_cons_of_mem _ inside) f found y earlier
      · exact new x (List.mem_cons_of_mem _ inside) g here y among
    obtain ⟨sorted, g, here, all⟩ := ih ordered₁ new₁ distinct found
    refine ⟨sorted, ?_⟩
    rw [put] at here
    split at here
    · rename_i table
      obtain ⟨f, before, rfl⟩ := Option.map_eq_some_iff.mp here
      refine ⟨f, before, all.trans ?_⟩
      rw [List.filter_cons_of_pos (by simp [table]), List.map_cons, List.cons_append]
      have grown := (placed f).map (·.unnumbered)
      exact (grown.append_left _).trans List.perm_middle
    · rename_i table
      refine ⟨g, here, ?_⟩
      rwa [List.filter_cons_of_neg (by simpa using Ne.symm table)]

/-- Empty tables, once entries were added to them. -/
theorem Filled.perm_of_none {l : List FlowEntry} (filled : Filled t l t') (none : t.entries = [])
    (distinct : Distinct l) {id : TableId} {f' : FlowTable} (found : t'.flowTable? id = some f') :
    Ordered f'.entries ∧ (f'.entries.map (·.unnumbered)).Perm
      ((l.filter (·.ref.table == id)).map (·.unnumbered)) := by
  have new : ∀ e ∈ l, ∀ f, t.flowTable? e.ref.table = some f → ∀ x ∈ f.entries, e.differs x := by
    intro e _ f here x inside
    rw [entries_of_none none here] at inside
    cases inside
  obtain ⟨sorted, f, here, all⟩ := filled.perm (ordered_of_none none) new distinct found
  rw [entries_of_none none here, List.map_nil, List.append_nil] at all
  exact ⟨sorted, all⟩

/-- Whether no two entries of a table and of one priority select a packet. -/
def Untied (l : List FlowEntry) (table : TableId) (packet : Match) : Prop :=
  ∀ a ∈ l, ∀ b ∈ l, a.ref.table = table → b.ref.table = table → a.priority = b.priority →
    a.selector.covers packet = true → b.selector.covers packet = true → a = b

theorem Filled.classify_congr {u u' : Tables} {l l' : List FlowEntry} (filled : Filled t l t')
    (filled' : Filled u l' u') (none : t.entries = []) (none' : u.entries = []) (same : l.Perm l')
    (distinct : Distinct l) {table : TableId} {packet : Match} (untied : Untied l table packet) :
    (t'.classify table packet).1.map (·.unnumbered)
      = (u'.classify table packet).1.map (·.unnumbered) := by
  have distinct' : Distinct l' := distinct.perm same fun apart table =>
    FlowEntry.differs_symm (apart table.symm)
  simp only [classify]
  by_cases inside : table.toNat < TableId.count
  · obtain ⟨f, found⟩ : ∃ f, t'.flowTable? table = some f := ⟨_, Vector.getElem?_eq_getElem inside⟩
    obtain ⟨g, found'⟩ : ∃ g, u'.flowTable? table = some g := ⟨_, Vector.getElem?_eq_getElem inside⟩
    obtain ⟨ordered, all⟩ := filled.perm_of_none none distinct found
    obtain ⟨ordered', all'⟩ := filled'.perm_of_none none' distinct' found'
    rw [found, found', Option.bind_some, Option.bind_some]
    refine ordered.find?_congr ordered' ?_ ?_
    · exact all.trans (((same.filter _).map _).trans all'.symm)
    · intro a left b right level chosen chosen'
      obtain ⟨x, held, rfl⟩ := List.mem_map.mp (all.mem_iff.mp left)
      obtain ⟨y, held', rfl⟩ := List.mem_map.mp (all.mem_iff.mp right)
      obtain ⟨among, here⟩ := List.mem_filter.mp held
      obtain ⟨among', here'⟩ := List.mem_filter.mp held'
      rw [beq_iff_eq] at here here'
      rw [untied x among y among' here here' level chosen chosen']
  · have missing (v : Tables) : v.flowTable? table = Option.none :=
      Vector.getElem?_eq_none (Nat.le_of_not_lt inside)
    rw [missing, missing]

/-- A packet that tables are asked about follows an entry of highest priority among those that
select it, and the entry for missed packets only if no other selects it; the look counts in its
table and changes nothing else. Which entry that is does not depend on the order in which entries
were added to empty tables, if none of these was added in vain, no two are alike, and no two of
one priority select the packet. -/
theorem classify_highest (capacity : Nat) (cs : List Command) :
    (∀ table packet, let t := (empty capacity).run cs
      let hit := (t.classify table packet).1
      let t' := (t.classify table packet).2
      (∀ f, t.flowTable? table = some f →
        (hit = Option.none ↔ ∀ e ∈ f.entries, e.selector.covers packet = false) ∧
        (∀ e, hit = some e → e.Leading packet f.entries) ∧
        t'.flowTable? table = some { f with
          lookups := f.lookups + 1, matched := f.matched + if hit.isSome then 1 else 0 }) ∧
      (t.flowTable? table = Option.none → hit = Option.none) ∧
      (∀ id, id ≠ table → t'.flowTable? id = t.flowTable? id) ∧
      t'.groups = t.groups ∧ t'.meters = t.meters ∧ t'.newestEntry = t.newestEntry) ∧
    (∀ t t' u u' l l', t.entries = [] → u.entries = [] → Filled t l t' → Filled u l' u' →
      l.Perm l' → Distinct l → ∀ table packet, Untied l table packet →
        (t'.classify table packet).1.map (·.unnumbered)
          = (u'.classify table packet).1.map (·.unnumbered)) := by
  refine ⟨fun table packet => ?_, ?_⟩
  · have ordered := run_ordered capacity cs
    generalize (empty capacity).run cs = t at *
    refine ⟨fun f found => ?_, fun missing => ?_, fun id other => ?_, ?_, ?_, ?_⟩
    · have asked : (t.classify table packet).1 = f.classify? packet := by
        simp [classify, found]
      refine ⟨?_, fun e hit => (ordered table f found).leading (asked.symm.trans hit), ?_⟩
      · simp only [asked, FlowTable.classify?, List.find?_eq_none, Bool.not_eq_true]
      · simp only [classify, flowTable?_modifyFlow, found, Option.bind_some]
        cases f.classify? packet <;> rfl
    · simp [classify, missing]
    · simp only [classify, flowTable?_modifyFlow, if_neg other]
    · exact groups_modifyFlow ..
    · exact meters_modifyFlow ..
    · exact newestEntry_modifyFlow ..
  · intro t t' u u' l l' none none' filled filled' same distinct table packet untied
    exact filled.classify_congr filled' none none' same distinct untied

theorem Filled.run_nil (hasPort : PortNo → Bool) :
    Filled t [] (t.run (([] : List FlowEntry).map (.add · hasPort))) := .none

/-- Adding entries one by one, where the next one is not refused. -/
theorem Filled.run_cons {e : FlowEntry} {hasPort : PortNo → Bool} {l : List FlowEntry}
    (done : (t.add e hasPort).isOk = true)
    (rest : Filled (t.step (.add e hasPort)) l
      ((t.step (.add e hasPort)).run (l.map (.add · hasPort)))) :
    Filled t (e :: l) (t.run ((e :: l).map (.add · hasPort))) := by
  cases added : t.add e hasPort with
  | error err =>
    rw [added] at done
    cases done
  | ok answer =>
    have reached : t.step (.add e hasPort) = answer.2 := by
      simp only [Tables.step, added]
      rfl
    exact .add added (reached ▸ rest)

/-- An entry for what comes in at a port. -/
def portEntry (priority : UInt16) (port : BitVec 32) : FlowEntry :=
  { idleEntry priority with selector := Match.any.set .inPort (.exact port) }

/-- Entries for two ports at one priority, one of a lower priority, and one for missed packets. -/
def fourEntries : List FlowEntry :=
  [idleEntry 0, portEntry 10 1, portEntry 10 2, portEntry 5 2]

/-- Tables to which entries were added. -/
def withEntries (l : List FlowEntry) : Tables := (empty 4).run (l.map (.add · fun _ => false))

/-- A packet that came in at port 2. -/
def fromPortTwo : Match := Match.any.set .inPort (.exact 2)

theorem classify_highest_fourEntries :
    (empty 4).entries = [] ∧ Filled (empty 4) fourEntries (withEntries fourEntries) ∧
      Filled (empty 4) fourEntries.reverse (withEntries fourEntries.reverse) ∧
      fourEntries.Perm fourEntries.reverse ∧ Distinct fourEntries ∧
      Untied fourEntries 0 fromPortTwo ∧
      ((withEntries fourEntries).classify 0 fromPortTwo).1.map (·.unnumbered)
        = ((withEntries fourEntries.reverse).classify 0 fromPortTwo).1.map (·.unnumbered) ∧
      ∃ f e, (withEntries fourEntries).flowTable? 0 = some f ∧
        ((withEntries fourEntries).classify 0 fromPortTwo).1 = some e ∧
        e.Leading fromPortTwo f.entries := by
  have none : (empty 4).entries = [] := by simp [entries, empty]
  have filled : Filled (empty 4) fourEntries (withEntries fourEntries) := by
    refine .run_cons ?_ (.run_cons ?_ (.run_cons ?_ (.run_cons ?_ (.run_nil _))))
    all_goals decide +kernel
  have filled' : Filled (empty 4) fourEntries.reverse (withEntries fourEntries.reverse) := by
    refine .run_cons ?_ (.run_cons ?_ (.run_cons ?_ (.run_cons ?_ (.run_nil _))))
    all_goals decide +kernel
  have same : fourEntries.Perm fourEntries.reverse := fourEntries.reverse_perm.symm
  have distinct : Distinct fourEntries := by
    unfold Distinct FlowEntry.differs
    decide +kernel
  have untied : Untied fourEntries 0 fromPortTwo := by
    unfold Untied
    decide +kernel
  have hit : ((withEntries fourEntries).classify 0 fromPortTwo).1.isSome = true := by decide +kernel
  obtain ⟨e, hit⟩ := Option.isSome_iff_exists.mp hit
  obtain ⟨f, found, -⟩ := mem_entries_of_classify hit
  have highest := classify_highest 4 (fourEntries.map (.add · fun _ => false))
  exact ⟨none, filled, filled', same, distinct, untied,
    highest.2 _ _ _ _ _ _ none none filled filled' same distinct 0 fromPortTwo untied,
    f, e, found, hit, ((highest.1 0 fromPortTwo).1 f found).2.1 e hit⟩

end Tables

end FlowSwitch
