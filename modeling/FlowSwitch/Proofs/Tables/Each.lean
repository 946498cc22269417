import FlowSwitch.Proofs.Tables.Moves

/-!
# What moves keep of each flow table

The moves take in an entry, put one in for another or give one up, in one table each, or
leave alone what tables hold but for counters and instructions. A property of single
tables that these keep is one that every chain of moves keeps.
-/

namespace FlowSwitch

/-- An entry without its instructions and counters. -/
def FlowEntry.outline (e : FlowEntry) : FlowEntry := { e.settled with instructions := {} }

/-- A flow table without the instructions and counters of its entries. -/
def FlowTable.outline (t : FlowTable) : FlowTable :=
  { t.settled with entries := t.entries.map (·.outline) }

theorem FlowTable.outline_settled (t : FlowTable) : t.settled.outline = t.outline := by
  simp [outline, settled, Function.comp_def, FlowEntry.outline, FlowEntry.settled]

namespace Tables

theorem flowTable?_empty {capacity : Nat} {id : TableId} {f : FlowTable}
    (found : (empty capacity).flowTable? id = some f) : f = { capacity } := by
  obtain ⟨inside, here⟩ := Vector.getElem?_eq_some_iff.mp found
  simpa [empty] using here.symm

/-- What holds of every flow table and its number. -/
def Each (P : TableId → FlowTable → Prop) (t : Tables) : Prop :=
  ∀ id f, t.flowTable? id = some f → P id f

/-- The flow tables without the instructions and counters of their entries. -/
def outlines (t : Tables) : Vector FlowTable TableId.count := t.flow.map (·.outline)

theorem outlines_of_settled {t t' : Tables} (same : t'.settled = t.settled) :
    t'.outlines = t.outlines := by
  have flow : t'.settled.flow = t.settled.flow := by rw [same]
  have shown := congrArg (Vector.map (·.outline)) flow
  simpa [settled, outlines, Vector.map_map, Function.comp_def, FlowTable.outline_settled]
    using shown

theorem outlines_instruct (t : Tables) (ref : EntryRef) (s : InstructionSet) (reset : Bool) :
    (t.instruct ref s reset).outlines = t.outlines := by
  obtain ⟨-, same⟩ | ⟨old, -, same⟩ := t.instruct_cases ref s reset
  · rw [same]
  · rw [same]
    refine t.map_modifyFlow ref.table fun f _ => ?_
    have entries := f.map_modify ref.id
      (fun e => { e with instructions := s, counter := if reset then {} else e.counter })
      (·.outline) fun _ => rfl
    simp only [FlowTable.outline, entries]
    rfl

/-- What the moves keep of a single table. An entry is taken in only into tables of `bound`. -/
structure Kept (bound : FlowTable → Prop) (P : TableId → FlowTable → Prop) : Prop where
  outline : ∀ {id f f'}, f'.outline = f.outline → P id f → P id f'
  enroll : ∀ {id f} {e : FlowEntry}, e.ref.table = id → f.entries.find? e.isIdentical = none →
    f.isFull = false → e.Clear f.entries → bound (f.enroll e) → P id f → P id (f.enroll e)
  replace : ∀ {id f} {e old : FlowEntry}, e.ref.table = id →
    f.entries.find? e.isIdentical = some old → e.Clear f.entries → P id f → P id (f.replace e)
  release : ∀ {id f number e}, f.find? number = some e → P id f → P id (f.release number)

variable {may : MeterId → Prop} {bound : FlowTable → Prop} {P : TableId → FlowTable → Prop}
  {t t' : Tables}

theorem each_of_mem {P : FlowTable → Prop} (held : ∀ f ∈ t.flow.toList, P f) :
    t.Each fun _ f => P f := by
  intro id f found
  exact held f (Vector.mem_toList_iff.mpr (Vector.mem_of_getElem? found))

theorem Each.of_flow (flow : t'.flow = t.flow) (each : t.Each P) : t'.Each P := by
  intro id f found
  refine each id f ?_
  rwa [flowTable?, ← flow]

theorem Each.of_outlines (kept : Kept bound P) (same : t'.outlines = t.outlines)
    (each : t.Each P) : t'.Each P := by
  intro id f' found
  have here : (t.flowTable? id).map (·.outline) = some f'.outline := by
    have whole := congrArg (·[id.toNat]?) same
    simp only [outlines, Vector.getElem?_map] at whole
    exact whole.symm.trans (congrArg (Option.map (·.outline)) found)
  obtain ⟨f, table, outline⟩ := Option.map_eq_some_iff.mp here
  exact kept.outline outline.symm (each id f table)

theorem Each.modifyFlow {id : TableId} {f : FlowTable} (each : t.Each P)
    (change : FlowTable → FlowTable) (found : t.flowTable? id = some f)
    (changed : P id (change f)) : (t.modifyFlow id change).Each P := by
  intro other f' here
  rw [flowTable?_modifyFlow] at here
  by_cases same : other = id
  · subst same
    rw [if_pos rfl, found] at here
    exact Option.some.inj here ▸ changed
  · rw [if_neg same] at here
    exact each other f' here

theorem Each.erase (kept : Kept bound P) (each : t.Each P) (ref : EntryRef)
    (reason : RemovalReason) (now : Time) : (t.erase ref reason now).2.Each P := by
  rcases t.erase_cases ref reason now with ⟨-, none⟩ | ⟨e, found, one⟩
  · rwa [none]
  · obtain ⟨f, table, inside⟩ := Option.bind_eq_some_iff.mp found
    have released := each.modifyFlow (·.release ref.id) table
      (kept.release inside (each _ f table))
    rw [one]
    exact released.of_flow rfl

theorem Each.remove (kept : Kept bound P) (each : t.Each P) (now : Time)
    (refs : List (EntryRef × RemovalReason)) : (t.remove now refs).2.Each P :=
  remove_keeps (fun _ ref reason now each => each.erase kept ref reason now) each now refs

theorem Move.each {l : List Tables} {n : Nat} (move : Move may t l n t') (kept : Kept bound P)
    (bounded : ∀ m ∈ l, m.Each fun _ f => bound f) (each : t.Each P) : t'.Each P := by
  cases move with
  | settle same => exact each.of_outlines kept (outlines_of_settled same)
  | instruct => exact each.of_outlines kept (outlines_instruct ..)
  | @enroll f e found alone room clear number known =>
    have table : (t.enroll e).flowTable? e.ref.table = some (f.enroll e) := by
      have changed := flowTable?_modifyFlow { t with newestEntry := e.ref.id } e.ref.table
        e.ref.table (·.enroll e)
      rw [if_pos rfl] at changed
      exact changed.trans (congrArg (Option.map (·.enroll e)) found)
    have small := bounded _ List.mem_cons_self e.ref.table _ table
    have begun : { t with newestEntry := e.ref.id : Tables }.Each P := each.of_flow rfl
    have taken := begun.modifyFlow (·.enroll e) found
      (kept.enroll rfl alone room clear small (each _ f found))
    exact taken.of_flow rfl
  | @exchange f old e found identical clear number known =>
    have put := each.modifyFlow (·.replace e) found
      (kept.replace rfl identical clear (each _ f found))
    exact put.of_flow rfl
  | remove => exact each.remove kept _ _
  | @dropGroup id now =>
    have begun : { t with groups := t.groups.erase id : Tables }.Each P := each.of_flow rfl
    exact begun.remove kept _ _
  | addGroup | changeGroup | addMeter | changeMeter | dropMeters => exact each.of_flow rfl

theorem Moves.each {l : List Tables} {n : Nat} (moves : Moves may t l n t') (kept : Kept bound P)
    (bounded : ∀ m ∈ l, m.Each fun _ f => bound f) (each : t.Each P) : t'.Each P := by
  induction moves with
  | none => exact each
  | next _ move ih =>
    have earlier := ih (fun m inside => bounded m (List.mem_append_left _ inside))
    exact move.each kept (fun m inside => bounded m (List.mem_append_right _ inside)) earlier

end Tables

/-- Whether the entries of a table say that they are in it. -/
def FlowTable.Own (id : TableId) (t : FlowTable) : Prop := ∀ e ∈ t.entries, e.ref.table = id

namespace FlowTable

variable {id : TableId} {t t' : FlowTable}

theorem Own.of_subset (own : t.Own id) (part : t'.entries ⊆ t.entries) : t'.Own id := by
  intro e inside
  exact own e (part inside)

theorem Own.outline (same : t'.outline = t.outline) (own : t.Own id) : t'.Own id := by
  have entries : t'.entries.map (·.outline) = t.entries.map (·.outline) :=
    congrArg (·.entries) same
  intro e inside
  have shown : e.outline ∈ t.entries.map (·.outline) := entries ▸ List.mem_map_of_mem inside
  obtain ⟨old, among, same⟩ := List.mem_map.mp shown
  have ref : old.ref = e.ref := congrArg (·.ref) same
  exact ref ▸ own old among

theorem Own.insert {e : FlowEntry} (table : e.ref.table = id) (own : t.Own id) :
    (t.insert e).Own id := by
  intro x inside
  rcases List.mem_cons.mp ((t.insert_perm e).mem_iff.mp inside) with rfl | earlier
  · exact table
  · exact own x earlier

theorem Own.replace {e : FlowEntry} (table : e.ref.table = id) (own : t.Own id) :
    (t.replace e).Own id := by
  have left : FlowTable.Own id { t with entries := t.entries.eraseP e.isIdentical } :=
    own.of_subset List.eraseP_sublist.subset
  exact left.insert table

theorem Own.release {number : UInt64} (own : t.Own id) : (t.release number).Own id :=
  own.of_subset List.eraseP_sublist.subset

theorem own_empty (capacity : Nat) : (Tables.empty capacity).Each Own := by
  intro id f found
  rw [Tables.flowTable?_empty found]
  exact fun e inside => absurd inside List.not_mem_nil

theorem kept_own : Tables.Kept (fun _ => True) Own where
  outline := Own.outline
  enroll table _ _ _ _ own := own.insert table
  replace table _ _ own := own.replace table
  release _ own := own.release

end FlowTable

end FlowSwitch
