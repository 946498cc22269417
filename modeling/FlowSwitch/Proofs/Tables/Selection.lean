import FlowSwitch.Proofs.Tables.Removal

/-!
# What a filter selects

The entries that a filter without a priority selects are those of its tables that it passes,
in the order of the tables and of the entries in them. Asking for them changes no entry.
-/

namespace FlowSwitch

/-- Whether an entry of the tables of a filter passes the filter. -/
def FlowFilter.selects (f : FlowFilter) (e : FlowEntry) : Bool :=
  f.selector.covers e.selector && f.admits e

namespace Tables

variable {t t' : Tables}

/-- The entries of all tables are those of one table after the other. -/
theorem flatMap_entriesOf (t : Tables) : TableId.list.flatMap t.entriesOf = t.entries := by
  have each : TableId.list.map t.entriesOf = t.flow.toList.map (·.entries) := by
    refine List.ext_getElem (by simp [TableId.list]) fun i h h' => ?_
    have small : i < TableId.count := by simpa using h'
    have count : TableId.count = 255 := rfl
    have number : i.toUInt8.toNat = i := by
      rw [Nat.toUInt8_eq, UInt8.toNat_ofNat']
      omega
    have one : i.toUInt8 ≠ TableId.all := by
      intro same
      have equal := congrArg UInt8.toNat same
      rw [number] at equal
      have last : TableId.all.toNat = 255 := rfl
      omega
    simp [TableId.list, entriesOf, one, flowTable?, number, small]
  rw [List.flatMap_def, each, ← List.flatMap_def]
  rfl

/-- Asking for all entries that a match covers, table by table. Induction on the tables. -/
theorem fst_queryEach (t : Tables) (key : Match) (ids : List TableId) :
    (t.queryEach (.covered key) ids).1
      = (ids.flatMap t.entriesOf).filter fun e => key.covers e.selector := by
  induction ids generalizing t with
  | nil => rfl
  | cons id ids ih =>
    have same : (t.modifyFlow id (·.countLookup
        ((Query.covered key).answers (t.entriesOf id)).length)).entriesOf = t.entriesOf :=
      funext fun table => t.entriesOf_countLookup id table _
    simp only [queryEach, Query.isExact, Bool.false_and, Bool.false_eq_true, if_false]
    rw [ih, same, List.flatMap_cons, List.filter_append]
    rfl

theorem fst_select (t : Tables) (f : FlowFilter) :
    (t.select f none).1 = (t.entriesOf f.table).filter f.selects := by
  have asked : (t.query f.table (f.query none)).1
      = (t.entriesOf f.table).filter fun e => f.selector.covers e.selector := by
    simp only [query, FlowFilter.query, fst_queryEach]
    split
    · rename_i all
      rw [flatMap_entriesOf, all, entriesOf, if_pos rfl]
    · rw [List.flatMap_singleton]
  simp only [select, asked, List.filter_filter]
  congr 1
  funext e
  exact Bool.and_comm ..

theorem held?_countLookup (t : Tables) (id : TableId) (found : Nat) (table : TableId) :
    (t.modifyFlow id (·.countLookup found)).held? table = t.held? table := by
  simp only [held?, flowTable?_modifyFlow]
  split
  · cases t.flowTable? table <;> rfl
  · rfl

/-- Asking leaves the entries alone. Induction on the tables. -/
theorem held?_queryEach (t : Tables) (q : Query) (ids : List TableId) (table : TableId) :
    (t.queryEach q ids).2.held? table = t.held? table := by
  induction ids generalizing t with
  | nil => rfl
  | cons id ids ih =>
    simp only [queryEach]
    split
    · exact t.held?_countLookup id _ table
    · rw [ih, held?_countLookup]

theorem held?_select (t : Tables) (f : FlowFilter) (priority : Option UInt16) (table : TableId) :
    (t.select f priority).2.held? table = t.held? table := t.held?_queryEach _ _ table

theorem entriesOf_of_held (same : ∀ id, t'.held? id = t.held? id) (table : TableId) :
    t'.entriesOf table = t.entriesOf table := by
  have one (id : TableId) : ((t'.flowTable? id).map (·.entries)).getD []
      = ((t.flowTable? id).map (·.entries)).getD [] := congrArg (·.getD []) (same id)
  have whole : t'.entries = t.entries := by
    rw [← flatMap_entriesOf, ← flatMap_entriesOf]
    have each : ∀ id ∈ TableId.list, t'.entriesOf id = t.entriesOf id := by
      intro id listed
      have below : id ≠ TableId.all := by
        rintro rfl
        exact absurd listed (by decide)
      simp only [entriesOf, if_neg below]
      exact one id
    rw [List.flatMap_def, List.flatMap_def, List.map_congr_left each]
  unfold entriesOf
  rw [whole, one]

end Tables

end FlowSwitch
