import FlowSwitch.Flow.Table
import FlowSwitch.Proofs.Match.Same
import Mathlib.Data.List.TakeWhile

/-!
# The order of a flow table

The entries of a table stand by falling priority with the entry for missed packets last,
and no two of them have one priority and one match. Putting in an entry that is like no
other keeps both, and so does putting it in for the one that it is like.
-/

namespace FlowSwitch

namespace FlowEntry

theorem isIdentical_iff {a b : FlowEntry} :
    a.isIdentical b = true ↔ a.priority = b.priority ∧ a.selector.same b.selector = true := by
  simp [isIdentical]

theorem isIdentical_symm {a b : FlowEntry} (same : a.isIdentical b = true) :
    b.isIdentical a = true := by
  obtain ⟨priority, selector⟩ := isIdentical_iff.mp same
  exact isIdentical_iff.mpr ⟨priority.symm, Match.same_equivalence.symm selector⟩

theorem isIdentical_trans {a b c : FlowEntry} (first : a.isIdentical b = true)
    (second : b.isIdentical c = true) : a.isIdentical c = true := by
  obtain ⟨priority, selector⟩ := isIdentical_iff.mp first
  obtain ⟨priority', selector'⟩ := isIdentical_iff.mp second
  exact isIdentical_iff.mpr ⟨priority.trans priority',
    Match.same_equivalence.trans selector selector'⟩

/-- A table has only one entry for missed packets. -/
theorem isIdentical_of_isTableMiss {a b : FlowEntry} (left : a.isTableMiss = true)
    (right : b.isTableMiss = true) : a.isIdentical b = true := by
  simp only [isTableMiss, Bool.and_eq_true, beq_iff_eq, Match.isAny_iff] at left right
  refine isIdentical_iff.mpr ⟨left.1.trans right.1.symm, Match.same_iff.mpr fun f => ?_⟩
  exact Pattern.same_iff.mpr ⟨(left.2 f).trans (right.2 f).symm, fun valid =>
    absurd valid (by simp [left.2 f])⟩

/-- Whether `e` may stand before `other`: its priority is no lower, and it is not the entry for
missed packets if the two have one priority. -/
def leads (e other : FlowEntry) : Prop :=
  other.priority ≤ e.priority ∧ (other.priority = e.priority → e.isTableMiss = false)

/-- Whether two entries differ in priority or match. -/
def differs (e other : FlowEntry) : Prop := e.isIdentical other = false

theorem differs_symm {a b : FlowEntry} (differ : a.differs b) : b.differs a := by
  unfold differs at *
  cases same : b.isIdentical a with
  | false => rfl
  | true => rw [isIdentical_symm same] at differ; cases differ

theorem leads_of_precedes {e other : FlowEntry} (first : e.precedes other = true) :
    e.leads other := by
  simp only [precedes, Bool.or_eq_true, decide_eq_true_eq, Bool.and_eq_true, beq_iff_eq,
    Bool.not_eq_true'] at first
  rcases first with lower | ⟨⟨level, -⟩, hit⟩
  · exact ⟨UInt16.le_of_lt lower, fun level => absurd level (UInt16.ne_of_lt lower)⟩
  · exact ⟨level ▸ UInt16.le_refl _, fun _ => hit⟩

theorem leads_of_not_precedes {e other : FlowEntry} (differ : e.differs other)
    (later : e.precedes other = false) : other.leads e := by
  simp only [precedes, Bool.or_eq_false_iff, decide_eq_false_iff_not] at later
  obtain ⟨higher, level⟩ := later
  refine ⟨UInt16.not_lt.mp higher, fun same => ?_⟩
  cases miss : other.isTableMiss with
  | false => rfl
  | true =>
    have mine : e.isTableMiss = true := by simpa [same, miss] using level
    unfold differs at differ
    rw [isIdentical_of_isTableMiss mine miss] at differ
    cases differ

theorem leads_trans {a b c : FlowEntry} (first : a.leads b) (second : b.leads c) : a.leads c := by
  refine ⟨UInt16.le_trans second.1 first.1, fun same => ?_⟩
  have level : b.priority = a.priority :=
    UInt16.le_antisymm first.1 (same ▸ second.1)
  exact first.2 level

end FlowEntry

/-- Entries in the order of a table: no later one goes before an earlier one, and no two have one
priority and one match. -/
structure Ordered (l : List FlowEntry) : Prop where
  sorted : l.Pairwise FlowEntry.leads
  distinct : l.Pairwise FlowEntry.differs

theorem Ordered.sublist {l l' : List FlowEntry} (ordered : Ordered l) (part : l'.Sublist l) :
    Ordered l' := ⟨ordered.sorted.sublist part, ordered.distinct.sublist part⟩

namespace FlowTable

/-- An entry is put in behind all that it does not precede, before one that it precedes. -/
theorem split_insert (t : FlowTable) (e : FlowEntry) :
    ∃ before after, t.entries = before ++ after ∧ (t.insert e).entries = before ++ e :: after ∧
      (∀ x ∈ before, e.precedes x = false) ∧ ∀ x ∈ after.head?, e.precedes x = true := by
  refine ⟨t.entries.takeWhile (!e.precedes ·), t.entries.dropWhile (!e.precedes ·),
    List.takeWhile_append_dropWhile.symm, rfl, fun x inside => ?_, fun x first => ?_⟩
  · simpa using List.mem_takeWhile_imp inside
  · have stop := List.head?_dropWhile_not (!e.precedes ·) t.entries
    rw [Option.mem_def] at first
    simpa [first] using stop

theorem insert_ordered {t : FlowTable} {e : FlowEntry} (ordered : Ordered t.entries)
    (alone : ∀ x ∈ t.entries, e.differs x) : Ordered (t.insert e).entries := by
  obtain ⟨before, after, whole, done, late, early⟩ := t.split_insert e
  rw [whole] at ordered alone
  obtain ⟨left, right, across⟩ := List.pairwise_append.mp ordered.sorted
  have leadsAfter : ∀ y ∈ after, e.leads y := by
    cases after with
    | nil => simp
    | cons h rest =>
      have head : e.leads h := FlowEntry.leads_of_precedes (early h rfl)
      intro y inside
      rcases List.mem_cons.mp inside with rfl | later
      · exact head
      · exact FlowEntry.leads_trans head ((List.pairwise_cons.mp right).1 y later)
  have leadsBefore : ∀ x ∈ before, x.leads e := fun x inside =>
    FlowEntry.leads_of_not_precedes (alone x (List.mem_append_left _ inside)) (late x inside)
  rw [done]
  constructor
  · refine List.pairwise_append.mpr ⟨left, List.pairwise_cons.mpr ⟨leadsAfter, right⟩, ?_⟩
    intro x inside y among
    rcases List.mem_cons.mp among with rfl | later
    · exact leadsBefore x inside
    · exact across x inside y later
  · have differs : (e :: (before ++ after)).Pairwise FlowEntry.differs :=
      List.pairwise_cons.mpr ⟨alone, ordered.distinct⟩
    exact differs.perm List.perm_middle.symm FlowEntry.differs_symm

/-- The entry that another one is put in for, among those that stay. -/
theorem split_identical {t : FlowTable} {e old : FlowEntry}
    (identical : t.entries.find? e.isIdentical = some old) :
    ∃ before after, t.entries = before ++ old :: after ∧
      t.entries.eraseP e.isIdentical = before ++ after := by
  obtain ⟨same, before, after, whole, others⟩ := List.find?_eq_some_iff_append.mp identical
  have others : ∀ x ∈ before, ¬ e.isIdentical x = true := fun x h => by simpa using others x h
  refine ⟨before, after, whole, ?_⟩
  rw [whole, List.eraseP_append_right _ others, List.eraseP_cons_of_pos same]

theorem replace_perm (t : FlowTable) (e : FlowEntry) :
    (t.replace e).entries.Perm (e :: t.entries.eraseP e.isIdentical) := insert_perm _ e

theorem replace_ordered {t : FlowTable} {e old : FlowEntry} (ordered : Ordered t.entries)
    (identical : t.entries.find? e.isIdentical = some old) : Ordered (t.replace e).entries := by
  obtain ⟨before, after, whole, rest⟩ := split_identical identical
  refine insert_ordered (ordered.sublist List.eraseP_sublist) fun x inside => ?_
  -- What is identical to `e` is identical to the entry that gave way, and that was alone.
  have first : (old :: (before ++ after)).Pairwise FlowEntry.differs :=
    (whole ▸ ordered.distinct).perm List.perm_middle FlowEntry.differs_symm
  have apart : old.differs x := (List.pairwise_cons.mp first).1 x (rest ▸ inside)
  unfold FlowEntry.differs at *
  cases same : e.isIdentical x with
  | false => rfl
  | true =>
    have like := FlowEntry.isIdentical_symm (List.find?_some identical)
    rw [FlowEntry.isIdentical_trans like same] at apart
    cases apart

end FlowTable

end FlowSwitch
