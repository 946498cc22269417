import FlowSwitch.Proofs.Tables.Each

/-!
# What all entries carry

Instructions are checked before an entry gets them, and nothing else gives it any. So what follows
from the check of some instructions for a table holds of the instructions of every entry of that
table, whatever was done.
-/

namespace FlowSwitch

/-- Whether the instructions of all entries of a table have a property. -/
def FlowTable.Carries (P : TableId → InstructionSet → Prop) (id : TableId) (t : FlowTable) : Prop :=
  ∀ e ∈ t.entries, P id e.instructions

variable {P : TableId → InstructionSet → Prop}

namespace FlowTable

variable {id : TableId} {t t' : FlowTable}

theorem Carries.of_subset (carries : t.Carries P id) (part : t'.entries ⊆ t.entries) :
    t'.Carries P id := by
  intro e inside
  exact carries e (part inside)

theorem Carries.insert {e : FlowEntry} (carries : t.Carries P id) (new : P id e.instructions) :
    (t.insert e).Carries P id := by
  intro x inside
  rcases List.mem_cons.mp ((t.insert_perm e).mem_iff.mp inside) with rfl | earlier
  · exact new
  · exact carries x earlier

theorem Carries.replace {e : FlowEntry} (carries : t.Carries P id) (new : P id e.instructions) :
    (t.replace e).Carries P id := by
  have left : FlowTable.Carries P id { t with entries := t.entries.eraseP e.isIdentical } :=
    carries.of_subset List.eraseP_sublist.subset
  exact left.insert new

theorem Carries.release {number : UInt64} (carries : t.Carries P id) :
    (t.release number).Carries P id := carries.of_subset List.eraseP_sublist.subset

theorem Carries.modify {number : UInt64} {change : FlowEntry → FlowEntry}
    (carries : t.Carries P id) (new : ∀ e, P id (change e).instructions) :
    (t.modify number change).Carries P id := by
  intro e inside
  obtain ⟨i, here⟩ := List.mem_iff_getElem?.mp inside
  simp only [FlowTable.modify, List.getElem?_modify] at here
  obtain ⟨e₀, found, rfl⟩ := Option.map_eq_some_iff.mp here
  split
  · exact new e₀
  · exact carries e₀ (List.mem_of_getElem? found)

theorem carries_settled : t.settled.Carries P id ↔ t.Carries P id := by
  simp [Carries, settled, FlowEntry.settled]

end FlowTable

namespace Tables

/-- Whether the instructions of all entries have a property for their tables. -/
abbrev Carries (P : TableId → InstructionSet → Prop) (t : Tables) : Prop :=
  t.Each (FlowTable.Carries P)

variable {may : MeterId → Prop} {t t' : Tables}

theorem Carries.of_settled (same : t'.settled = t.settled) (carries : t.Carries P) :
    t'.Carries P := by
  intro id f' found
  have here : (t.flowTable? id).map (·.settled) = some f'.settled := by
    have whole := congrArg (·.flow[id.toNat]?) same
    simp only [settled, Vector.getElem?_map] at whole
    exact whole.symm.trans (congrArg (Option.map (·.settled)) found)
  obtain ⟨f, table, equal⟩ := Option.map_eq_some_iff.mp here
  exact FlowTable.carries_settled.mp (equal ▸ FlowTable.carries_settled.mpr (carries id f table))

theorem Carries.erase (carries : t.Carries P) (ref : EntryRef) (reason : RemovalReason)
    (now : Time) : (t.erase ref reason now).2.Carries P := by
  rcases t.erase_cases ref reason now with ⟨-, none⟩ | ⟨e, found, one⟩
  · rwa [none]
  · obtain ⟨f, table, -⟩ := Option.bind_eq_some_iff.mp found
    have released := Each.modifyFlow carries (·.release ref.id) table (carries _ f table).release
    rw [one]
    exact released.of_flow rfl

theorem Carries.remove (carries : t.Carries P) (now : Time)
    (refs : List (EntryRef × RemovalReason)) : (t.remove now refs).2.Carries P :=
  remove_keeps (P := Carries P) (fun _ ref reason now carries => carries.erase ref reason now)
    carries now refs

/-- A move that makes no tables gives no entry instructions. -/
theorem Move.carries {n : Nat} (move : Move may t [] n t') (carries : t.Carries P) :
    t'.Carries P := by
  cases move with
  | settle same => exact carries.of_settled same
  | remove => exact carries.remove _ _
  | @dropGroup id now =>
    have begun : { t with groups := t.groups.erase id : Tables }.Carries P := carries.of_flow rfl
    exact begun.remove _ _
  | addGroup | changeGroup | addMeter | changeMeter | dropMeters => exact carries.of_flow rfl

theorem Moves.carries {l : List Tables} {n : Nat} (moves : Moves may t l n t') (quiet : l = [])
    (carries : t.Carries P) : t'.Carries P := by
  induction moves with
  | none => exact carries
  | next _ move ih =>
    obtain ⟨earlier, last⟩ := List.append_eq_nil_iff.mp quiet
    subst last
    exact move.carries (ih earlier)

theorem Carries.exchange {f : FlowTable} {old e : FlowEntry} (carries : t.Carries P)
    (found : t.flowTable? e.ref.table = some f) (new : P e.ref.table e.instructions) :
    (t.exchange old e).Carries P := by
  have put := Each.modifyFlow carries (·.replace e) found ((carries _ f found).replace new)
  exact put.of_flow rfl

theorem Carries.enroll {f : FlowTable} {e : FlowEntry} (carries : t.Carries P)
    (found : t.flowTable? e.ref.table = some f) (new : P e.ref.table e.instructions) :
    (t.enroll e).Carries P := by
  have begun : { t with newestEntry := e.ref.id : Tables }.Carries P := carries.of_flow rfl
  have taken := Each.modifyFlow begun (·.enroll e) found ((carries _ f found).insert new)
  exact taken.of_flow rfl

theorem Carries.instruct {ref : EntryRef} {s : InstructionSet} {reset : Bool}
    (carries : t.Carries P) (new : P ref.table s) : (t.instruct ref s reset).Carries P := by
  obtain ⟨-, same⟩ | ⟨old, found, same⟩ := t.instruct_cases ref s reset
  · rwa [same]
  · rw [same]
    obtain ⟨f, table, -⟩ := Option.bind_eq_some_iff.mp found
    have changed := Each.modifyFlow carries
      (·.modify ref.id fun e =>
        { e with instructions := s, counter := if reset then {} else e.counter })
      table ((carries _ f table).modify fun _ => new)
    exact changed.of_flow rfl

theorem Carries.select (carries : t.Carries P) (f : FlowFilter) (priority : Option UInt16) :
    (t.select f priority).2.Carries P := carries.of_settled (t.settled_select f priority)

section Checked

variable (checked : ∀ {s : InstructionSet} {id : TableId} {writable : UInt64} {known : Known},
  s.validate id writable known = .ok () → P id s)

include checked

theorem Carries.add {e : FlowEntry} {hasPort : PortNo → Bool} {ref : EntryRef}
    (carries : t.Carries P) (added : t.add e hasPort = .ok (ref, t')) : t'.Carries P := by
  obtain ⟨f, found, passed, ⟨old, counter, same, rfl⟩ | ⟨alone, room, rfl⟩⟩ := add_cases added
  · exact carries.exchange found (checked (valid_of_check passed))
  · exact carries.enroll found (checked (valid_of_check passed))

/-- Induction on the entries that get the instructions. -/
theorem Carries.instructAll {selected : List FlowEntry} {s : InstructionSet} {reset : Bool}
    {hasPort : PortNo → Bool} (carries : t.Carries P)
    (instructed : t.instructAll selected s reset hasPort = .ok t') : t'.Carries P := by
  obtain ⟨_, valid, done⟩ := bind_eq_ok.mp instructed
  obtain rfl := Except.ok.inj done
  have each : ∀ e ∈ selected, P e.ref.table s := fun e inside =>
    checked (forM_eq_ok valid e inside)
  clear instructed valid done
  induction selected generalizing t with
  | nil => exact carries
  | cons e selected ih =>
    exact ih (carries.instruct (each e (by simp))) fun x inside => each x (by simp [inside])

theorem Carries.step (carries : t.Carries P) (c : Command) : (t.step c).Carries P := by
  cases quiet : c.isQuiet with
  | true =>
    have moves : Moves (fun _ => True) t [] 0 (t.step c) := t.quiet_moves quiet fun _ _ => trivial
    exact moves.carries rfl carries
  | false =>
    cases c with
    | add e hasPort =>
      cases added : t.add e hasPort with
      | error err =>
        simp only [Tables.step, added]
        exact carries
      | ok answer =>
        simp only [Tables.step, added]
        exact carries.add checked added
    | update f priority s flags hasPort =>
      have asked := carries.select f priority
      rw [Tables.step]
      obtain ⟨err, refused⟩ | ⟨t', given, done⟩ := t.update_cases f priority s flags hasPort
      · exact refused ▸ asked
      · exact done ▸ asked.instructAll checked given
    | updateOrAdd e cookieMask strict hasPort =>
      rw [Tables.step]
      obtain refused | ⟨f, priority, -, ended⟩ := t.updateOrAdd_cases e cookieMask strict hasPort
      · exact refused ▸ carries
      have asked := carries.select f priority
      obtain ⟨err, refused⟩ | ⟨ref, t', added, done⟩ | ⟨t', given, done⟩ := ended
      · exact refused ▸ asked
      · exact done ▸ asked.add checked added
      · exact done ▸ asked.instructAll checked given
    | _ => cases quiet

/-- Whatever commands were carried out or refused, the instructions of every entry are such as pass
the check. -/
theorem carries_run (capacity : Nat) (cs : List Command) : ((empty capacity).run cs).Carries P := by
  have start : (empty capacity).Carries P := by
    intro id f found
    rw [flowTable?_empty found]
    exact fun e inside => absurd inside List.not_mem_nil
  generalize empty capacity = t at start
  induction cs generalizing t with
  | nil => exact start
  | cons c cs ih => exact ih (t.step c) (start.step checked c)

end Checked

end Tables

end FlowSwitch
