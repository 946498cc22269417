import FlowSwitch.Proofs.Tables.Carried

/-!
# Entries lead onward

An entry that sends packets on to another table names a later one that is there. This is
checked before an entry gets its instructions, and nothing else gives it any.
-/

namespace FlowSwitch

/-- Whether instructions lead from a table to later ones only. -/
def InstructionSet.Onward (id : TableId) (s : InstructionSet) : Prop :=
  ∀ next, s.gotoTable = some next → id < next ∧ next ≤ TableId.last

theorem InstructionSet.onward_of_validate {s : InstructionSet} {id : TableId} {writable : UInt64}
    {known : Known} (valid : s.validate id writable known = .ok ()) : s.Onward id :=
  (accepted_of_validate valid).onward

/-- Whether the entries of a table lead to later ones only. -/
def FlowTable.Onward (id : TableId) (t : FlowTable) : Prop :=
  ∀ e ∈ t.entries, e.instructions.Onward id

namespace Tables

/-- Whether all entries lead to later tables only. -/
abbrev Onward (t : Tables) : Prop := t.Each FlowTable.Onward

theorem Onward.of_settled {t t' : Tables} (same : t'.settled = t.settled) (onward : t.Onward) :
    t'.Onward := Carries.of_settled same onward

/-- Whatever commands were carried out or refused, every entry leads to later tables only. -/
theorem onward_run (capacity : Nat) (cs : List Command) : ((empty capacity).run cs).Onward :=
  carries_run InstructionSet.onward_of_validate capacity cs

end Tables

end FlowSwitch
