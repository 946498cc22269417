import FlowSwitch.Flow.Instruction

/-!
# What valid instructions refer to

Instructions that were found valid name groups that are known, lead on to later tables, and name
an ordinary meter if any.
-/

namespace FlowSwitch

theorem bind_eq_ok {ε α β : Type} {x : Except ε α} {f : α → Except ε β} {b : β} :
    x >>= f = .ok b ↔ ∃ a, x = .ok a ∧ f a = .ok b := by
  cases x with
  | error e => exact ⟨nofun, nofun⟩
  | ok a => exact ⟨fun h => ⟨a, rfl, h⟩, fun ⟨_, same, h⟩ => by cases same; exact h⟩

theorem map_eq_ok {ε α β : Type} {x : Except ε α} {f : α → β} {b : β} :
    x.map f = .ok b ↔ ∃ a, x = .ok a ∧ f a = b := by
  cases x with
  | error e => exact ⟨nofun, nofun⟩
  | ok a =>
    refine ⟨fun h => ⟨a, rfl, Except.ok.inj h⟩, ?_⟩
    rintro ⟨_, same, h⟩
    cases same
    exact congrArg _ h

theorem forM_eq_ok {ε α : Type} {f : α → Except ε Unit} {l : List α} (done : l.forM f = .ok ()) :
    ∀ a ∈ l, f a = .ok () := by
  induction l with
  | nil => simp
  | cons a l ih =>
    have done : (do f a; l.forM f) = .ok () := done
    obtain ⟨_, first, rest⟩ := bind_eq_ok.mp done
    exact List.forall_mem_cons.mpr ⟨first, ih rest⟩

theorem optionForM_eq_ok {ε α : Type} {f : α → Except ε Unit} {o : Option α}
    (done : o.forM f = .ok ()) : ∀ a, o = some a → f a = .ok () := by
  rintro a rfl
  exact done

theorem refusal_eq_ok {ε : Type} {c : Prop} [Decidable c] {e : ε} :
    (if c then throw e else pure () : Except ε Unit) = .ok () ↔ ¬ c := by
  by_cases holds : c
  · rw [if_pos holds]
    exact iff_of_false (fun done => by cases done) (not_not_intro holds)
  · rw [if_neg holds]
    exact iff_of_true rfl holds

namespace ActionList

theorem hasGroup_of_validate {l : ActionList} {known : Known} (valid : l.validate known = .ok ()) :
    ∀ g ∈ l.groups, known.hasGroup g = true := by
  intro g named
  obtain ⟨a, inside, group⟩ := List.mem_filterMap.mp named
  have checked : a.validate known = .ok () := forM_eq_ok valid a inside
  cases a with
  | group id =>
    obtain rfl : id = g := Option.some.inj group
    simp only [Action.validate] at checked
    split at checked
    · assumption
    · cases checked
  | _ => cases group

end ActionList

namespace InstructionSet

variable {s : InstructionSet} {table : TableId} {writable : UInt64} {known : Known}

/-- Everything that the check of instructions for a table establishes. -/
structure Accepted (s : InstructionSet) (table : TableId) (writable : UInt64) (known : Known) :
    Prop where
  onward : ∀ next, s.gotoTable = some next → table < next ∧ next ≤ TableId.last
  metadata : ∀ w, s.writeMetadata = some w →
    w.value &&& writable = w.value ∧ w.mask &&& writable = w.mask
  write : ∀ l, s.writeActions = some l → l.validate known = .ok () ∧ l.validateSet = .ok ()
  apply : ∀ l, s.applyActions = some l → l.validate known = .ok ()
  clear : ∀ l, s.clearActions = some l → l.isEmpty = true
  meter : ∀ id, s.meter = some id → id ≠ 0 ∧ id ≤ MeterId.last

theorem accepted_of_validate (valid : s.validate table writable known = .ok ()) :
    s.Accepted table writable known := by
  unfold validate at valid
  obtain ⟨_, onward, valid⟩ := bind_eq_ok.mp valid
  obtain ⟨_, metadata, valid⟩ := bind_eq_ok.mp valid
  obtain ⟨_, write, valid⟩ := bind_eq_ok.mp valid
  obtain ⟨_, apply_, valid⟩ := bind_eq_ok.mp valid
  obtain ⟨_, clear, meter⟩ := bind_eq_ok.mp valid
  constructor
  · intro next named
    have passed := refusal_eq_ok.mp (optionForM_eq_ok onward next named)
    simpa [and_comm] using passed
  · intro w named
    have checked := optionForM_eq_ok metadata w named
    dsimp only at checked
    split at checked
    · cases checked
    · rename_i value
      have mask := refusal_eq_ok.mp checked
      exact ⟨by simpa using value, by simpa using mask⟩
  · intro l named
    obtain ⟨_, each, set⟩ := bind_eq_ok.mp (optionForM_eq_ok write l named)
    exact ⟨each, set⟩
  · exact optionForM_eq_ok apply_
  · intro l named
    simpa using refusal_eq_ok.mp (optionForM_eq_ok clear l named)
  · intro id named
    simpa using refusal_eq_ok.mp (optionForM_eq_ok meter id named)

theorem hasGroup_of_validate (valid : s.validate table writable known = .ok ()) :
    ∀ g ∈ s.groups, known.hasGroup g = true := by
  have accepted := accepted_of_validate valid
  intro g named
  simp only [groups, actionLists, List.mem_flatMap, List.mem_append, Option.mem_toList] at named
  obtain ⟨l, written | applied, here⟩ := named
  · exact ActionList.hasGroup_of_validate (accepted.write l written).1 g here
  · exact ActionList.hasGroup_of_validate (accepted.apply l applied) g here

end InstructionSet

end FlowSwitch
