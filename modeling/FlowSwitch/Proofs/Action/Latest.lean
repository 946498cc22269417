import FlowSwitch.Action.Set

/-!
# What a set of actions holds

Whatever was written to a set and however often it was cleared, it is told by the actions written
since it was cleared last. It holds the last one of each kind; the set-field actions are one, in
which a field has the last value that any of them gave to it. The set is carried out in one
order, whatever the order of writing.
-/

namespace FlowSwitch

/-- The value that a set-field action gives to a field. -/
def Action.sets? (f : Field) : Action → Option (Pattern f.width)
  | .setField fields => if (fields.get f).valid then some (fields.get f) else none
  | _ => none

namespace WrittenAction

/-- The last of the written actions that is of kind `k`. -/
def last? (written : List WrittenAction) (k : ActionKind) : Option WrittenAction :=
  written.reverse.find? (·.action.kind = k)

/-- The last value that one of the written actions gives to a field. -/
def lastValue? (written : List WrittenAction) (f : Field) : Option (Pattern f.width) :=
  written.reverse.findSome? (·.action.sets? f)

/-- Some action of kind `k` was written. -/
def isWritten (written : List WrittenAction) (k : ActionKind) : Bool :=
  written.any (·.action.kind = k)

/-- Actions of kind `k` are carried out: output only without a group. -/
def isDue (written : List WrittenAction) (k : ActionKind) : Bool :=
  isWritten written k && !(k == .output && isWritten written .group)

/-- The action is the last written one of its kind. A set-field action has the origin of the last
one, and each field the last value that was written for it. -/
structure Latest (w : WrittenAction) (written : List WrittenAction) : Prop where
  origin : (last? written w.action.kind).map (·.origin) = some w.origin
  whole : w.action.kind ≠ .setField → last? written w.action.kind = some w
  values : w.action.kind = .setField → ∀ f, w.action.sets? f = lastValue? written f

variable {written : List WrittenAction} {k : ActionKind} {f : Field}

theorem last?_concat (written : List WrittenAction) (w : WrittenAction) (k : ActionKind) :
    last? (written ++ [w]) k = if w.action.kind = k then some w else last? written k := by
  by_cases same : w.action.kind = k <;> simp [last?, same]

theorem lastValue?_concat (written : List WrittenAction) (w : WrittenAction) (f : Field) :
    lastValue? (written ++ [w]) f = (w.action.sets? f).or (lastValue? written f) := by
  cases given : w.action.sets? f <;> simp [lastValue?, given]

theorem isWritten_eq : isWritten written k = (last? written k).isSome := by
  rw [Bool.eq_iff_iff]
  simp [isWritten, last?]

end WrittenAction

namespace Action

variable {f : Field} {a : Action}

theorem sets?_of_other (other : a.kind ≠ .setField) : a.sets? f = none := by
  cases a with
  | setField fields => exact absurd rfl other
  | _ => rfl

theorem exists_setField (is : a.kind = .setField) : ∃ fields, a = .setField fields := by
  cases a with
  | setField fields => exact ⟨fields, rfl⟩
  | _ => cases is

/-- Fields that are merged into others come before them. -/
theorem sets?_merge (stored fields : Match) :
    (setField (stored.merge fields)).sets? f =
      ((setField fields).sets? f).or ((setField stored).sets? f) := by
  by_cases valid : (fields.get f).valid <;> simp [sets?, Match.merge, valid]

end Action

namespace ActionSet

open WrittenAction

/-- How the set of a packet changes on the way through the tables. -/
inductive Command
  | write (actions : ActionList) (origin : Option EntryRef)
  | clear

def step (s : ActionSet) : Command → Except SwitchError ActionSet
  | .write actions origin => s.write actions origin
  | .clear => .ok empty

def run (s : ActionSet) (history : List Command) : Except SwitchError ActionSet :=
  history.foldlM step s

/-- The actions that one more command leaves written. -/
def extend (written : List WrittenAction) : Command → List WrittenAction
  | .write actions origin => written ++ actions.actions.map fun a => ⟨a, origin⟩
  | .clear => []

/-- The actions written since the last time that the set was cleared. -/
def recent (history : List Command) : List WrittenAction := history.foldl extend []

/-- The set holds the latest of the written actions. -/
structure Gathers (s : ActionSet) (written : List WrittenAction) : Prop where
  kind : ∀ k w, s.get k = some w → w.action.kind = k
  isSome : ∀ k, (s.get k).isSome = isWritten written k
  latest : ∀ k w, s.get k = some w → w.Latest written

variable {s : ActionSet} {written : List WrittenAction} {origin : Option EntryRef}

theorem get_put (s : ActionSet) (w : WrittenAction) (k : ActionKind) :
    (s.put w).get k = if k = w.action.kind then some w else s.get k := rfl

theorem gathers_empty : empty.Gathers [] where
  kind k w held := by cases held
  isSome k := rfl
  latest k w held := by cases held

/-- Before a set-field action is written, no field has a value. -/
theorem Gathers.lastValue?_eq_none (gathers : s.Gathers written) (free : s.get .setField = none)
    (f : Field) : lastValue? written f = none := by
  have unwritten := gathers.isSome .setField
  rw [free] at unwritten
  have other : ∀ w ∈ written, w.action.kind ≠ .setField := by
    simpa [isWritten] using unwritten.symm
  refine List.findSome?_eq_none_iff.mpr ?_
  intro w inside
  exact Action.sets?_of_other (other w (List.mem_reverse.mp inside))

/-- An action that stands for the newest one takes the place of its kind. -/
theorem Gathers.put (gathers : s.Gathers written) {w newest : WrittenAction}
    (same : newest.action.kind = w.action.kind) (latest : w.Latest (written ++ [newest])) :
    (s.put w).Gathers (written ++ [newest]) := by
  constructor
  case kind =>
    intro k v held
    by_cases here : k = w.action.kind
    · rw [get_put, if_pos here] at held
      cases held
      exact here.symm
    · rw [get_put, if_neg here] at held
      exact gathers.kind k v held
  case isSome =>
    intro k
    have before := gathers.isSome k
    rw [isWritten_eq] at before ⊢
    rw [get_put, last?_concat, same]
    by_cases here : k = w.action.kind
    · rw [if_pos here, if_pos here.symm]
      rfl
    · rw [if_neg here, if_neg (Ne.symm here), before]
  case latest =>
    intro k v held
    by_cases here : k = w.action.kind
    · rw [get_put, if_pos here] at held
      cases held
      exact latest
    · rw [get_put, if_neg here] at held
      have before := gathers.latest k v held
      have differs : newest.action.kind ≠ v.action.kind := by
        intro is
        exact here (by rw [← gathers.kind k v held, ← is, same])
      constructor
      · rw [last?_concat, if_neg differs]
        exact before.origin
      · intro plain
        rw [last?_concat, if_neg differs]
        exact before.whole plain
      · intro is f
        have unset : newest.action.sets? f = none :=
          Action.sets?_of_other fun also => differs (also.trans is.symm)
        rw [lastValue?_concat, unset, Option.none_or]
        exact before.values is f

/-- The newest action is the latest of its kind, unless it is merged into another one. -/
theorem Gathers.latest_newest (gathers : s.Gathers written) {w : WrittenAction}
    (alone : w.action.kind = .setField → s.get .setField = none) :
    w.Latest (written ++ [w]) := by
  constructor
  · simp [last?_concat]
  · intro _
    simp [last?_concat]
  · intro is f
    rw [lastValue?_concat, gathers.lastValue?_eq_none (alone is), Option.or_none]

theorem Gathers.latest_merged (gathers : s.Gathers written) {stored : Match}
    {before : Option EntryRef} (held : s.get .setField = some ⟨.setField stored, before⟩)
    (fields : Match) (origin : Option EntryRef) :
    WrittenAction.Latest ⟨.setField (stored.merge fields), origin⟩
      (written ++ [⟨.setField fields, origin⟩]) := by
  constructor
  · simp [last?_concat, Action.kind]
  · intro plain
    exact absurd rfl plain
  · intro _ f
    have values := (gathers.latest _ _ held).values rfl f
    rw [lastValue?_concat, Action.sets?_merge, ← values]

/-- One action is written: it succeeds, and the set holds the latest again. -/
theorem Gathers.writeOne (gathers : s.Gathers written) {a : Action}
    (supported : a.isExperimenter = false) (origin : Option EntryRef) :
    ∃ s', s.writeOne origin a = .ok s' ∧ s'.Gathers (written ++ [⟨a, origin⟩]) := by
  unfold ActionSet.writeOne
  split
  · cases supported
  · rename_i fields stored before held
    exact ⟨_, rfl, gathers.put rfl (gathers.latest_merged held fields origin)⟩
  · rename_i other
    refine ⟨_, rfl, gathers.put rfl (gathers.latest_newest ?_)⟩
    intro is
    cases held : s.get .setField with
    | none => rfl
    | some w =>
      obtain ⟨fields, rfl⟩ := Action.exists_setField is
      obtain ⟨stored, same⟩ := Action.exists_setField (gathers.kind _ _ held)
      exact absurd (held.trans (congrArg some (show w = ⟨_, w.origin⟩ by rw [← same])))
        (other fields stored w.origin rfl)

/-- Induction on the actions of the list, one after the other. -/
theorem Gathers.write (gathers : s.Gathers written) (l : ActionList) (origin : Option EntryRef) :
    ∃ s', s.write l origin = .ok s' ∧
      s'.Gathers (written ++ l.actions.map fun a => ⟨a, origin⟩) := by
  obtain ⟨actions, supported⟩ := l
  unfold ActionSet.write
  dsimp only
  induction actions generalizing s written with
  | nil => exact ⟨s, rfl, by simpa using gathers⟩
  | cons a actions ih =>
    obtain ⟨here, rest⟩ := List.forall_mem_cons.mp supported
    obtain ⟨next, first, gathers⟩ := gathers.writeOne here origin
    obtain ⟨s', later, gathers⟩ := ih gathers rest
    refine ⟨s', ?_, by simpa using gathers⟩
    rw [List.foldlM_cons, first]
    exact later

theorem Gathers.step (gathers : s.Gathers written) (c : Command) :
    ∃ s', s.step c = .ok s' ∧ s'.Gathers (extend written c) := by
  cases c with
  | write l origin => exact gathers.write l origin
  | clear => exact ⟨empty, rfl, gathers_empty⟩

/-- Induction on the history: the set holds the latest after each command. -/
theorem Gathers.run (gathers : s.Gathers written) (history : List Command) :
    ∃ s', s.run history = .ok s' ∧ s'.Gathers (history.foldl extend written) := by
  unfold ActionSet.run
  induction history generalizing s written with
  | nil => exact ⟨s, rfl, gathers⟩
  | cons c history ih =>
    obtain ⟨next, first, gathers⟩ := gathers.step c
    obtain ⟨s', later, gathers⟩ := ih gathers
    refine ⟨s', ?_, gathers⟩
    rw [List.foldlM_cons, first]
    exact later

theorem Gathers.kinds (gathers : s.Gathers written) (kinds : List ActionKind) :
    (kinds.filterMap s.get).map (·.action.kind) = kinds.filter (isWritten written) := by
  induction kinds with
  | nil => rfl
  | cons k kinds ih =>
    have there := gathers.isSome k
    cases held : s.get k with
    | none =>
      rw [held] at there
      rw [List.filterMap_cons_none held, List.filter_cons_of_neg (by simp [← there]), ih]
    | some w =>
      rw [held] at there
      rw [List.filterMap_cons_some held, List.map_cons, gathers.kind k w held,
        List.filter_cons_of_pos (by simp [← there]), ih]

theorem Gathers.ordered (gathers : s.Gathers written) :
    s.ordered.map (·.action.kind) = order.filter (isDue written) := by
  have grouped := gathers.isSome .group
  rw [ActionSet.ordered, gathers.kinds, List.filter_filter, grouped]
  rfl

/-- Every write succeeds. What is carried out comes in one order, each action the latest of its
kind among those written since the set was last cleared, and output only without a group. -/
theorem run_latest (history : List Command) :
    ∃ s, run empty history = .ok s ∧
      s.ordered.map (·.action.kind) =
        [.copyTtlIn, .popVlan, .popPbb, .popMpls, .pushMpls, .pushPbb, .pushVlan, .copyTtlOut,
          .decMplsTtl, .decNwTtl, .setMplsTtl, .setNwTtl, .setField, .setQueue, .group,
          .output].filter (isDue (recent history)) ∧
      ∀ w ∈ s.ordered, w.Latest (recent history) := by
  obtain ⟨s, done, gathers⟩ := gathers_empty.run history
  refine ⟨s, done, gathers.ordered, ?_⟩
  intro w inside
  obtain ⟨k, -, held⟩ := List.mem_filterMap.mp inside
  exact gathers.latest k w held

end ActionSet

end FlowSwitch
