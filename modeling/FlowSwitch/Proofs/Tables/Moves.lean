import FlowSwitch.Proofs.Flow.Instruction
import FlowSwitch.Proofs.Forward.Settled
import FlowSwitch.Tables.Command

/-!
# Commands as moves

Every command to the tables is a chain of moves, each of which does one thing to the
entries, the groups or the meters or counts something. A move comes with the tables that it
makes, where these may have more references than before, and with how many entries it adds.
What every move keeps, every run of commands keeps.
-/

namespace FlowSwitch

/-- Whether an entry overlaps none of the others, if it is not to. -/
def FlowEntry.Clear (e : FlowEntry) (others : List FlowEntry) : Prop :=
  e.flags.checkOverlap = true → ∀ x ∈ others, e.overlaps x = false

/-- A meter that is added was not there and has no users. -/
theorem MeterTable.insert_of_add {t t' : MeterTable} {id : MeterId} {flags : MeterFlags}
    {bands : List BandConfig} {now : Time} (added : t.add id flags bands now = .ok t') :
    t.contains id = false ∧ ∃ m : Meter, m.uses = {} ∧ t' = t.insert id m := by
  unfold MeterTable.add at added
  dsimp only [throw, throwThe, MonadExceptOf.throw] at added
  split at added
  · cases added
  · split at added
    · cases added
    · rename_i fresh
      obtain ⟨_, -, done⟩ := bind_eq_ok.mp added
      obtain rfl := Except.ok.inj done
      exact ⟨Bool.not_eq_true _ ▸ fresh, _, rfl, rfl⟩

namespace GroupTable

variable {t t' : GroupTable} {id : GroupId} {type : GroupType} {buckets : List Bucket}
  {hasPort : PortNo → Bool}

/-- A group that is added has a number of its own and buckets that were checked. -/
theorem add_cases {now : Time} (added : t.add id type buckets hasPort now = .ok t') :
    id ≤ GroupId.last ∧ t.contains id = false ∧
      Group.validate type buckets (t.known hasPort) = .ok () ∧
      t' = t.insert id { type, buckets, createdAt := now } := by
  unfold add at added
  dsimp only [throw, throwThe, MonadExceptOf.throw] at added
  split at added
  · cases added
  · rename_i small
    split at added
    · cases added
    · split at added
      · cases added
      · rename_i fresh
        obtain ⟨_, valid, done⟩ := bind_eq_ok.mp added
        exact ⟨UInt32.not_lt.mp small, by simpa using fresh, valid, (Except.ok.inj done).symm⟩

theorem update_cases (updated : t.update id type buckets hasPort = .ok t') :
    id ≤ GroupId.last ∧ t.contains id = true ∧
      Group.validate type buckets (t.known hasPort) = .ok () ∧
      t' = t.modify id fun g => { g with type, buckets } := by
  unfold update at updated
  dsimp only [throw, throwThe, MonadExceptOf.throw] at updated
  split at updated
  · cases updated
  · rename_i small
    split at updated
    · cases updated
    · rename_i there
      obtain ⟨_, valid, done⟩ := bind_eq_ok.mp updated
      exact ⟨UInt32.not_lt.mp small, by simpa using there, valid, (Except.ok.inj done).symm⟩

end GroupTable

namespace Tables

/-- Whether the groups that instructions name are there. -/
def Knows (t : Tables) (s : InstructionSet) : Prop := ∀ g ∈ s.groups, t.groups.contains g = true

/-- One move: the tables before it, those that it makes where these may have more references than
before, how many entries it adds, and the tables after it. Some meters `may` be added. -/
inductive Move (may : MeterId → Prop) : Tables → List Tables → Nat → Tables → Prop
  | settle {t t' : Tables} (same : t'.settled = t.settled) : Move may t [] 0 t'
  | enroll {t : Tables} {f : FlowTable} {e : FlowEntry}
      (found : t.flowTable? e.ref.table = some f) (alone : f.entries.find? e.isIdentical = none)
      (room : f.isFull = false) (clear : e.Clear f.entries) (number : e.ref.id = t.newestEntry + 1)
      (known : t.Knows e.instructions) : Move may t [t.enroll e] 1 (t.enroll e)
  | exchange {t : Tables} {f : FlowTable} {old e : FlowEntry}
      (found : t.flowTable? e.ref.table = some f)
      (identical : f.entries.find? e.isIdentical = some old) (clear : e.Clear f.entries)
      (number : e.ref.id = old.ref.id) (known : t.Knows e.instructions) :
      Move may t [t.exchange old e] 0 (t.exchange old e)
  | instruct {t : Tables} {ref : EntryRef} {s : InstructionSet} {reset : Bool}
      (known : t.Knows s) : Move may t [t.instruct ref s reset] 0 (t.instruct ref s reset)
  | remove {t : Tables} {refs : List (EntryRef × RemovalReason)} {now : Time} :
      Move may t [] 0 (t.remove now refs).2
  | addGroup {t : Tables} {id : GroupId} {g : Group} (fresh : t.groups.contains id = false)
      (unused : g.uses = {}) : Move may t [] 0 { t with groups := t.groups.insert id g }
  | changeGroup {t : Tables} {id : GroupId} {change : Group → Group}
      (uses : ∀ g, (change g).uses = g.uses) :
      Move may t [] 0 { t with groups := t.groups.modify id change }
  | dropGroup {t : Tables} {id : GroupId} {now : Time} :
      Move may t [] 0 (t.dropGroup id now).2
  | addMeter {t : Tables} {id : MeterId} {m : Meter} (allowed : may id)
      (fresh : t.meters.contains id = false) (unused : m.uses = {}) :
      Move may t [] 0 { t with meters := t.meters.insert id m }
  | changeMeter {t : Tables} {id : MeterId} {change : Meter → Meter}
      (uses : ∀ m, (change m).uses = m.uses) :
      Move may t [] 0 { t with meters := t.meters.modify id change }
  | dropMeters {t : Tables} {meters : MeterTable}
      (had : ∀ id m, meters.get? id = some m → t.meters.get? id = some m) :
      Move may t [] 0 { t with meters }

/-- A chain of moves, with the tables that these make and the entries that these add. -/
inductive Moves (may : MeterId → Prop) : Tables → List Tables → Nat → Tables → Prop
  | none {t : Tables} : Moves may t [] 0 t
  | next {t t' t'' : Tables} {l l' : List Tables} {n n' : Nat} (moves : Moves may t l n t')
      (move : Move may t' l' n' t'') : Moves may t (l ++ l') (n + n') t''

variable {may : MeterId → Prop}

theorem Move.moves {t t' : Tables} {l : List Tables} {n : Nat} (move : Move may t l n t') :
    Moves may t l n t' := by
  simpa using Moves.next .none move

theorem Moves.trans {t t' t'' : Tables} {l l' : List Tables} {n n' : Nat}
    (first : Moves may t l n t') (rest : Moves may t' l' n' t'') :
    Moves may t (l ++ l') (n + n') t'' := by
  induction rest with
  | none => simpa using first
  | next _ move ih =>
    rw [← List.append_assoc, ← Nat.add_assoc]
    exact .next ih move

theorem newestEntry_remove (t : Tables) (now : Time) (refs : List (EntryRef × RemovalReason)) :
    (t.remove now refs).2.newestEntry = t.newestEntry := by
  refine remove_keeps (P := fun t' => t'.newestEntry = t.newestEntry) ?_ rfl now refs
  intro t' ref reason now same
  rcases t'.erase_cases ref reason now with ⟨-, none⟩ | ⟨e, -, one⟩
  · rw [none, same]
  · rw [one, ← same]
    exact newestEntry_modifyFlow ..

theorem Move.newestEntry {t t' : Tables} {l : List Tables} {n : Nat} (move : Move may t l n t') :
    t'.newestEntry = t.newestEntry + n.toUInt64 := by
  have zero (x : UInt64) : x + Nat.toUInt64 0 = x := by simp
  cases move with
  | settle same =>
    rw [zero]
    have kept : t'.settled.newestEntry = t.settled.newestEntry := by rw [same]
    exact kept
  | enroll found alone room clear number known =>
    show (modifyFlow _ _ _).newestEntry = _
    rw [newestEntry_modifyFlow, number]
    rfl
  | exchange =>
    rw [zero]
    exact newestEntry_modifyFlow ..
  | instruct =>
    rw [zero]
    obtain ⟨-, same⟩ | ⟨old, -, same⟩ := t.instruct_cases _ _ _
    · rw [same]
    · rw [same]
      exact newestEntry_modifyFlow ..
  | remove =>
    rw [zero]
    exact newestEntry_remove ..
  | dropGroup =>
    rw [zero]
    exact newestEntry_remove ..
  | addGroup | changeGroup | addMeter | changeMeter | dropMeters => rw [zero]

theorem Moves.newestEntry {t t' : Tables} {l : List Tables} {n : Nat} (moves : Moves may t l n t') :
    t'.newestEntry = t.newestEntry + n.toUInt64 := by
  induction moves with
  | none => simp
  | next _ move ih =>
    rw [move.newestEntry, ih, UInt64.add_assoc]
    simp [Nat.toUInt64]

/-! ## The moves of each command -/

variable {t : Tables}

theorem Knows.of_validate {s : InstructionSet} {table : TableId} {writable : UInt64}
    {hasPort : PortNo → Bool} (valid : s.validate table writable (t.known hasPort) = .ok ()) :
    t.Knows s := InstructionSet.hasGroup_of_validate valid

theorem clear_of_check {f : FlowTable} {e : FlowEntry} {hasPort : PortNo → Bool}
    (checked : t.checkNew f e hasPort = .ok ()) : e.Clear f.entries := by
  obtain ⟨_, -, checked⟩ := bind_eq_ok.mp checked
  obtain ⟨_, -, checked⟩ := bind_eq_ok.mp checked
  intro asked x inside
  cases overlap : e.overlaps x with
  | false => rfl
  | true =>
    have some : f.entries.any e.overlaps = true := List.any_eq_true.mpr ⟨x, inside, overlap⟩
    rw [asked, some] at checked
    cases checked

theorem valid_of_check {f : FlowTable} {e : FlowEntry} {hasPort : PortNo → Bool}
    (checked : t.checkNew f e hasPort = .ok ()) :
    e.instructions.validate e.ref.table TableId.writableMetadata (t.known hasPort) = .ok () := by
  obtain ⟨_, -, checked⟩ := bind_eq_ok.mp checked
  obtain ⟨_, valid, -⟩ := bind_eq_ok.mp checked
  exact valid

/-- An addition that is not refused puts the entry in for the one that is identical to it, with
the number of that one, or takes it in with a new number. -/
theorem add_cases {e : FlowEntry} {hasPort : PortNo → Bool} {ref : EntryRef} {t' : Tables}
    (added : t.add e hasPort = .ok (ref, t')) :
    ∃ f, t.flowTable? e.ref.table = some f ∧ t.checkNew f e hasPort = .ok () ∧
      ((∃ old counter, f.entries.find? e.isIdentical = some old ∧
          t' = t.exchange old { e with ref := ⟨e.ref.table, old.ref.id⟩, counter }) ∨
        (f.entries.find? e.isIdentical = none ∧ f.isFull = false ∧
          t' = t.enroll { e with ref := ⟨e.ref.table, t.newestEntry + 1⟩ })) := by
  unfold add at added
  cases found : t.flowTable? e.ref.table with
  | none => simp [found] at added
  | some f =>
    simp only [found] at added
    obtain ⟨_, checked, added⟩ := bind_eq_ok.mp added
    refine ⟨f, rfl, checked, ?_⟩
    cases same : f.entries.find? e.isIdentical with
    | some old =>
      simp only [same] at added
      obtain ⟨-, rfl⟩ := Prod.mk.inj (Except.ok.inj added)
      exact .inl ⟨old, _, rfl, rfl⟩
    | none =>
      simp only [same] at added
      split at added
      · cases added
      · rename_i room
        obtain ⟨-, rfl⟩ := Prod.mk.inj (Except.ok.inj added)
        exact .inr ⟨rfl, Bool.not_eq_true _ ▸ room, rfl⟩

/-- A change of entries asks for them, and is refused or gives them the instructions. -/
theorem update_cases (t : Tables) (f : FlowFilter) (priority : Option UInt16) (s : InstructionSet)
    (flags : FlowFlags) (hasPort : PortNo → Bool) :
    (∃ err, t.update f priority s flags hasPort = (.error err, (t.select f priority).2)) ∨
      ∃ t', (t.select f priority).2.instructAll (t.select f priority).1 s flags.resetCounts hasPort
          = .ok t' ∧
        t.update f priority s flags hasPort = (.ok (t.select f priority).1.length, t') := by
  unfold update
  dsimp only
  cases (t.select f priority).2.instructAll (t.select f priority).1 s flags.resetCounts hasPort with
  | error err => exact .inl ⟨err, rfl⟩
  | ok t' => exact .inr ⟨t', rfl, rfl⟩

/-- A change of entries that may add one is refused for its table, or asks for the entries. Then it
is refused, adds the entry or gives them the instructions. -/
theorem updateOrAdd_cases (t : Tables) (e : FlowEntry) (cookieMask : UInt64) (strict : Bool)
    (hasPort : PortNo → Bool) :
    t.updateOrAdd e cookieMask strict hasPort = (.error (.flowModFailed .badTableId), t) ∨
      ∃ f priority,
        t.between (.updateOrAdd e cookieMask strict hasPort)
          = (t.select f priority).2.instructSteps (t.select f priority).1 e.instructions
              e.flags.resetCounts hasPort ∧
        ((∃ err,
            t.updateOrAdd e cookieMask strict hasPort = (.error err, (t.select f priority).2)) ∨
          (∃ ref t', (t.select f priority).2.add e hasPort = .ok (ref, t') ∧
            t.updateOrAdd e cookieMask strict hasPort = (.ok (), t')) ∨
          ∃ t', (t.select f priority).2.instructAll (t.select f priority).1 e.instructions
              e.flags.resetCounts hasPort = .ok t' ∧
            t.updateOrAdd e cookieMask strict hasPort = (.ok (), t')) := by
  unfold updateOrAdd
  by_cases all : e.ref.table = TableId.all
  · exact .inl (if_pos all)
  · refine .inr ⟨{ table := e.ref.table, selector := e.selector, cookie := e.cookie, cookieMask },
      if strict then some e.priority else none, if_neg all, ?_⟩
    rw [if_neg all]
    generalize (if strict then some e.priority else none) = priority
    generalize ({ table := e.ref.table, selector := e.selector, cookie := e.cookie, cookieMask }
      : FlowFilter) = f
    dsimp only
    cases (t.select f priority).1.isEmpty with
    | true =>
      simp only [if_true]
      cases (t.select f priority).2.add e hasPort with
      | error err => exact .inl ⟨err, rfl⟩
      | ok answer => exact .inr (.inl ⟨answer.1, answer.2, rfl, rfl⟩)
    | false =>
      simp only [Bool.false_eq_true, if_false]
      cases (t.select f priority).2.instructAll (t.select f priority).1 e.instructions
          e.flags.resetCounts hasPort with
      | error err => exact .inl ⟨err, rfl⟩
      | ok t' => exact .inr (.inr ⟨t', rfl, rfl⟩)

/-- An addition takes in an entry, exchanges one, or is refused. -/
theorem add_move {e : FlowEntry} {hasPort : PortNo → Bool} {ref : EntryRef} {t' : Tables}
    (added : t.add e hasPort = .ok (ref, t')) : ∃ n ≤ 1, Move may t [t'] n t' := by
  obtain ⟨f, found, checked, ⟨old, counter, same, rfl⟩ | ⟨alone, room, rfl⟩⟩ := add_cases added
  · exact ⟨0, by omega,
      .exchange found same (clear_of_check checked) rfl (.of_validate (valid_of_check checked))⟩
  · exact ⟨1, by omega,
      .enroll found alone room (clear_of_check checked) rfl (.of_validate (valid_of_check checked))⟩

theorem keys_reference (t : Tables) (s : InstructionSet) :
    (t.reference s).groups.keys = t.groups.keys := by
  simp only [reference]
  generalize t.groups = groups
  induction s.groups generalizing groups with
  | nil => rfl
  | cons g l ih => rw [List.foldl_cons, ih, GroupTable.reference, Registry.keys_modify]

theorem keys_unreference (t : Tables) (s : InstructionSet) :
    (t.unreference s).groups.keys = t.groups.keys := by
  simp only [unreference]
  generalize t.groups = groups
  induction s.groups generalizing groups with
  | nil => rfl
  | cons g l ih => rw [List.foldl_cons, ih, GroupTable.unreference, Registry.keys_modify]

theorem keys_instruct (t : Tables) (ref : EntryRef) (s : InstructionSet) (reset : Bool) :
    (t.instruct ref s reset).groups.keys = t.groups.keys := by
  obtain ⟨-, same⟩ | ⟨old, -, same⟩ := t.instruct_cases ref s reset
  · rw [same]
  · rw [same, keys_reference, keys_unreference, modifyEntry, groups_modifyFlow]

theorem Knows.of_keys {t t' : Tables} {s : InstructionSet}
    (keys : t'.groups.keys = t.groups.keys) (known : t.Knows s) : t'.Knows s := by
  intro g named
  have there := Registry.contains_iff_mem_keys.mp (known g named)
  exact Registry.contains_iff_mem_keys.mpr (keys ▸ there)

/-- Giving instructions to one entry after the other, induction on the entries. -/
theorem instructEach_moves {s : InstructionSet} (reset : Bool) (selected : List FlowEntry)
    (known : t.Knows s) :
    Moves may t (t.instructEach s reset selected) 0
      (selected.foldl (fun t e => t.instruct e.ref s reset) t) := by
  induction selected generalizing t with
  | nil => exact .none
  | cons e selected ih =>
    have first : Move may t [t.instruct e.ref s reset] 0 (t.instruct e.ref s reset) :=
      .instruct known
    exact first.moves.trans (ih (known.of_keys (t.keys_instruct e.ref s reset)))

theorem instructAll_moves {selected : List FlowEntry} {s : InstructionSet} {reset : Bool}
    {hasPort : PortNo → Bool} {t' : Tables}
    (instructed : t.instructAll selected s reset hasPort = .ok t') :
    Moves may t (t.instructSteps selected s reset hasPort) 0 t' := by
  have steps : t.instructSteps selected s reset hasPort = t.instructEach s reset selected := by
    simp [instructSteps, instructed, Except.isOk, Except.toBool]
  rw [steps]
  obtain ⟨_, valid, done⟩ := bind_eq_ok.mp instructed
  obtain rfl := Except.ok.inj done
  cases selected with
  | nil => exact .none
  | cons e rest =>
    obtain ⟨_, first, -⟩ := bind_eq_ok.mp valid
    exact instructEach_moves reset (e :: rest) (.of_validate first)

theorem select_move (t : Tables) (f : FlowFilter) (priority : Option UInt16) :
    Move may t [] 0 (t.select f priority).2 := .settle (t.settled_select f priority)

/-- Dropping one group after the other, induction on the groups. -/
theorem dropGroups_moves (now : Time) (ids : List GroupId) :
    Moves may t [] 0 (t.dropGroups now ids).2 := by
  induction ids generalizing t with
  | nil => exact .none
  | cons id ids ih =>
    have first : Move may t [] 0 (t.dropGroup id now).2 := .dropGroup
    exact first.moves.trans ih

theorem unlessRefused_moves {ε : Type} {changed : Except ε Tables}
    (each : ∀ t', changed = .ok t' → Moves may t [] 0 t') :
    Moves may t [] 0 (unlessRefused t changed) := unlessRefused_of .none each

theorem unlessRefused_move {ε : Type} {changed : Except ε Tables}
    (each : ∀ t', changed = .ok t' → Move may t [] 0 t') :
    Moves may t [] 0 (unlessRefused t changed) :=
  unlessRefused_moves fun t' done => (each t' done).moves

theorem addGroup_move {id : GroupId} {type : GroupType} {buckets : List Bucket}
    {hasPort : PortNo → Bool} {now : Time} {groups : GroupTable}
    (added : t.groups.add id type buckets hasPort now = .ok groups) :
    Move may t [] 0 { t with groups } := by
  obtain ⟨-, fresh, -, rfl⟩ := GroupTable.add_cases added
  exact .addGroup fresh rfl

theorem updateGroup_move {id : GroupId} {type : GroupType} {buckets : List Bucket}
    {hasPort : PortNo → Bool} {groups : GroupTable}
    (updated : t.groups.update id type buckets hasPort = .ok groups) :
    Move may t [] 0 { t with groups } := by
  obtain ⟨-, -, -, rfl⟩ := GroupTable.update_cases updated
  exact .changeGroup fun _ => rfl

theorem deleteGroup_moves {id : GroupId} {now : Time} {answer : List FlowRemoved × Tables}
    (deleted : t.deleteGroup id now = .ok answer) : Moves may t [] 0 answer.2 := by
  unfold deleteGroup at deleted
  split at deleted
  · cases deleted
  · obtain rfl := Except.ok.inj deleted
    exact dropGroups_moves now _

theorem addMeter_move {id : MeterId} {flags : MeterFlags} {bands : List BandConfig} {now : Time}
    {meters : MeterTable} (allowed : may id)
    (added : t.meters.add id flags bands now = .ok meters) : Move may t [] 0 { t with meters } := by
  obtain ⟨fresh, m, unused, rfl⟩ := MeterTable.insert_of_add added
  exact .addMeter allowed fresh unused

theorem replaceMeter_move {id : MeterId} {flags : MeterFlags} {bands : List BandConfig}
    {meters : MeterTable} (replaced : t.meters.replace id flags bands = .ok meters) :
    Move may t [] 0 { t with meters } := by
  unfold MeterTable.replace at replaced
  dsimp only [throw, throwThe, MonadExceptOf.throw] at replaced
  split at replaced
  · cases replaced
  · obtain ⟨_, -, done⟩ := bind_eq_ok.mp replaced
    obtain rfl := Except.ok.inj done
    exact .changeMeter fun _ => rfl

theorem removeMeters_move {id : MeterId} {meters : MeterTable}
    (removed : t.meters.remove id = .ok meters) : Move may t [] 0 { t with meters } := by
  refine .dropMeters fun other m found => ?_
  unfold MeterTable.remove at removed
  split at removed
  · obtain rfl := Except.ok.inj removed
    rw [Registry.get?_filterKeys] at found
    split at found
    · exact found
    · cases found
  · split at removed
    · obtain rfl := Except.ok.inj removed
      rw [Registry.get?_erase] at found
      split at found
      · cases found
      · exact found
    · cases removed

theorem deleteMeter_moves {id : MeterId} {now : Time} {answer : List FlowRemoved × Tables}
    (deleted : t.deleteMeter id now = .ok answer) : Moves may t [] 0 answer.2 := by
  unfold deleteMeter at deleted
  dsimp only [throw, throwThe, MonadExceptOf.throw] at deleted
  split at deleted
  · cases deleted
  · obtain ⟨meters, removed, deleted⟩ := bind_eq_ok.mp deleted
    obtain rfl := Except.ok.inj deleted
    exact (removeMeters_move removed).moves.trans Move.remove.moves

/-- Whether a command is a chain of moves that add no other meters than some. The moves make no
other tables than those that the command goes through and the one that it leaves, and add at most
one entry. -/
def MovesBy (may : MeterId → Prop) (t : Tables) (c : Command) : Prop :=
  ∃ l n, Moves may t l n (t.step c) ∧ (∀ m ∈ l, m ∈ t.between c ∨ m = t.step c) ∧ n ≤ 1

theorem MovesBy.quiet {c : Command} {t' : Tables} (moves : Moves may t [] 0 t')
    (done : t.step c = t') : t.MovesBy may c :=
  ⟨[], 0, done ▸ moves, by simp, by omega⟩

theorem add_moves (e : FlowEntry) (hasPort : PortNo → Bool) : t.MovesBy may (.add e hasPort) := by
  cases added : t.add e hasPort with
  | error err => exact .quiet .none (by simp only [step, added]; rfl)
  | ok answer =>
    obtain ⟨n, few, move⟩ := add_move added
    have done : t.step (.add e hasPort) = answer.2 := by simp only [step, added]; rfl
    exact ⟨_, n, done ▸ move.moves, by simp [done], few⟩

theorem update_moves (f : FlowFilter) (priority : Option UInt16) (s : InstructionSet)
    (flags : FlowFlags) (hasPort : PortNo → Bool) :
    t.MovesBy may (.update f priority s flags hasPort) := by
  have asked : Moves may t [] 0 _ := (t.select_move f priority).moves
  obtain ⟨err, refused⟩ | ⟨t', instructed, given⟩ := t.update_cases f priority s flags hasPort
  · exact .quiet asked (congrArg Prod.snd refused)
  · have done : t.step (.update f priority s flags hasPort) = t' := congrArg Prod.snd given
    have moves := asked.trans (instructAll_moves instructed)
    exact ⟨_, _, done ▸ moves, fun m made => .inl made, Nat.zero_le 1⟩

/-- The entries that are there get other instructions; in their absence the entry is added. -/
theorem updateOrAdd_moves (e : FlowEntry) (cookieMask : UInt64) (strict : Bool)
    (hasPort : PortNo → Bool) : t.MovesBy may (.updateOrAdd e cookieMask strict hasPort) := by
  obtain refused | ⟨f, priority, between, ended⟩ := t.updateOrAdd_cases e cookieMask strict hasPort
  · exact .quiet .none (congrArg Prod.snd refused)
  have asked : Moves may t [] 0 _ := (t.select_move f priority).moves
  obtain ⟨err, refused⟩ | ⟨ref, t', added, done⟩ | ⟨t', instructed, done⟩ := ended
  · exact .quiet asked (congrArg Prod.snd refused)
  · have done : t.step (.updateOrAdd e cookieMask strict hasPort) = t' := congrArg Prod.snd done
    obtain ⟨n, few, move⟩ := add_move added
    exact ⟨_, _, done ▸ asked.trans move.moves, by simp [done], by omega⟩
  · have done : t.step (.updateOrAdd e cookieMask strict hasPort) = t' := congrArg Prod.snd done
    have moves := asked.trans (instructAll_moves instructed)
    exact ⟨_, _, done ▸ moves, fun m made => .inl (between ▸ made), by omega⟩

/-- Whether a command gives instructions to no entry. -/
def Command.isQuiet : Command → Bool
  | .add .. | .update .. | .updateOrAdd .. => false
  | _ => true

/-- The meter that a command is to add. -/
def Command.newMeter? : Command → Option MeterId
  | .addMeter id .. => some id
  | _ => none

theorem quiet_moves (t : Tables) {c : Command} (quiet : c.isQuiet = true)
    (allowed : ∀ id, c.newMeter? = some id → may id) : Moves may t [] 0 (t.step c) := by
  cases c with
  | add e hasPort => cases quiet
  | update f priority s flags hasPort => cases quiet
  | updateOrAdd e cookieMask strict hasPort => cases quiet
  | delete f priority now => exact (t.select_move f priority).moves.trans Move.remove.moves
  | deleteByGroup id now => exact Move.remove.moves
  | deleteByMeter id now => exact Move.remove.moves
  | expire table now => exact Move.remove.moves
  | classify table packet => exact (Move.settle (t.settled_classify table packet)).moves
  | query table q => exact (Move.settle (t.settled_queryEach q _)).moves
  | flowStats f now => exact (t.select_move f none).moves
  | addGroup id type buckets hasPort now =>
    refine unlessRefused_move fun t' changed => ?_
    obtain ⟨groups, added, rfl⟩ := map_eq_ok.mp changed
    exact addGroup_move added
  | updateGroup id type buckets hasPort =>
    refine unlessRefused_move fun t' changed => ?_
    obtain ⟨groups, updated, rfl⟩ := map_eq_ok.mp changed
    exact updateGroup_move updated
  | deleteGroup id now =>
    refine unlessRefused_moves fun t' changed => ?_
    obtain ⟨answer, deleted, rfl⟩ := map_eq_ok.mp changed
    exact deleteGroup_moves deleted
  | addMeter id flags bands now =>
    refine unlessRefused_move fun t' changed => ?_
    obtain ⟨meters, added, rfl⟩ := map_eq_ok.mp changed
    exact addMeter_move (allowed id rfl) added
  | replaceMeter id flags bands =>
    refine unlessRefused_move fun t' changed => ?_
    obtain ⟨meters, replaced, rfl⟩ := map_eq_ok.mp changed
    exact replaceMeter_move replaced
  | deleteMeter id now =>
    refine unlessRefused_moves fun t' changed => ?_
    obtain ⟨answer, deleted, rfl⟩ := map_eq_ok.mp changed
    exact deleteMeter_moves deleted
  | process s ports frame draws =>
    exact (Move.settle (Run.settled_process s { tables := t, ports, frame, draws })).moves
  | carryOut s actions ports frame draws =>
    exact (Move.settle (Run.settled_carryOut s actions { tables := t, ports, frame, draws })).moves

theorem step_moves (t : Tables) {c : Command} (allowed : ∀ id, c.newMeter? = some id → may id) :
    t.MovesBy may c := by
  cases c with
  | add e hasPort => exact add_moves e hasPort
  | update f priority s flags hasPort => exact update_moves f priority s flags hasPort
  | updateOrAdd e cookieMask strict hasPort => exact updateOrAdd_moves e cookieMask strict hasPort
  | _ => exact .quiet (t.quiet_moves rfl allowed) rfl

theorem mem_history_self (t : Tables) (cs : List Command) : t ∈ t.history cs := by
  cases cs <;> simp [history]

/-- A step that adds an entry is one that changes the newest number. -/
theorem additions_cons {c : Command} {cs : List Command} {l : List Tables} {n : Nat}
    (moves : Moves may t l n (t.step c)) (few : n ≤ 1) :
    t.additions (c :: cs) = n + (t.step c).additions cs := by
  simp only [additions, moves.newestEntry]
  congr 1
  obtain rfl | rfl : n = 0 ∨ n = 1 := by omega
  · simp
  · simp

/-- What commands do, in moves: these make tables of the history only and take in as many entries
as the commands add. Induction on the commands. -/
theorem run_moves (t : Tables) (cs : List Command) :
    ∃ l, Moves (fun _ => True) t l (t.additions cs) (t.run cs) ∧ ∀ m ∈ l, m ∈ t.history cs := by
  induction cs generalizing t with
  | nil => exact ⟨[], .none, by simp⟩
  | cons c cs ih =>
    obtain ⟨l, n, first, made, few⟩ := t.step_moves (c := c) fun _ _ => trivial
    obtain ⟨l', rest, made'⟩ := ih (t.step c)
    refine ⟨l ++ l', ?_, fun m inside => ?_⟩
    · rw [additions_cons first few]
      exact first.trans rest
    · rcases List.mem_append.mp inside with early | late
      · rcases made m early with between | rfl
        · simp [history, between]
        · simp [history, mem_history_self]
      · simp [history, made' m late]

end Tables

end FlowSwitch
