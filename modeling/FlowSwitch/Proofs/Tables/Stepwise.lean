import FlowSwitch.Proofs.Steps
import FlowSwitch.Proofs.Tables.Settled

/-!
# Changes carried out step by step

A change of the tables checks and writes in steps, and an error in between would leave what was
written before it. Here the changes that may be refused are told step by step, in the order in
which they check and write, and each is shown to come to what the function of that change leaves.
Only lookups, which count when they are made, are written before the last check.
-/

namespace FlowSwitch

/-- A flow table without the counts of its lookups. -/
def FlowTable.unasked (f : FlowTable) : FlowTable := { f with lookups := 0, matched := 0 }

namespace Tables

/-- The tables without the counts of lookups. -/
def unasked (t : Tables) : Tables := { t with flow := t.flow.map (·.unasked) }

variable {t t' : Tables}

theorem unasked_countLookup (t : Tables) (id : TableId) (found : Nat) :
    (t.modifyFlow id (·.countLookup found)).unasked = t.unasked := by
  have flow : (t.modifyFlow id (·.countLookup found)).flow.map (·.unasked)
      = t.flow.map (·.unasked) := t.map_modifyFlow id fun _ _ => rfl
  simp only [unasked, flow, groups_modifyFlow, meters_modifyFlow, newestEntry_modifyFlow]

/-- Asking one table after the other, induction on the tables that are left. -/
theorem unasked_queryEach (t : Tables) (q : Query) (ids : List TableId) :
    (t.queryEach q ids).2.unasked = t.unasked := by
  induction ids generalizing t with
  | nil => rfl
  | cons id ids ih =>
    simp only [queryEach]
    split
    · exact t.unasked_countLookup id _
    · rw [ih, unasked_countLookup]

theorem unasked_select (t : Tables) (f : FlowFilter) (priority : Option UInt16) :
    (t.select f priority).2.unasked = t.unasked := t.unasked_queryEach _ _

theorem modifyFlow_modifyFlow (t : Tables) (id : TableId) (first rest : FlowTable → FlowTable) :
    (t.modifyFlow id first).modifyFlow id rest = t.modifyFlow id fun f => rest (first f) := by
  cases found : t.flowTable? id with
  | none => rw [modifyFlow_of_none found, modifyFlow_of_none found, modifyFlow_of_none found]
  | some f =>
    obtain ⟨inside, rfl⟩ := Vector.getElem?_eq_some_iff.mp found
    simp [modifyFlow, flowTable?, inside]

/-! ## Entries -/

/-- Adding an entry: the checks, then what an entry that gives up its place leaves, then the new
entry, and last its references. -/
def addSteps (e : FlowEntry) (hasPort : PortNo → Bool) : Steps Tables EntryRef := do
  let t ← get
  match t.flowTable? e.ref.table with
  | none => throw (.flowModFailed .badTableId)
  | some f =>
    Steps.check (t.checkNew f e hasPort)
    match f.entries.find? e.isIdentical with
    | some old =>
      let e := { e with
        ref := ⟨e.ref.table, old.ref.id⟩
        counter := if e.flags.resetCounts then e.counter else old.counter }
      modify (·.modifyFlow e.ref.table fun f =>
        { f with entries := f.entries.eraseP e.isIdentical })
      modify (·.modifyFlow e.ref.table (·.insert e))
      modify (·.unreference old.instructions)
      modify (·.reference e.instructions)
      return e.ref
    | none =>
      if f.isFull then throw (.flowModFailed .tableFull)
      else
        let e := { e with ref := ⟨e.ref.table, t.newestEntry + 1⟩ }
        modify ({ · with newestEntry := e.ref.id })
        modify (·.modifyFlow e.ref.table fun f => { f with active := f.active.increment })
        modify (·.modifyFlow e.ref.table (·.insert e))
        modify (·.reference e.instructions)
        return e.ref

theorem addSteps_apply (e : FlowEntry) (hasPort : PortNo → Bool) (t : Tables) :
    addSteps e hasPort t = Steps.outcome t (t.add e hasPort) := by
  unfold addSteps add
  cases found : t.flowTable? e.ref.table with
  | none =>
    simp only [Steps.bind_apply, Steps.get_apply, found, Steps.throw_apply]
    rfl
  | some f =>
    simp only [Steps.bind_apply, Steps.get_apply, found]
    cases checked : t.checkNew f e hasPort with
    | error err => rfl
    | ok _ =>
      cases f.entries.find? e.isIdentical with
      | some old =>
        simp only [Steps.check, Steps.bind_apply, Steps.modify_apply, modifyFlow_modifyFlow]
        rfl
      | none =>
        cases f.isFull with
        | true =>
          simp only [Steps.check, if_true]
          rfl
        | false =>
          simp only [Steps.check, Bool.false_eq_true, if_false, Steps.bind_apply,
            Steps.modify_apply, modifyFlow_modifyFlow]
          rfl

/-- Giving instructions to entries: every check comes before the first entry is touched. -/
def instructAllSteps (selected : List FlowEntry) (s : InstructionSet) (reset : Bool)
    (hasPort : PortNo → Bool) : Steps Tables Unit := do
  selected.forM fun e => do
    Steps.check (s.validate e.ref.table TableId.writableMetadata ((← get).known hasPort))
  selected.forM fun e => modify (·.instruct e.ref s reset)

theorem instructAllSteps_apply (selected : List FlowEntry) (s : InstructionSet) (reset : Bool)
    (hasPort : PortNo → Bool) (t : Tables) :
    instructAllSteps selected s reset hasPort t
      = Steps.outcome t ((t.instructAll selected s reset hasPort).map fun t' => ((), t')) := by
  have checked := Steps.forM_check_apply (fun (t : Tables) (e : FlowEntry) =>
    s.validate e.ref.table TableId.writableMetadata (t.known hasPort)) selected t
  have written := Steps.forM_modify_apply (fun (t : Tables) (e : FlowEntry) =>
    t.instruct e.ref s reset) selected t
  unfold instructAllSteps instructAll
  rw [Steps.bind_apply, checked]
  cases selected.forM fun e =>
      s.validate e.ref.table TableId.writableMetadata (t.known hasPort) with
  | error e => rfl
  | ok _ => exact written

def updateSteps (f : FlowFilter) (priority : Option UInt16) (s : InstructionSet)
    (flags : FlowFlags) (hasPort : PortNo → Bool) : Steps Tables Nat := do
  let selected ← modifyGet (·.select f priority)
  instructAllSteps selected s flags.resetCounts hasPort
  return selected.length

theorem updateSteps_apply (f : FlowFilter) (priority : Option UInt16) (s : InstructionSet)
    (flags : FlowFlags) (hasPort : PortNo → Bool) (t : Tables) :
    updateSteps f priority s flags hasPort t
      = Steps.result (t.update f priority s flags hasPort) := by
  have asked : (modifyGet (·.select f priority) : Steps Tables (List FlowEntry)) t
      = .ok (t.select f priority).1 (t.select f priority).2 := rfl
  unfold updateSteps update
  rw [Steps.bind_apply, asked]
  simp only [Steps.bind_apply, instructAllSteps_apply]
  generalize (t.select f priority).2.instructAll .. = instructed
  cases instructed <;> rfl

def updateOrAddSteps (e : FlowEntry) (cookieMask : UInt64) (strict : Bool)
    (hasPort : PortNo → Bool) : Steps Tables Unit :=
  if e.ref.table = TableId.all then throw (.flowModFailed .badTableId)
  else do
    let filter : FlowFilter :=
      { table := e.ref.table, selector := e.selector, cookie := e.cookie, cookieMask }
    let selected ← modifyGet (·.select filter (if strict then some e.priority else none))
    if selected.isEmpty then
      let _ ← addSteps e hasPort
      return
    else instructAllSteps selected e.instructions e.flags.resetCounts hasPort

theorem updateOrAddSteps_apply (e : FlowEntry) (cookieMask : UInt64) (strict : Bool)
    (hasPort : PortNo → Bool) (t : Tables) :
    updateOrAddSteps e cookieMask strict hasPort t
      = Steps.result (t.updateOrAdd e cookieMask strict hasPort) := by
  unfold updateOrAddSteps updateOrAdd
  split
  · rfl
  · generalize (if strict then some e.priority else none) = priority
    generalize ({ table := e.ref.table, selector := e.selector, cookie := e.cookie, cookieMask }
      : FlowFilter) = f
    have asked : (modifyGet (·.select f priority) : Steps Tables (List FlowEntry)) t
        = .ok (t.select f priority).1 (t.select f priority).2 := rfl
    dsimp only
    rw [Steps.bind_apply, asked]
    cases missing : (t.select f priority).1.isEmpty with
    | true =>
      simp only [missing, if_true, Steps.bind_apply, addSteps_apply]
      cases (t.select f priority).2.add e hasPort <;> rfl
    | false =>
      simp only [missing, Bool.false_eq_true, if_false, instructAllSteps_apply]
      cases (t.select f priority).2.instructAll (t.select f priority).1 e.instructions
        e.flags.resetCounts hasPort <;> rfl

/-- A change of entries that is refused has only asked for them. -/
theorem unasked_update {f : FlowFilter} {priority : Option UInt16} {s : InstructionSet}
    {flags : FlowFlags} {hasPort : PortNo → Bool} {err : SwitchError}
    (refused : (t.update f priority s flags hasPort).1 = .error err) :
    (t.update f priority s flags hasPort).2.unasked = t.unasked := by
  unfold update at refused ⊢
  dsimp only at refused ⊢
  split at refused
  · cases refused
  · exact t.unasked_select f priority

theorem unasked_updateOrAdd {e : FlowEntry} {cookieMask : UInt64} {strict : Bool}
    {hasPort : PortNo → Bool} {err : SwitchError}
    (refused : (t.updateOrAdd e cookieMask strict hasPort).1 = .error err) :
    (t.updateOrAdd e cookieMask strict hasPort).2.unasked = t.unasked := by
  unfold updateOrAdd at refused ⊢
  by_cases all : e.ref.table = TableId.all
  · rw [if_pos all]
  · rw [if_neg all] at refused ⊢
    dsimp only at refused ⊢
    split at refused
    · cases refused
    · exact t.unasked_select _ _

end Tables

/-! ## Groups and meters -/

namespace GroupTable

/-- What is checked before a group is added. -/
def checkAdd (t : GroupTable) (id : GroupId) (type : GroupType) (buckets : List Bucket)
    (hasPort : PortNo → Bool) : Except SwitchError Unit := do
  if id > GroupId.last then throw (.groupModFailed .invalidGroup)
  if type ∉ Group.features.types then throw (.groupModFailed .badType)
  if t.contains id then throw (.groupModFailed .groupExists)
  Group.validate type buckets (t.known hasPort)

/-- What is checked before a group is changed. -/
def checkUpdate (t : GroupTable) (id : GroupId) (type : GroupType) (buckets : List Bucket)
    (hasPort : PortNo → Bool) : Except SwitchError Unit := do
  if id > GroupId.last then throw (.groupModFailed .invalidGroup)
  if !t.contains id then throw (.groupModFailed .unknownGroup)
  Group.validate type buckets (t.known hasPort)

theorem add_eq (t : GroupTable) (id : GroupId) (type : GroupType) (buckets : List Bucket)
    (hasPort : PortNo → Bool) (now : Time) :
    t.add id type buckets hasPort now = (t.checkAdd id type buckets hasPort).map fun _ =>
      t.insert id { type, buckets, createdAt := now } := by
  unfold add checkAdd
  dsimp only [throw, throwThe, MonadExceptOf.throw]
  split
  · rfl
  · split
    · rfl
    · split
      · rfl
      · cases Group.validate type buckets (t.known hasPort) <;> rfl

theorem update_eq (t : GroupTable) (id : GroupId) (type : GroupType) (buckets : List Bucket)
    (hasPort : PortNo → Bool) :
    t.update id type buckets hasPort = (t.checkUpdate id type buckets hasPort).map fun _ =>
      t.modify id fun g => { g with type, buckets } := by
  unfold update checkUpdate
  dsimp only [throw, throwThe, MonadExceptOf.throw]
  split
  · rfl
  · split
    · rfl
    · cases Group.validate type buckets (t.known hasPort) <;> rfl

def addSteps (id : GroupId) (type : GroupType) (buckets : List Bucket) (hasPort : PortNo → Bool)
    (now : Time) : Steps GroupTable Unit :=
  Steps.write (·.checkAdd id type buckets hasPort) (·.insert id { type, buckets, createdAt := now })

def updateSteps (id : GroupId) (type : GroupType) (buckets : List Bucket)
    (hasPort : PortNo → Bool) : Steps GroupTable Unit :=
  Steps.write (·.checkUpdate id type buckets hasPort)
    (·.modify id fun g => { g with type, buckets })

theorem addSteps_apply (id : GroupId) (type : GroupType) (buckets : List Bucket)
    (hasPort : PortNo → Bool) (now : Time) (t : GroupTable) :
    addSteps id type buckets hasPort now t
      = Steps.outcome t ((t.add id type buckets hasPort now).map fun t' => ((), t')) := by
  rw [addSteps, Steps.write_apply, add_eq]
  cases t.checkAdd id type buckets hasPort <;> rfl

theorem updateSteps_apply (id : GroupId) (type : GroupType) (buckets : List Bucket)
    (hasPort : PortNo → Bool) (t : GroupTable) :
    updateSteps id type buckets hasPort t
      = Steps.outcome t ((t.update id type buckets hasPort).map fun t' => ((), t')) := by
  rw [updateSteps, Steps.write_apply, update_eq]
  cases t.checkUpdate id type buckets hasPort <;> rfl

end GroupTable

namespace MeterTable

/-- What is checked before a meter is added. -/
def checkAdd (t : MeterTable) (id : MeterId) (flags : MeterFlags) (bands : List BandConfig) :
    Except SwitchError Unit := do
  if !id.isMeter then throw (.meterModFailed .invalidMeter)
  if t.contains id then throw (.meterModFailed .meterExists)
  Meter.validate flags bands

/-- What is checked before a meter is replaced. -/
def checkReplace (t : MeterTable) (id : MeterId) (flags : MeterFlags) (bands : List BandConfig) :
    Except SwitchError Unit := do
  if !t.contains id then throw (.meterModFailed .unknownMeter)
  Meter.validate flags bands

/-- What is checked before a meter is removed. -/
def checkRemove (t : MeterTable) (id : MeterId) : Except SwitchError Unit :=
  if id = MeterId.all ∨ t.contains id then .ok () else .error (.meterModFailed .unknownMeter)

def addSteps (id : MeterId) (flags : MeterFlags) (bands : List BandConfig) (now : Time) :
    Steps MeterTable Unit :=
  Steps.write (·.checkAdd id flags bands) (·.insert id
    { flags, bands := bands.map ({ config := · }), createdAt := now, measuredAt := now })

def replaceSteps (id : MeterId) (flags : MeterFlags) (bands : List BandConfig) :
    Steps MeterTable Unit :=
  Steps.write (·.checkReplace id flags bands)
    (·.modify id fun m => { m with flags, bands := bands.map ({ config := · }) })

def removeSteps (id : MeterId) : Steps MeterTable Unit :=
  Steps.write (·.checkRemove id) fun t =>
    if id = MeterId.all then t.filterKeys fun k => !k.isOrdinary else t.erase id

theorem addSteps_apply (id : MeterId) (flags : MeterFlags) (bands : List BandConfig) (now : Time)
    (t : MeterTable) :
    addSteps id flags bands now t
      = Steps.outcome t ((t.add id flags bands now).map fun t' => ((), t')) := by
  rw [addSteps, Steps.write_apply]
  unfold add checkAdd
  dsimp only [throw, throwThe, MonadExceptOf.throw]
  split
  · rfl
  · split
    · rfl
    · cases Meter.validate flags bands <;> rfl

theorem replaceSteps_apply (id : MeterId) (flags : MeterFlags) (bands : List BandConfig)
    (t : MeterTable) :
    replaceSteps id flags bands t
      = Steps.outcome t ((t.replace id flags bands).map fun t' => ((), t')) := by
  rw [replaceSteps, Steps.write_apply]
  unfold replace checkReplace
  dsimp only [throw, throwThe, MonadExceptOf.throw]
  split
  · rfl
  · cases Meter.validate flags bands <;> rfl

theorem removeSteps_apply (id : MeterId) (t : MeterTable) :
    removeSteps id t = Steps.outcome t ((t.remove id).map fun t' => ((), t')) := by
  rw [removeSteps, Steps.write_apply]
  unfold remove checkRemove
  by_cases all : id = MeterId.all
  · rw [if_pos all, if_pos (.inl all), if_pos all]
    rfl
  · by_cases held : t.contains id = true
    · rw [if_neg all, if_pos (.inr held), if_neg all, if_pos held]
      rfl
    · simp only [if_neg (not_or.mpr ⟨all, held⟩), if_neg all, if_neg held]
      rfl

end MeterTable

namespace Tables

def deleteGroupSteps (id : GroupId) (now : Time) : Steps Tables (List FlowRemoved) :=
  if id > GroupId.last && id != GroupId.all then throw (.groupModFailed .invalidGroup)
  else modifyGet fun t => t.dropGroups now (t.groups.matching id)

theorem deleteGroupSteps_apply (id : GroupId) (now : Time) (t : Tables) :
    deleteGroupSteps id now t = Steps.outcome t (t.deleteGroup id now) := by
  unfold deleteGroupSteps deleteGroup
  split <;> rfl

/-- Removing a meter and then the entries that name it. -/
def deleteMeterSteps (id : MeterId) (now : Time) : Steps Tables (List FlowRemoved) :=
  if !id.isMeter && id != MeterId.all then throw (.meterModFailed .invalidMeter)
  else do
    Steps.within (·.meters) ({ · with meters := · }) (MeterTable.removeSteps id)
    modifyGet (·.deleteByMeter id now)

theorem deleteMeterSteps_apply (id : MeterId) (now : Time) (t : Tables) :
    deleteMeterSteps id now t = Steps.outcome t (t.deleteMeter id now) := by
  unfold deleteMeterSteps deleteMeter
  dsimp only [throw, throwThe, MonadExceptOf.throw]
  split
  · rfl
  · rw [Steps.bind_apply, Steps.within_outcome rfl (MeterTable.removeSteps_apply id t.meters)]
    cases t.meters.remove id <;> rfl

end Tables

end FlowSwitch
