import FlowSwitch.Proofs.Tables.Moves

/-!
# What commands do to groups

What counts users of groups changes nothing else in them. So a command that is not a pass leaves
the groups as they are, their users aside, unless it adds a group, gives one another type and
other buckets, or deletes groups by number.
-/

namespace FlowSwitch

/-- A group without its users. -/
def Group.bare (g : Group) : Group := { g with uses := {} }

namespace Tables

/-- A group, if it is there, its users aside. -/
def bare? (t : Tables) (id : GroupId) : Option Group := (t.groups.get? id).map Group.bare

variable {t t' : Tables}

theorem isSome_bare? (t : Tables) (id : GroupId) : (t.bare? id).isSome = t.groups.contains id := by
  rw [bare?, Option.isSome_map, Registry.contains_eq_isSome]

/-! ## What leaves the groups alone -/

theorem bare?_of_groups (same : t'.groups = t.groups) : t'.bare? = t.bare? := by
  funext id
  rw [bare?, bare?, same]

theorem bare?_modify (t : Tables) (id : GroupId) {change : Group → Group}
    (same : ∀ g, (change g).bare = g.bare) :
    { t with groups := t.groups.modify id change : Tables }.bare? = t.bare? := by
  funext j
  simp only [bare?, Registry.get?_modify]
  split
  · cases t.groups.get? j with
    | none => rfl
    | some g => simp [same]
  · rfl

/-- Counting users, induction on the groups that are named. -/
theorem bare?_foldl {count : GroupTable → GroupId → GroupTable}
    (same : ∀ (t : Tables) g, { t with groups := count t.groups g : Tables }.bare? = t.bare?)
    (l : List GroupId) (t : Tables) :
    { t with groups := l.foldl count t.groups : Tables }.bare? = t.bare? := by
  induction l generalizing t with
  | nil => rfl
  | cons g l ih =>
    rw [List.foldl_cons]
    exact (ih { t with groups := count t.groups g }).trans (same t g)

theorem bare?_reference (t : Tables) (s : InstructionSet) : (t.reference s).bare? = t.bare? :=
  bare?_foldl (fun t g => t.bare?_modify g fun _ => by rfl) s.groups t

theorem bare?_unreference (t : Tables) (s : InstructionSet) : (t.unreference s).bare? = t.bare? :=
  bare?_foldl (fun t g => t.bare?_modify g fun _ => by rfl) s.groups t

theorem bare?_modifyFlow (t : Tables) (id : TableId) (change : FlowTable → FlowTable) :
    (t.modifyFlow id change).bare? = t.bare? := bare?_of_groups (t.groups_modifyFlow id change)

theorem bare?_instruct (t : Tables) (ref : EntryRef) (s : InstructionSet) (reset : Bool) :
    (t.instruct ref s reset).bare? = t.bare? := by
  obtain ⟨-, same⟩ | ⟨old, -, same⟩ := t.instruct_cases ref s reset
  · rw [same]
  · rw [same, bare?_reference, bare?_unreference, modifyEntry, bare?_modifyFlow]

theorem bare?_remove (t : Tables) (now : Time) (refs : List (EntryRef × RemovalReason)) :
    (t.remove now refs).2.bare? = t.bare? := by
  refine remove_keeps (P := fun t' => t'.bare? = t.bare?) ?_ rfl now refs
  intro t' ref reason now same
  rcases t'.erase_cases ref reason now with ⟨-, none⟩ | ⟨e, -, one⟩
  · rw [none, same]
  · rw [one, bare?_unreference, bare?_modifyFlow, same]

theorem bare?_add {e : FlowEntry} {hasPort : PortNo → Bool} {ref : EntryRef}
    (added : t.add e hasPort = .ok (ref, t')) : t'.bare? = t.bare? := by
  obtain ⟨f, -, -, ⟨old, counter, -, rfl⟩ | ⟨-, -, rfl⟩⟩ := add_cases added
  · rw [exchange, bare?_reference, bare?_unreference, bare?_modifyFlow]
  · rw [enroll, bare?_reference, bare?_modifyFlow]
    exact bare?_of_groups rfl

/-- Induction on the entries that get other instructions. -/
theorem bare?_instructAll {selected : List FlowEntry} {s : InstructionSet} {reset : Bool}
    {hasPort : PortNo → Bool} (instructed : t.instructAll selected s reset hasPort = .ok t') :
    t'.bare? = t.bare? := by
  have each (l : List FlowEntry) (t : Tables) :
      (l.foldl (fun t e => t.instruct e.ref s reset) t).bare? = t.bare? := by
    induction l generalizing t with
    | nil => rfl
    | cons e l ih => rw [List.foldl_cons, ih, bare?_instruct]
  obtain ⟨_, -, done⟩ := bind_eq_ok.mp instructed
  obtain rfl := Except.ok.inj done
  exact each selected t

/-- Induction on the tables that are asked. -/
theorem groups_queryEach (t : Tables) (q : Query) (ids : List TableId) :
    (t.queryEach q ids).2.groups = t.groups := by
  induction ids generalizing t with
  | nil => rfl
  | cons table ids ih =>
    simp only [queryEach]
    split
    · exact t.groups_modifyFlow ..
    · exact (ih _).trans (t.groups_modifyFlow ..)

theorem bare?_select (t : Tables) (f : FlowFilter) (priority : Option UInt16) :
    (t.select f priority).2.bare? = t.bare? := bare?_of_groups (t.groups_queryEach ..)

theorem bare?_update (t : Tables) (f : FlowFilter) (priority : Option UInt16) (s : InstructionSet)
    (flags : FlowFlags) (hasPort : PortNo → Bool) :
    (t.update f priority s flags hasPort).2.bare? = t.bare? := by
  obtain ⟨err, refused⟩ | ⟨t', given, done⟩ := t.update_cases f priority s flags hasPort
  · rw [refused, bare?_select]
  · rw [done, bare?_instructAll given, bare?_select]

theorem bare?_updateOrAdd (t : Tables) (e : FlowEntry) (cookieMask : UInt64) (strict : Bool)
    (hasPort : PortNo → Bool) :
    (t.updateOrAdd e cookieMask strict hasPort).2.bare? = t.bare? := by
  obtain refused | ⟨f, priority, -, ended⟩ := t.updateOrAdd_cases e cookieMask strict hasPort
  · rw [refused]
  obtain ⟨err, refused⟩ | ⟨ref, t', added, done⟩ | ⟨t', given, done⟩ := ended
  · rw [refused, bare?_select]
  · rw [done, bare?_add added, bare?_select]
  · rw [done, bare?_instructAll given, bare?_select]

/-! ## What changes them -/

/-- What a command that is not a pass may do to the groups. -/
inductive GroupStep (c : Command) (t t' : Tables) : Prop
  | keep (same : t'.bare? = t.bare?)
  | add (id : GroupId) (type : GroupType) (buckets : List Bucket) (hasPort : PortNo → Bool)
      (now : Time) (asked : c = .addGroup id type buckets hasPort now) (small : id ≤ GroupId.last)
      (valid : Group.validate type buckets (t.groups.known hasPort) = .ok ())
      (added : ∀ j, t'.bare? j =
        if j = id then some { type, buckets, createdAt := now } else t.bare? j)
  | update (id : GroupId) (type : GroupType) (buckets : List Bucket) (hasPort : PortNo → Bool)
      (asked : c = .updateGroup id type buckets hasPort) (small : id ≤ GroupId.last)
      (there : t.groups.contains id = true)
      (valid : Group.validate type buckets (t.groups.known hasPort) = .ok ())
      (updated : ∀ j, t'.bare? j =
        if j = id then (t.bare? j).map fun g => { g with type, buckets } else t.bare? j)
  | delete (id : GroupId) (now : Time) (asked : c = .deleteGroup id now)
      (left : ∀ j, t'.bare? j = if j ∈ t.groups.matching id then none else t.bare? j)

theorem bare?_dropGroup (t : Tables) (id : GroupId) (now : Time) (j : GroupId) :
    (t.dropGroup id now).2.bare? j = if j = id then none else t.bare? j := by
  have erased : (t.dropGroup id now).2.bare? j
      = { t with groups := t.groups.erase id : Tables }.bare? j :=
    congrFun (bare?_remove _ now _) j
  rw [erased]
  simp only [bare?, Registry.get?_erase]
  split <;> rfl

/-- Induction on the groups that are dropped. -/
theorem bare?_dropGroups (t : Tables) (now : Time) (ids : List GroupId) (j : GroupId) :
    (t.dropGroups now ids).2.bare? j = if j ∈ ids then none else t.bare? j := by
  induction ids generalizing t with
  | nil => simp [dropGroups]
  | cons id ids ih =>
    have next : (t.dropGroups now (id :: ids)).2 = ((t.dropGroup id now).2.dropGroups now ids).2 :=
      rfl
    rw [next, ih, bare?_dropGroup]
    by_cases first : j = id <;> by_cases later : j ∈ ids <;> simp [first, later]

theorem GroupStep.unlessRefused {ε : Type} {c : Command} {changed : Except ε Tables}
    (each : ∀ t', changed = .ok t' → GroupStep c t t') :
    GroupStep c t (unlessRefused t changed) := unlessRefused_of (.keep rfl) each

theorem groupStep_addGroup {id : GroupId} {type : GroupType} {buckets : List Bucket}
    {hasPort : PortNo → Bool} {now : Time} {groups : GroupTable}
    (added : t.groups.add id type buckets hasPort now = .ok groups) :
    GroupStep (.addGroup id type buckets hasPort now) t { t with groups } := by
  obtain ⟨small, -, valid, rfl⟩ := GroupTable.add_cases added
  refine .add id type buckets hasPort now rfl small valid fun j => ?_
  simp only [bare?, Registry.get?_insert]
  split <;> rfl

theorem groupStep_updateGroup {id : GroupId} {type : GroupType} {buckets : List Bucket}
    {hasPort : PortNo → Bool} {groups : GroupTable}
    (updated : t.groups.update id type buckets hasPort = .ok groups) :
    GroupStep (.updateGroup id type buckets hasPort) t { t with groups } := by
  obtain ⟨small, there, valid, rfl⟩ := GroupTable.update_cases updated
  refine .update id type buckets hasPort rfl small there valid fun j => ?_
  simp only [bare?, Registry.get?_modify]
  split
  · cases t.groups.get? j <;> rfl
  · rfl

theorem groupStep_deleteGroup {id : GroupId} {now : Time} {answer : List FlowRemoved × Tables}
    (deleted : t.deleteGroup id now = .ok answer) :
    GroupStep (.deleteGroup id now) t answer.2 := by
  unfold deleteGroup at deleted
  split at deleted
  · cases deleted
  · obtain rfl := Except.ok.inj deleted
    exact .delete id now rfl (t.bare?_dropGroups now _)

theorem bare?_deleteMeter {id : MeterId} {now : Time} {answer : List FlowRemoved × Tables}
    (deleted : t.deleteMeter id now = .ok answer) : answer.2.bare? = t.bare? := by
  unfold deleteMeter at deleted
  dsimp only [throw, throwThe, MonadExceptOf.throw] at deleted
  split at deleted
  · cases deleted
  · obtain ⟨meters, -, done⟩ := bind_eq_ok.mp deleted
    obtain rfl := Except.ok.inj done
    exact (bare?_remove ..).trans (bare?_of_groups rfl)

/-- Whether a command sends a packet through the tables. -/
def Command.isPass : Command → Bool
  | .process .. | .carryOut .. => true
  | _ => false

theorem groupStep (t : Tables) {c : Command} (still : c.isPass = false) :
    GroupStep c t (t.step c) := by
  cases c with
  | add e hasPort =>
    refine GroupStep.unlessRefused fun t' changed => ?_
    obtain ⟨⟨ref, t'⟩, added, rfl⟩ := map_eq_ok.mp changed
    exact .keep (bare?_add added)
  | update f priority s flags hasPort => exact .keep (t.bare?_update f priority s flags hasPort)
  | updateOrAdd e cookieMask strict hasPort =>
    exact .keep (t.bare?_updateOrAdd e cookieMask strict hasPort)
  | delete f priority now => exact .keep ((bare?_remove ..).trans (t.bare?_select f priority))
  | deleteByGroup id now => exact .keep (bare?_remove ..)
  | deleteByMeter id now => exact .keep (bare?_remove ..)
  | expire table now => exact .keep (bare?_remove ..)
  | classify table packet => exact .keep (t.bare?_modifyFlow ..)
  | query table q => exact .keep (bare?_of_groups (t.groups_queryEach q _))
  | flowStats f now => exact .keep (t.bare?_select f none)
  | addGroup id type buckets hasPort now =>
    refine GroupStep.unlessRefused fun t' changed => ?_
    obtain ⟨groups, added, rfl⟩ := map_eq_ok.mp changed
    exact groupStep_addGroup added
  | updateGroup id type buckets hasPort =>
    refine GroupStep.unlessRefused fun t' changed => ?_
    obtain ⟨groups, updated, rfl⟩ := map_eq_ok.mp changed
    exact groupStep_updateGroup updated
  | deleteGroup id now =>
    refine GroupStep.unlessRefused fun t' changed => ?_
    obtain ⟨answer, deleted, rfl⟩ := map_eq_ok.mp changed
    exact groupStep_deleteGroup deleted
  | addMeter id flags bands now =>
    refine GroupStep.unlessRefused fun t' changed => ?_
    obtain ⟨meters, -, rfl⟩ := map_eq_ok.mp changed
    exact .keep (bare?_of_groups rfl)
  | replaceMeter id flags bands =>
    refine GroupStep.unlessRefused fun t' changed => ?_
    obtain ⟨meters, -, rfl⟩ := map_eq_ok.mp changed
    exact .keep (bare?_of_groups rfl)
  | deleteMeter id now =>
    refine GroupStep.unlessRefused fun t' changed => ?_
    obtain ⟨answer, deleted, rfl⟩ := map_eq_ok.mp changed
    exact .keep (bare?_deleteMeter deleted)
  | process | carryOut => cases still

end Tables

end FlowSwitch
