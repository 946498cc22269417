import FlowSwitch.Proofs.Forward.Ending
import FlowSwitch.Proofs.Tables.Groups

/-!
# What groups are for

The plan of a group is its type and what its buckets do, without anything that is counted.
A command leaves the plans alone, or gives one group a plan that was checked next to the
groups that were there, or deletes groups by number. The check is made at that moment only:
what a plan names is not looked at again when groups are deleted.
-/

namespace FlowSwitch

/-- What a group does with packets. -/
structure GroupPlan where
  type : GroupType
  lists : List ActionList

namespace GroupPlan

/-- Whether a bucket names a group. -/
def Names (p : GroupPlan) (id : GroupId) : Prop := ∃ l ∈ p.lists, id ∈ l.groups

/-- Whether a group can be carried out whatever packet it gets. -/
structure Sound (p : GroupPlan) : Prop where
  type : p.type ∈ Group.features.types
  single : p.type = .indirect → p.lists.length = 1

theorem Sound.ne_fastFailover {p : GroupPlan} (sound : p.Sound) : p.type ≠ .fastFailover := by
  intro same
  have offered := sound.type
  rw [same] at offered
  exact absurd offered (by decide)

theorem of_validate {type : GroupType} {buckets : List Bucket} {known : Known}
    (valid : Group.validate type buckets known = .ok ()) :
    Sound ⟨type, buckets.map (·.actions)⟩ ∧
      ∀ id, Names ⟨type, buckets.map (·.actions)⟩ id → known.hasGroup id = true := by
  unfold Group.validate at valid
  dsimp only [throw, throwThe, MonadExceptOf.throw] at valid
  split at valid
  · cases valid
  · rename_i offered
    obtain ⟨_, each, valid⟩ := bind_eq_ok.mp valid
    refine ⟨⟨not_not.mp offered, fun single => ?_⟩, ?_⟩
    · split at valid
      · cases valid
      · rename_i many
        rw [List.length_map]
        exact not_not.mp fun other => many ⟨single, other⟩
    · rintro id ⟨l, inside, named⟩
      obtain ⟨b, bucket, rfl⟩ := List.mem_map.mp inside
      exact ActionList.hasGroup_of_validate (forM_eq_ok each b bucket) id named

end GroupPlan

def Group.plan (g : Group) : GroupPlan := ⟨g.type, g.buckets.map (·.actions)⟩

namespace Tables

/-- The plan of a group, if it is there. -/
def plan? (t : Tables) (id : GroupId) : Option GroupPlan := (t.groups.get? id).map Group.plan

variable {t t' : Tables}

theorem isSome_plan? (t : Tables) (id : GroupId) : (t.plan? id).isSome = t.groups.contains id := by
  rw [plan?, Option.isSome_map, Registry.contains_eq_isSome]

theorem contains_of_plan? {id : GroupId} {p : GroupPlan} (planned : t.plan? id = some p) :
    t.groups.contains id = true := by
  rw [← isSome_plan?, planned]
  rfl

theorem leads_iff {g h : GroupId} : t.Leads g h ↔ ∃ p, t.plan? g = some p ∧ p.Names h := by
  unfold Leads bucketLists plan?
  cases t.groups.get? g with
  | none => simp
  | some group => simp [GroupPlan.Names, Group.plan]

theorem Leads.contains {g h : GroupId} (leads : t.Leads g h) : t.groups.contains g = true := by
  obtain ⟨p, planned, -⟩ := leads_iff.mp leads
  exact contains_of_plan? planned

/-! ## What leaves the plans alone -/

theorem plan?_of_settled (same : t'.settled = t.settled) : t'.plan? = t.plan? := by
  have whole (t : Tables) : t.plan? = fun id => (t.settled.groups.get? id).map Group.plan := by
    funext id
    simp only [plan?, settled, Registry.get?_map, Option.map_map]
    congr 1
    funext g
    simp [Group.plan, Group.settled, Function.comp_def]
  rw [whole, whole, same]

/-- Plans look at nothing but the groups, their users aside. -/
theorem plan?_eq_bare? (t : Tables) (id : GroupId) : t.plan? id = (t.bare? id).map Group.plan := by
  rw [plan?, bare?, Option.map_map]
  rfl

theorem plan?_of_bare? (same : t'.bare? = t.bare?) : t'.plan? = t.plan? := by
  funext id
  rw [plan?_eq_bare?, plan?_eq_bare?, same]

/-! ## What changes them -/

/-- What a command that `deletes` groups by some numbers may do to the plans. -/
inductive PlanStep (deletes : GroupId → Prop) (t t' : Tables) : Prop
  | keep (same : t'.plan? = t.plan?)
  | install (id : GroupId) (p : GroupPlan) (small : id ≤ GroupId.last) (sound : p.Sound)
      (known : ∀ h, p.Names h → t.groups.contains h = true)
      (installed : ∀ j, t'.plan? j = if j = id then some p else t.plan? j)
  | delete (id : GroupId) (asked : deletes id)
      (left : ∀ j, t'.plan? j = if j ∈ t.groups.matching id then none else t.plan? j)

variable {deletes : GroupId → Prop}

theorem plan?_dropGroups (t : Tables) (now : Time) (ids : List GroupId) (j : GroupId) :
    (t.dropGroups now ids).2.plan? j = if j ∈ ids then none else t.plan? j := by
  rw [plan?_eq_bare?, plan?_eq_bare?, bare?_dropGroups]
  split <;> rfl

theorem GroupStep.planStep {c : Command} (step : GroupStep c t t') :
    PlanStep (fun id => ∃ now, c = .deleteGroup id now) t t' := by
  cases step with
  | keep same => exact .keep (plan?_of_bare? same)
  | add id type buckets hasPort now asked small valid added =>
    obtain ⟨sound, known⟩ := GroupPlan.of_validate valid
    refine .install id _ small sound known fun j => ?_
    rw [plan?_eq_bare?, plan?_eq_bare?, added]
    split <;> rfl
  | update id type buckets hasPort asked small there valid updated =>
    obtain ⟨sound, known⟩ := GroupPlan.of_validate valid
    refine .install id _ small sound known fun j => ?_
    rw [plan?_eq_bare?, plan?_eq_bare?, updated]
    split
    · rename_i same
      rw [← isSome_bare?, ← same] at there
      obtain ⟨g, found⟩ := Option.isSome_iff_exists.mp there
      rw [found]
      rfl
    · rfl
  | delete id now asked left =>
    refine .delete id ⟨now, asked⟩ fun j => ?_
    rw [plan?_eq_bare?, plan?_eq_bare?, left]
    split <;> rfl

theorem planStep (t : Tables) (c : Command) :
    PlanStep (fun id => ∃ now, c = .deleteGroup id now) t (t.step c) := by
  cases pass : c.isPass with
  | false => exact (t.groupStep pass).planStep
  | true =>
    cases c with
    | process s ports frame draws =>
      exact .keep (plan?_of_settled (Run.settled_process s { tables := t, ports, frame, draws }))
    | carryOut s actions ports frame draws =>
      exact .keep (plan?_of_settled
        (Run.settled_carryOut s actions { tables := t, ports, frame, draws }))
    | _ => cases pass

/-! ## Every plan -/

/-- Whether the groups can all be carried out, under numbers that groups may have. -/
def Planned (t : Tables) : Prop := ∀ id p, t.plan? id = some p → id ≤ GroupId.last ∧ p.Sound

theorem Planned.of_plan? (same : t'.plan? = t.plan?) (planned : t.Planned) : t'.Planned := by
  intro id p found
  exact planned id p (same ▸ found)

theorem PlanStep.planned (step : PlanStep deletes t t') (planned : t.Planned) : t'.Planned := by
  cases step with
  | keep same => exact planned.of_plan? same
  | install id p small sound known installed =>
    intro j q found
    rw [installed] at found
    split at found
    · rename_i same
      obtain rfl := Option.some.inj found
      exact ⟨same ▸ small, sound⟩
    · exact planned j q found
  | delete id asked left =>
    intro j q found
    rw [left] at found
    split at found
    · cases found
    · exact planned j q found

theorem planned_empty (capacity : Nat) : (empty capacity).Planned := by
  intro id p found
  cases found

theorem Planned.run (planned : t.Planned) (cs : List Command) : (t.run cs).Planned := by
  induction cs generalizing t with
  | nil => exact planned
  | cons c cs ih => exact ih ((t.planStep c).planned planned)

end Tables

end FlowSwitch
