import FlowSwitch.Proofs.Switch.MeterUses
import FlowSwitch.Proofs.Tables.Plans

/-!
# Groups that name groups

A bucket comes to name a group while that group is there. Deleting a group by its number
does not look at the buckets, so that those of other groups may go on naming it; nothing
else leaves a name without its group, the deletion of all groups included.
-/

namespace FlowSwitch

namespace Tables

/-- Whether every group that a bucket names is there. -/
def Closed (t : Tables) : Prop := ∀ g h, t.Leads g h → t.groups.contains h = true

theorem closed_of_keys {t : Tables} (known : (t.groups.keys.all fun g =>
    (t.bucketLists g).all fun l => l.groups.all t.groups.contains) = true) : t.Closed := by
  intro g h leads
  have there := Registry.contains_iff_mem_keys.mp leads.contains
  obtain ⟨l, inside, named⟩ := leads
  simp only [List.all_eq_true] at known
  exact known g there l inside h named

end Tables

namespace Switch

/-- Whether a command is to delete the groups that a number stands for. -/
def Deletes (sw : Switch) (c : Command) (id : GroupId) : Prop :=
  ∃ now, sw.tableCommand? c = some (.deleteGroup id now)

variable {sw : Switch} {c : Command} {cs : List Command} {g h : GroupId}

theorem planStep (sw : Switch) (c : Command) :
    Tables.PlanStep (sw.Deletes c) sw.tables (sw.step c).tables := by
  rw [step_tables]
  cases reached : sw.tableCommand? c with
  | none => exact .keep rfl
  | some d =>
    have step : Tables.PlanStep _ sw.tables (sw.tables.step d) := sw.tables.planStep d
    cases step with
    | keep same => exact .keep same
    | install id p small sound known installed => exact .install id p small sound known installed
    | delete id asked left =>
      obtain ⟨now, rfl⟩ := asked
      exact .delete id ⟨now, reached⟩ left

theorem planned_run (planned : sw.tables.Planned) (cs : List Command) :
    (sw.run cs).tables.Planned := by
  rw [run_tables]
  exact planned.run _

end Switch

namespace Tables

variable {t t' : Tables} {deletes : GroupId → Prop} {g h : GroupId}

theorem contains_of_plan?_eq (same : t'.plan? h = t.plan? h) :
    t'.groups.contains h = t.groups.contains h := by
  rw [← isSome_plan?, ← isSome_plan?, same]

/-- A bucket that comes to name a group does so while that group is there. -/
theorem PlanStep.gains (step : PlanStep deletes t t') (before : ¬ t.Leads g h)
    (after : t'.Leads g h) : t.groups.contains h = true ∧ t'.groups.contains h = true := by
  obtain ⟨p, planned, named⟩ := leads_iff.mp after
  have stays (same : t'.plan? g = t.plan? g) : False :=
    before (leads_iff.mpr ⟨p, same ▸ planned, named⟩)
  cases step with
  | keep same => exact (stays (congrFun same g)).elim
  | install id q small sound known installed =>
    by_cases one : g = id
    · subst one
      have same : q = p :=
        Option.some.inj ((if_pos rfl).symm.trans ((installed g).symm.trans planned))
      have there := known h (same ▸ named)
      refine ⟨there, ?_⟩
      rw [← isSome_plan?, installed]
      split
      · rfl
      · rwa [isSome_plan?]
    · exact (stays ((installed g).trans (if_neg one))).elim
  | delete id asked left =>
    rw [left] at planned
    split at planned
    · cases planned
    · exact (before (leads_iff.mpr ⟨p, planned, named⟩)).elim

/-- A bucket comes to name a group that is not there if and only if that group is deleted by its
number. -/
theorem PlanStep.loses (step : PlanStep deletes t t') (after : t'.Leads g h)
    (missing : t'.groups.contains h = false) :
    t.Leads g h ∧ (t.groups.contains h = false ∨ deletes h) := by
  have before : t.Leads g h := by
    by_contra new
    rw [(step.gains new after).2] at missing
    cases missing
  refine ⟨before, ?_⟩
  cases there : t.groups.contains h with
  | false => exact .inl rfl
  | true =>
    right
    cases step with
    | keep same =>
      rw [contains_of_plan?_eq (congrFun same h), there] at missing
      cases missing
    | install id q small sound known installed =>
      rw [← isSome_plan?, installed] at missing
      split at missing
      · cases missing
      · rw [isSome_plan?, there] at missing
        cases missing
    | delete id asked left =>
      rw [← isSome_plan?, left] at missing
      split at missing
      · rename_i among
        rcases (GroupTable.mem_matching.mp among).2 with all | rfl
        · -- then the group with the bucket would have gone as well
          have inside : g ∈ t.groups.matching id :=
            GroupTable.mem_matching.mpr ⟨before.contains, .inl all⟩
          have gone := after.contains
          rw [← isSome_plan?, left, if_pos inside] at gone
          cases gone
        · exact asked
      · rw [isSome_plan?, there] at missing
        cases missing

end Tables

namespace Switch

variable {sw : Switch} {c : Command} {cs : List Command} {g h : GroupId}

/-- Deleting a group by its number leaves the buckets of other groups. -/
theorem orphans_of_deletes (planned : sw.tables.Planned) (asked : sw.Deletes c h)
    (leads : sw.tables.Leads g h) (there : sw.tables.groups.contains h = true) (others : g ≠ h) :
    (sw.step c).tables.Leads g h ∧ (sw.step c).tables.groups.contains h = false := by
  obtain ⟨now, reached⟩ := asked
  have small : h ≤ GroupId.last := by
    rw [← Tables.isSome_plan?] at there
    obtain ⟨p, found⟩ := Option.isSome_iff_exists.mp there
    exact (planned h p found).1
  have one : h ≠ GroupId.all := by
    rintro rfl
    exact absurd small (by decide)
  have done : sw.tables.deleteGroup h now
      = .ok (sw.tables.dropGroups now (sw.tables.groups.matching h)) := by
    have within : ¬ h > GroupId.last := UInt32.not_lt.mpr small
    rw [Tables.deleteGroup, if_neg (by simp [within])]
  have tables :
      (sw.step c).tables = (sw.tables.dropGroups now (sw.tables.groups.matching h)).2 := by
    rw [step_tables, reached]
    show unlessRefused sw.tables ((sw.tables.deleteGroup h now).map (·.2)) = _
    rw [done]
    rfl
  have only {j : GroupId} (among : j ∈ sw.tables.groups.matching h) : j = h :=
    (GroupTable.mem_matching.mp among).2.resolve_left one
  have itself : h ∈ sw.tables.groups.matching h :=
    GroupTable.mem_matching.mpr ⟨there, .inr rfl⟩
  obtain ⟨p, found, named⟩ := Tables.leads_iff.mp leads
  constructor
  · refine Tables.leads_iff.mpr ⟨p, ?_, named⟩
    rw [tables, Tables.plan?_dropGroups, if_neg fun among => others (only among), found]
  · rw [← Tables.isSome_plan?, tables, Tables.plan?_dropGroups, if_pos itself]
    rfl

/-- Whether one of some commands deleted a group by its number while a bucket of another one named
it, and nothing has brought it back or changed that bucket since. -/
def Orphaned (sw : Switch) (cs : List Command) (g h : GroupId) : Prop :=
  ∃ p c q, cs = p ++ c :: q ∧ (sw.run p).Deletes c h ∧ (sw.run p).tables.Leads g h ∧
    (sw.run p).tables.groups.contains h = true ∧
    ∀ r, r <+: q → (sw.run (p ++ c :: r)).tables.Leads g h ∧
      (sw.run (p ++ c :: r)).tables.groups.contains h = false

theorem Orphaned.dangles (orphaned : sw.Orphaned cs g h) :
    (sw.run cs).tables.Leads g h ∧ (sw.run cs).tables.groups.contains h = false := by
  obtain ⟨p, c, q, rfl, -, -, -, since⟩ := orphaned
  exact since q (List.prefix_refl q)

theorem Orphaned.append (orphaned : sw.Orphaned cs g h) (c : Command)
    (leads : (sw.run (cs ++ [c])).tables.Leads g h)
    (missing : (sw.run (cs ++ [c])).tables.groups.contains h = false) :
    sw.Orphaned (cs ++ [c]) g h := by
  obtain ⟨p, d, q, rfl, asked, before, there, since⟩ := orphaned
  refine ⟨p, d, q ++ [c], by simp, asked, before, there, fun r part => ?_⟩
  rcases List.prefix_concat_iff.mp part with rfl | earlier
  · have whole : p ++ d :: (q ++ [c]) = (p ++ d :: q) ++ [c] := by simp
    rw [whole]
    exact ⟨leads, missing⟩
  · exact since r earlier

/-- Induction on the commands from the last one on. -/
theorem orphaned_of_dangles (start : sw.tables.Closed) (leads : (sw.run cs).tables.Leads g h)
    (missing : (sw.run cs).tables.groups.contains h = false) : sw.Orphaned cs g h := by
  induction cs using List.reverseRecOn with
  | nil =>
    have there : (sw.run []).tables.groups.contains h = true := start g h leads
    rw [there] at missing
    cases missing
  | append_singleton cs c ih =>
    have last : (sw.run (cs ++ [c])) = (sw.run cs).step c := run_append sw cs [c]
    have leads' := leads
    have missing' := missing
    rw [last] at leads' missing'
    obtain ⟨before, already | asked⟩ := ((sw.run cs).planStep c).loses leads' missing'
    · exact (ih before already).append c leads missing
    · cases there : (sw.run cs).tables.groups.contains h with
      | false => exact (ih before there).append c leads missing
      | true =>
        refine ⟨cs, c, [], rfl, asked, before, there, fun r part => ?_⟩
        obtain rfl := List.prefix_nil.mp part
        exact ⟨leads, missing⟩

/-- What is known of the groups that buckets name, while a switch goes on. -/
structure Chained (sw : Switch) (cs : List Command) : Prop where
  /-- A bucket comes to name only groups that are there. -/
  installed : ∀ p c, p ++ [c] <+: cs → ∀ g h, ¬ (sw.run p).tables.Leads g h →
    (sw.run (p ++ [c])).tables.Leads g h → (sw.run p).tables.groups.contains h = true ∧
      (sw.run (p ++ [c])).tables.groups.contains h = true
  /-- A bucket names a group that is not there if and only if that one was deleted by its number
  from under the bucket. -/
  dangling : ∀ g h, (sw.run cs).tables.Leads g h ∧ (sw.run cs).tables.groups.contains h = false ↔
    sw.Orphaned cs g h
  /-- No name is ever without its group if and only if no group is deleted by its number while a
  bucket of another one names it. -/
  closed : (∀ p, p <+: cs → (sw.run p).tables.Closed) ↔
    ∀ p c, p ++ [c] <+: cs → ∀ g h, (sw.run p).Deletes c h → (sw.run p).tables.Leads g h →
      (sw.run p).tables.groups.contains h = true → g = h
  /-- The numbers that groups have are not the one that stands for all of them. -/
  numbers : ∀ id, (sw.run cs).tables.groups.contains id = true → id ≠ GroupId.all

theorem chained (planned : sw.tables.Planned) (start : sw.tables.Closed) : sw.Chained cs := by
  have next (p : List Command) (c : Command) : sw.run (p ++ [c]) = (sw.run p).step c :=
    run_append sw p [c]
  constructor
  · intro p c _ g h before after
    rw [next] at after ⊢
    exact ((sw.run p).planStep c).gains before after
  · intro g h
    exact ⟨fun ⟨leads, missing⟩ => orphaned_of_dangles start leads missing, Orphaned.dangles⟩
  · constructor
    · intro always p c part g h asked leads there
      by_contra others
      obtain ⟨stays, missing⟩ := orphans_of_deletes (planned_run planned p) asked leads there others
      rw [← next] at stays missing
      rw [always (p ++ [c]) part g h stays] at missing
      cases missing
    · intro careful p part g h leads
      by_contra missing
      obtain ⟨q, c, r, rfl, asked, before, there, since⟩ :=
        orphaned_of_dangles start leads (Bool.eq_false_iff.mpr missing)
      have early : q ++ [c] <+: q ++ c :: r := ⟨r, by simp⟩
      have same := careful q c (early.trans part) g h asked before there
      subst same
      obtain ⟨left, gone⟩ := since [] List.nil_prefix
      rw [left.contains] at gone
      cases gone
  · intro id there
    rw [← Tables.isSome_plan?] at there
    obtain ⟨p, found⟩ := Option.isSome_iff_exists.mp there
    rintro rfl
    exact absurd (planned_run planned cs GroupId.all p found).1 (by decide)

/-- However a switch got where it is, refused commands included, a bucket that names a group which
is not there has come to do so by the deletion of that very group, and in no other way. -/
theorem run_chained {config : Config} {selection : Selection} {sw : Switch}
    (created : create config selection = .ok sw) (cs : List Command) : sw.Chained cs := by
  have empty : sw.tables = .empty config.maxFlowEntries := tables_create created
  have planned : sw.tables.Planned := empty ▸ Tables.planned_empty config.maxFlowEntries
  have start : sw.tables.Closed := by
    intro g h leads
    rw [empty] at leads
    cases leads.contains
  exact chained planned start

/-- A group is named by a bucket of another one and deleted. -/
def orphaned : List Command :=
  [.addGroup 7 .all [] 0, .addGroup 8 .indirect [{ actions := ⟨[.group 7], by decide⟩ }] 0,
    .deleteGroup 7 0]

theorem dangles_orphaned : (fresh.run orphaned).tables.Leads 8 7 ∧
    (fresh.run orphaned).tables.groups.contains 7 = false :=
  ⟨⟨⟨[.group 7], by decide⟩, by decide +kernel, by decide⟩, by decide +kernel⟩

/-- It is missing until it is added again, or until all groups are deleted. -/
theorem run_chained_orphaned :
    create {} fresh.selection = .ok fresh ∧ fresh.Chained orphaned ∧ fresh.Orphaned orphaned 8 7 ∧
      (fresh.run (orphaned ++ [.addGroup 7 .all [] 0])).tables.Closed ∧
      (fresh.run (orphaned ++ [.deleteGroup GroupId.all 0])).tables.Closed := by
  have created : create {} fresh.selection = .ok fresh := rfl
  have chained := run_chained created orphaned
  exact ⟨created, chained, (chained.dangling 8 7).mp dangles_orphaned,
    Tables.closed_of_keys (by decide +kernel), Tables.closed_of_keys (by decide +kernel)⟩

/-- Buckets do not always name groups that are there. -/
theorem not_closed_orphaned :
    ¬ ∀ (config : Config) (selection : Selection) (sw : Switch), create config selection = .ok sw →
      ∀ cs, (sw.run cs).tables.Closed := by
  intro always
  obtain ⟨leads, missing⟩ := dangles_orphaned
  have there := always {} fresh.selection fresh rfl orphaned 8 7 leads
  rw [missing] at there
  cases there

end Switch

end FlowSwitch
