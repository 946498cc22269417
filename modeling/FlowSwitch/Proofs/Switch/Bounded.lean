import FlowSwitch.Proofs.Forward.Ending
import FlowSwitch.Proofs.Forward.Record
import FlowSwitch.Proofs.Forward.View
import FlowSwitch.Proofs.Switch.References

/-!
# How much a packet can cause

Processing a packet ends if no group leads back to itself: the chains of groups are no
longer than there are groups, each walk looks into each table at most once, and walks are
nested eight deep at most.
-/

namespace FlowSwitch

namespace Run

/-- Sends a copy of the frame through the tables in a walk that is nested `level` deep in the first
one, unless that is too deep. At most `rounds` walks are begun one in another. -/
def reinject (s : Setting) : (rounds level : Nat) → Run Unit
  | 0, _ => throw .endless
  | rounds + 1, level =>
    if 8 ≤ level then refuse .failed
    else
      onCopy do
        changeContext ({ · with metadata := 0 })
        walk s (reinject s rounds (level + 1)) 0 .empty

/-- Nine rounds are enough from the first walk on. Induction on the rounds. -/
theorem reinject_eq (s : Setting) {rounds level : Nat} (enough : 8 - level < rounds) :
    reinject s rounds level = resubmit s (8 - level) := by
  induction rounds generalizing level with
  | zero => omega
  | succ rounds ih =>
    by_cases deep : 8 ≤ level
    · have none : 8 - level = 0 := by omega
      rw [reinject, if_pos deep, none]
      rfl
    · obtain ⟨left, room⟩ : ∃ left, 8 - level = left + 1 := ⟨7 - level, by omega⟩
      have next : 8 - (level + 1) = left := by omega
      rw [reinject, if_neg deep, ih (by omega), room, next]
      rfl

/-- What bounds the processing of packets over some tables, whatever has been counted in them. -/
structure Bounded (t : Tables) (s : Setting) : Prop where
  ends : ∀ p, p.tables.settled = t.settled → ((process s).on p).1 ≠ .error .endless
  endsOut : ∀ actions p, p.tables.settled = t.settled →
    ((carryOut s actions).on p).1 ≠ .error .endless
  /-- It is enough to enter as many groups one from another as there are groups. -/
  chain : ∀ depth origin n a p, p.tables.settled = t.settled → t.groups.size ≤ n →
    (perform s (resubmit s depth) origin n a).on p
      = (execute s (resubmit s depth) origin a).on p
  /-- The lookups that a walk makes itself, which show when the walks inside it are not recorded,
  go up from table to table. -/
  own : ∀ depth p, p.tables.settled = t.settled →
    ∃ made, ((walk s (unrecorded (resubmit s depth)) 0 .empty).on p).2.lookups = p.lookups ++ made ∧
      (made.map (·.table)).Pairwise (· < ·) ∧ made.length ≤ 255
  /-- Walks do the same whether the walks inside them are recorded or not. -/
  same : ∀ depth p,
    ((walk s (unrecorded (resubmit s depth)) 0 .empty).on p).1
        = ((walk s (resubmit s depth) 0 .empty).on p).1 ∧
      ((walk s (unrecorded (resubmit s depth)) 0 .empty).on p).2.unrecorded
        = ((walk s (resubmit s depth) 0 .empty).on p).2.unrecorded
  nested : ∀ rounds level, 8 - level < rounds → reinject s rounds level = resubmit s (8 - level)

section Bounds

variable {t : Tables} {s : Setting} {p : Pass}

theorem Bond.Leaves.ends {r r' : Except Halt Unit × Pass}
    (left : (steady t).Leaves (fun _ => True) r r') : r = r' ∧ r.1 ≠ .error .endless := by
  cases left with
  | ok _ here =>
    obtain ⟨rfl, -⟩ := here
    exact ⟨rfl, nofun⟩
  | error here =>
    obtain ⟨rfl, rfl, refused⟩ := here
    refine ⟨rfl, fun ended => refused ?_⟩
    exact Except.error.inj ended

theorem Bond.Leaves.same {r r' : Except Halt Unit × Pass}
    (left : echo.Leaves (fun _ => True) r r') : r'.1 = r.1 ∧ r'.2.unrecorded = r.2.unrecorded := by
  cases left with
  | ok _ here => exact ⟨rfl, here.symm⟩
  | error here =>
    obtain ⟨rfl, same⟩ := here
    exact ⟨rfl, same.symm⟩

theorem bounded_of_acyclic (acyclic : t.Acyclic) (onward : t.Onward) (s : Setting) :
    Bounded t s := by
  have steps := lockstep_steady acyclic s
  have room (p : Pass) (settled : p.tables.settled = t.settled) :
      t.groups.size ≤ maxChain p.tables.groups := by
    rw [maxChain, Tables.size_groups_of_settled settled]
    omega
  constructor
  case ends => exact fun p settled => (steps.process p p ⟨rfl, settled⟩).ends.2
  case endsOut =>
    intro actions p settled
    refine (steps.carryOut actions ?_ p p ⟨rfl, settled⟩).ends.2
    rintro a - q _ ⟨rfl, held⟩
    exact ⟨Tables.fits_of_size_le (room q held), Tables.fits_of_size_le (room q held)⟩
  case chain =>
    intro depth origin n a p settled enough
    rw [on_execute]
    have fits := And.intro (Tables.fits_of_size_le enough : t.Fits n a)
      (Tables.fits_of_size_le (room p settled) : t.Fits _ a)
    exact (steps.perform (steps.resubmit depth) origin _ _ a fits p p ⟨rfl, settled⟩).ends.1
  case own =>
    intro depth p settled
    obtain ⟨made, recorded, climbs⟩ :=
      climbs_walk onward (keepsRecord_resubmit s depth) 0 .empty (by decide) p settled
    exact ⟨made, recorded, climbs.sorted, climbs.length⟩
  case same =>
    intro depth p
    have steps := lockstep_echo s
    have kept := steps.walk (echo_unrecorded (steps.resubmit depth)) 0 .empty ActionSet.all_empty
    exact (kept p p rfl).same
  case nested => exact fun rounds level enough => reinject_eq s enough

end Bounds

end Run

namespace Tables

/-- Groups that name only groups of lower numbers do not lead back to themselves. -/
theorem acyclic_of_lower {t : Tables}
    (lower : (t.groups.entries.all fun e =>
      e.2.buckets.all (·.actions.groups.all (· < e.1))) = true) : t.Acyclic := by
  have step {g h : GroupId} (leads : t.Leads g h) : h < g := by
    obtain ⟨l, inside, named⟩ := leads
    unfold bucketLists at inside
    cases found : t.groups.get? g with
    | none => simp [found] at inside
    | some group =>
      simp only [found, Option.map_some, Option.getD_some] at inside
      obtain ⟨b, among, rfl⟩ := List.mem_map.mp inside
      obtain ⟨e, here, rfl⟩ := Option.map_eq_some_iff.mp found
      have key : e.1 = g := by simpa using List.find?_some here
      have group := List.all_eq_true.mp lower e (List.mem_of_find?_eq_some here)
      have bucket := List.all_eq_true.mp group b among
      exact key ▸ of_decide_eq_true (List.all_eq_true.mp bucket h named)
  intro g round
  have below : ∀ {h}, Relation.TransGen t.Leads g h → h < g := by
    intro h path
    induction path with
    | single leads => exact step leads
    | tail _ leads ih => exact UInt32.lt_trans (step leads) ih
  exact UInt32.lt_irrefl g (below round)

end Tables

namespace Switch

open Run

variable {sw : Switch}

theorem ends_pass {g : Frame} {now : Time} (bounded : ∀ s, Bounded sw.tables s) :
    (sw.pass now g process).1 ≠ .error .endless ∧
      ∀ actions, (sw.pass now g fun s => Run.carryOut s actions).1 ≠ .error .endless :=
  ⟨(bounded _).ends (sw.start g) rfl, fun actions => (bounded _).endsOut actions (sw.start g) rfl⟩

theorem refused_of_prepare {f : Frame} {port : Option PortNo} {h : Halt}
    (failed : prepare f port = .error h) : h ≠ .endless := by
  unfold prepare at failed
  split at failed
  · obtain rfl := Except.error.inj failed
    exact nofun
  · cases failed

theorem ends_handle (bounded : ∀ s, Bounded sw.tables s) (port : PortNo) (f : Frame) (now : Time)
    (busy : Bool) : (sw.handle port f now busy).1 ≠ .error .endless := by
  unfold handle
  cases prepared : prepare f (some port) with
  | error h => exact fun ended => refused_of_prepare prepared (Except.error.inj ended)
  | ok g =>
    cases busy with
    | true => exact nofun
    | false =>
      simp only [Bool.false_eq_true, if_false]
      split
      · exact nofun
      · exact (ends_pass bounded).1

theorem ends_receive (bounded : ∀ s, Bounded sw.tables s) (port : PortNo) (f : Frame) (now : Time)
    (busy : Bool) : (sw.receive port f now busy).1 ≠ .error .endless := by
  unfold receive
  split
  · exact nofun
  · exact ends_handle bounded port (arriving f) now busy

theorem ends_packetOut (bounded : ∀ s, Bounded sw.tables s) (buffer : UInt32) (port : PortNo)
    (actions : ActionList) (f : Option Frame) (now : Time) :
    (sw.packetOut buffer port actions f now).1 ≠ .error .endless := by
  unfold packetOut
  cases found : sw.packetFor buffer f with
  | error h =>
    unfold packetFor at found
    split at found
    all_goals
      split at found
      · cases found
      · obtain rfl := Except.error.inj found
        exact nofun
  | ok answer =>
    have tables : answer.2.tables = sw.tables := tables_packetFor found
    cases prepared : prepare answer.1 (if port.isSource then some port else none) with
    | error h =>
      simp only [prepared]
      exact fun ended => refused_of_prepare prepared (Except.error.inj ended)
    | ok g =>
      simp only [prepared]
      have there : ∀ s, Bounded answer.2.tables s := tables ▸ bounded
      exact (ends_pass there).2 actions

/-- However a switch got where it is, if no group leads back to itself, then frames and packets of
the controller are processed to an end, within the bounds on groups, lookups and nested walks. -/
theorem run_bounded {config : Config} {selection : Selection} {sw : Switch}
    (created : create config selection = .ok sw) (cs : List Command)
    (acyclic : (sw.run cs).tables.Acyclic) :
    (∀ s, Bounded (sw.run cs).tables s) ∧
      (∀ port f now busy, ((sw.run cs).handle port f now busy).1 ≠ .error .endless) ∧
      (∀ port f now busy, ((sw.run cs).receive port f now busy).1 ≠ .error .endless) ∧
      ∀ buffer port actions f now,
        ((sw.run cs).packetOut buffer port actions f now).1 ≠ .error .endless := by
  have onward : (sw.run cs).tables.Onward := by
    rw [run_tables, tables_create created]
    exact Tables.onward_run config.maxFlowEntries (sw.tableCommands cs)
  have bounded := bounded_of_acyclic acyclic onward
  exact ⟨bounded, ends_handle bounded, ends_receive bounded, ends_packetOut bounded⟩

/-- A group that leads to another one, and an entry that sends packets to it, back to the first
table and on to the next. -/
def twoRounds : List Command :=
  let again : FlowEntry := { groupEntry 0 2 with
    instructions := {
      gotoTable := some 1
      applyActions := some ⟨[.group 2, .output PortNo.table 0], by decide⟩ } }
  [.addGroup 1 .all [] 0, .addGroup 2 .all [{ actions := ⟨[.group 1], by decide⟩ }] 0,
    .addFlow again]

theorem run_bounded_twoRounds :
    create {} fresh.selection = .ok fresh ∧ (fresh.run twoRounds).tables.Acyclic ∧
      (∀ s, Bounded (fresh.run twoRounds).tables s) ∧
      ((fresh.run twoRounds).tables.groups.size, (fresh.run twoRounds).tables.entries.length)
        = (2, 1) ∧
      ((fresh.run twoRounds).handle 1 (arriving blank) 0).1 = .error (.refused .failed) := by
  have created : create {} fresh.selection = .ok fresh := rfl
  have acyclic : (fresh.run twoRounds).tables.Acyclic :=
    Tables.acyclic_of_lower (by decide +kernel)
  obtain ⟨bounded, -⟩ := run_bounded created twoRounds acyclic
  exact ⟨created, acyclic, bounded, by decide +kernel, by decide +kernel⟩

end Switch

end FlowSwitch
