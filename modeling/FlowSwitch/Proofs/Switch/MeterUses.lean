import FlowSwitch.Proofs.Switch.References
import FlowSwitch.Proofs.Tables.MeterUses
import Mathlib.Data.List.Induction

/-!
# Users of meters in a switch

A meter never counts more entries than name it. It counts fewer after it was added while
entries named it, and the count is right again when there was a moment without such entries.
-/

namespace FlowSwitch

namespace Tables

theorem mem_history_append {t m : Tables} {cs ds : List Command} :
    m ∈ t.history (cs ++ ds) ↔ m ∈ t.history cs ∨ m ∈ (t.run cs).history ds := by
  induction cs generalizing t with
  | nil =>
    simp only [List.nil_append, history, List.mem_singleton, run, List.foldl_nil]
    constructor
    · exact .inr
    · rintro (rfl | later)
      · exact mem_history_self ..
      · exact later
  | cons c cs ih =>
    have next : t.run (c :: cs) = (t.step c).run cs := rfl
    rw [List.cons_append, history, history, List.mem_append, List.mem_append, ih, next, or_assoc]

end Tables

namespace Switch

open MeterTally

variable {sw : Switch} {id : MeterId} {cs ds : List Command}

theorem run_append (sw : Switch) (cs ds : List Command) :
    sw.run (cs ++ ds) = (sw.run cs).run ds := List.foldl_append

theorem tableCommands_append (sw : Switch) (cs ds : List Command) :
    sw.tableCommands (cs ++ ds) = sw.tableCommands cs ++ (sw.run cs).tableCommands ds := by
  induction cs generalizing sw with
  | nil => rfl
  | cons c cs ih =>
    simp only [List.cons_append, tableCommands, ih, List.append_assoc]
    rfl

/-- Whether the entries of the tables stay few enough to be counted while commands are carried
out. -/
def Countable (sw : Switch) (cs : List Command) : Prop :=
  ∀ t ∈ sw.tables.history (sw.tableCommands cs), t.entries.length < UInt32.size

theorem countable_append :
    sw.Countable (cs ++ ds) ↔ sw.Countable cs ∧ (sw.run cs).Countable ds := by
  simp only [Countable, tableCommands_append, Tables.mem_history_append, or_imp, forall_and,
    run_tables]

theorem Countable.of_start (small : sw.Countable cs) (part : ds <+: cs) : sw.Countable ds := by
  obtain ⟨rest, rfl⟩ := part
  exact (countable_append.mp small).1

/-- The users of a meter in the tables. -/
def tally (sw : Switch) (id : MeterId) : MeterTally := sw.tables.tally id

theorem Countable.named_le (small : sw.Countable cs) (id : MeterId) :
    ((sw.run cs).tally id).named ≤ UseCount.limit := by
  have ends : (sw.run cs).tables ∈ sw.tables.history (sw.tableCommands cs) := by
    rw [← List.append_nil (sw.tableCommands cs), Tables.mem_history_append, ← run_tables]
    exact .inr (Tables.mem_history_self _ [])
  exact Tables.named_le (small _ ends) id

/-- What a switch does lets entries come and go, or takes the meter away, or lets it begin. -/
theorem step_course {c : Command} (small : sw.Countable [c]) (id : MeterId) :
    Course (sw.tally id) ((sw.step c).tally id) ∨ (sw.tally id).Begins ((sw.step c).tally id) := by
  unfold tally
  rw [step_tables]
  cases reached : sw.tableCommand? c with
  | none => exact .inl .refl
  | some d =>
    refine sw.tables.step_course d id fun m passed => ?_
    have among : m ∈ sw.tables.history (sw.tableCommands [c]) := by
      simp only [tableCommands, reached, Option.toList_some, List.append_nil, Tables.history]
      rcases passed with between | rfl
      · simp [between]
      · simp
    exact Tables.named_le (small m among) id

theorem begins_of_gains {c : Command} (small : sw.Countable [c])
    (gains : (sw.tally id).Gains ((sw.step c).tally id)) :
    (sw.tally id).Begins ((sw.step c).tally id) := by
  rcases step_course small id with course | begins
  · exact absurd (course.absent gains.absent) gains.present
  · exact begins

/-- A meter leaves out `d` entries at most if never more than that named it when it was added.
Induction on the commands from the last one on. -/
theorem run_misses {d : Nat} (small : sw.Countable cs) (start : (sw.tally id).Misses d)
    (early : ∀ p c, p ++ [c] <+: cs → ((sw.run p).tally id).Gains ((sw.run (p ++ [c])).tally id) →
      ((sw.run p).tally id).named ≤ d) : ((sw.run cs).tally id).Misses d := by
  induction cs using List.reverseRecOn with
  | nil => exact start
  | append_singleton cs c ih =>
    obtain ⟨before, last⟩ := countable_append.mp small
    have earlier := ih before fun p c' part =>
      early p c' (part.trans (List.prefix_append cs [c]))
    have here := early cs c (List.prefix_refl _)
    rw [run_append] at here ⊢
    rcases step_course last id with course | begins
    · exact course.misses earlier
    · exact begins.misses (here begins.gains)

/-- What a meter counts while a switch goes on. -/
structure CountsUsers (sw : Switch) (id : MeterId) (cs : List Command) : Prop where
  /-- Its statistics tell what it counts. -/
  told : id ≠ MeterId.all → ∀ now l, (sw.run cs).tables.meters.stats id now = .ok l →
    l.map (·.flows) = ((sw.run cs).tally id).count.toList
  /-- It counts no more entries than those that name it. -/
  atMost : ∀ n, ((sw.run cs).tally id).count = some n → n ≤ ((sw.run cs).tally id).named
  /-- When it is added it counts none, whatever names it. -/
  added : ∀ p c, p ++ [c] <+: cs →
    ((sw.run p).tally id).Gains ((sw.run (p ++ [c])).tally id) →
    ((sw.run (p ++ [c])).tally id).count = some 0
  /-- It leaves out no more entries than named it at first or when it was added. -/
  atLeast : ∀ d, (sw.tally id).named ≤ d →
    (∀ p c, p ++ [c] <+: cs → ((sw.run p).tally id).Gains ((sw.run (p ++ [c])).tally id) →
      ((sw.run p).tally id).named ≤ d) →
    ∀ n, ((sw.run cs).tally id).count = some n → ((sw.run cs).tally id).named ≤ n + d
  /-- From a moment on when none names it, it counts them all if and only if it is never added
  while entries name it. -/
  exactly : (sw.tally id).named = 0 →
    ((∀ p, p <+: cs → ((sw.run p).tally id).Exact) ↔
      ∀ p c, p ++ [c] <+: cs → ((sw.run p).tally id).Gains ((sw.run (p ++ [c])).tally id) →
        ((sw.run p).tally id).named = 0)

theorem countsUsers (small : sw.Countable cs)
    (start : ∀ n, (sw.tally id).count = some n → n ≤ (sw.tally id).named) :
    sw.CountsUsers id cs := by
  have begun {d : Nat} (few : (sw.tally id).named ≤ d) : (sw.tally id).Misses d := by
    intro n counted
    exact ⟨start n counted, Nat.le_trans few (Nat.le_add_left d n)⟩
  have counted {p : List Command} (part : p <+: cs) : sw.Countable p := small.of_start part
  have begins {p : List Command} {c : Command} (part : p ++ [c] <+: cs)
      (gains : ((sw.run p).tally id).Gains ((sw.run (p ++ [c])).tally id)) :
      ((sw.run p).tally id).Begins ((sw.run (p ++ [c])).tally id) := by
    obtain ⟨-, last⟩ := countable_append.mp (counted part)
    rw [run_append] at gains ⊢
    exact begins_of_gains last gains
  constructor
  · intro one now l told
    exact MeterTable.flows_of_stats one told
  · intro n held
    have whole : ((sw.run cs).tally id).Misses UseCount.limit :=
      run_misses small (begun ((counted List.nil_prefix).named_le id)) fun p c part _ =>
        (counted ((List.prefix_append p [c]).trans part)).named_le id
    exact (whole n held).1
  · intro p c part gains
    exact (begins part gains).none
  · intro d few early n held
    exact (run_misses small (begun few) early n held).2
  · intro unnamed
    constructor
    · intro right p c part gains
      have begins := begins part gains
      rw [← begins.named]
      exact (right (p ++ [c]) part 0 begins.none).symm
    · intro early p part
      refine exact_of_misses (run_misses (counted part) (begun (Nat.le_of_eq unnamed)) ?_)
      intro q c inside gains
      exact Nat.le_of_eq (early q c (inside.trans part) gains)

/-- However a switch got where it is, refused commands included, what its meters count from there
on is told by the entries that name them and by when the meters were added. This holds while there
are fewer entries than can be counted. -/
theorem run_countsUsers {config : Config} {selection : Selection} {sw : Switch}
    (created : create config selection = .ok sw) (before after : List Command)
    (small : sw.Countable (before ++ after)) (id : MeterId) :
    (sw.run before).CountsUsers id after := by
  obtain ⟨earlier, later⟩ := countable_append.mp small
  have empty : (sw.tally id).count = none := by
    rw [tally, tables_create created]
    rfl
  have start : ∀ n, (sw.tally id).count = some n → n ≤ (sw.tally id).named := by
    intro n counted
    rw [empty] at counted
    cases counted
  exact countsUsers later (countsUsers earlier start).atMost

/-- An entry that has every packet of the first table measured. -/
def meterEntry (meter : MeterId) : FlowEntry where
  ref := ⟨0, 0⟩
  priority := 1
  selector := Match.any
  instructions := { meter := some meter }
  createdAt := 0
  lastSeen := 0

/-- An entry names a meter that is added after it. -/
def lateMeter : List Command :=
  [.addFlow (meterEntry 1), .addMeter 1 { packets := true } [⟨.drop, 1, 0, 0⟩] 0]

/-- The entry that came before its meter goes. -/
def clearedMeter : List Command := lateMeter ++ [.deleteFlows { table := 0 } none 0]

/-- The next entry is counted. -/
theorem run_countsUsers_clearedMeter :
    create {} fresh.selection = .ok fresh ∧
      fresh.Countable (clearedMeter ++ [.addFlow (meterEntry 1)]) ∧
      (fresh.run clearedMeter).CountsUsers 1 [.addFlow (meterEntry 1)] ∧
      ((fresh.run clearedMeter).tally 1).named = 0 ∧
      ((fresh.run (clearedMeter ++ [.addFlow (meterEntry 1)])).tally 1).count = some 1 := by
  have created : create {} fresh.selection = .ok fresh := rfl
  have small : ∀ t ∈ fresh.tables.history (fresh.tableCommands
      (clearedMeter ++ [.addFlow (meterEntry 1)])), t.entries.length < UInt32.size := by
    decide +kernel
  have counts := run_countsUsers created clearedMeter [.addFlow (meterEntry 1)] small 1
  exact ⟨created, small, counts, by decide +kernel, by decide +kernel⟩

/-- Meters do not always count the entries that name them. -/
theorem not_exact_lateMeter :
    ¬ ∀ (config : Config) (selection : Selection) (sw : Switch), create config selection = .ok sw →
      ∀ cs, sw.Countable cs → ∀ id, ((sw.run cs).tally id).Exact := by
  intro always
  have small : ∀ t ∈ fresh.tables.history (fresh.tableCommands lateMeter),
      t.entries.length < UInt32.size := by decide +kernel
  have counted : ((fresh.run lateMeter).tally 1).count = some 0 := by decide +kernel
  have named : ((fresh.run lateMeter).tally 1).named = 1 := by decide +kernel
  have equal := always {} fresh.selection fresh rfl lateMeter small 1 0 counted
  rw [named] at equal
  cases equal

end Switch

end FlowSwitch
