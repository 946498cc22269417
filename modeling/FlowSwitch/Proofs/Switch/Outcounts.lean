import FlowSwitch.Proofs.Forward.Capped
import FlowSwitch.Proofs.Switch.References
import FlowSwitch.Proofs.Tables.Groups

/-!
# Groups count more than their buckets

A group goes on counting when it gets another type and other buckets, and the new buckets begin
at zero. So as long as no group's counter wraps, no bucket has counted more than its group, and
the buckets of a group that sends each packet to one of them have not done so together either.
-/

namespace FlowSwitch

/-- Whether no bucket has counted more than its group, and buckets that share the packets of the
group among them have not together. -/
structure Group.Outcounts (g : Group) : Prop where
  packets : ∀ b ∈ g.buckets, b.counter.packets ≤ g.counter.packets
  bytes : ∀ b ∈ g.buckets, b.counter.bytes ≤ g.counter.bytes
  allPackets : g.type = .select ∨ g.type = .indirect →
    (g.buckets.map (·.counter.packets.toNat)).sum ≤ g.counter.packets.toNat
  allBytes : g.type = .select ∨ g.type = .indirect →
    (g.buckets.map (·.counter.bytes.toNat)).sum ≤ g.counter.bytes.toNat

namespace Group

theorem Covers.outcounts {g : Group} {id : GroupId} (covers : g.Covers id []) : g.Outcounts := by
  have each (m : Measure) {b : Bucket} (inside : b ∈ g.buckets) :
      m.read b.counter ≤ m.read g.counter := by
    obtain ⟨place, there, rfl⟩ := List.getElem_of_mem inside
    exact covers.each m place _ (List.getElem?_eq_getElem there)
  have one (shared : g.type = .select ∨ g.type = .indirect) : g.type.choosesOne = true := by
    rcases shared with type | type <;> rw [type] <;> rfl
  constructor
  · exact fun b inside => UInt64.le_iff_toNat_le.mpr (each .packets inside)
  · exact fun b inside => UInt64.le_iff_toNat_le.mpr (each .bytes inside)
  · exact fun shared => covers.all (one shared) .packets
  · exact fun shared => covers.all (one shared) .bytes

theorem covers_bare {g : Group} {id : GroupId} {dues : List Due} :
    g.bare.Covers id dues ↔ g.Covers id dues :=
  ⟨fun covers => ⟨covers.each, covers.all⟩, fun covers => ⟨covers.each, covers.all⟩⟩

end Group

namespace Tables

/-- The buckets that a command brings in. -/
def Command.buckets : Command → List Bucket
  | .addGroup _ _ buckets _ _ | .updateGroup _ _ buckets _ => buckets
  | _ => []

/-- Whether the pass of a command, if it has one, is not stopped where a group's counter would
wrap. This is told by how the pass ends, so it should not come to the end `full` by itself. -/
def Command.hasRoom (full : Halt) (t : Tables) : Command → Bool
  | .process s ports frame draws =>
    (((Run.caps full).process s).on { tables := t, ports, frame, draws }).1 != .error full
  | .carryOut s actions ports frame draws =>
    (((Run.caps full).carryOut s actions).on { tables := t, ports, frame, draws }).1
      != .error full
  | _ => true

/-- Whether no group's counter wraps while commands are carried out. -/
def Roomy (t : Tables) : List Command → Prop
  | [] => True
  | c :: rest => (∃ full, c.hasRoom full t = true) ∧ (t.step c).Roomy rest

/-- Whether no pass of some commands ends like one that is stopped. -/
def isRoomy (full : Halt) (t : Tables) : List Command → Bool
  | [] => true
  | c :: rest => c.hasRoom full t && (t.step c).isRoomy full rest

variable {t t' : Tables} {full : Halt}

theorem roomy_of_isRoomy {cs : List Command} (roomy : t.isRoomy full cs = true) : t.Roomy cs := by
  induction cs generalizing t with
  | nil => trivial
  | cons c cs ih =>
    obtain ⟨room, rest⟩ := Bool.and_eq_true_iff.mp roomy
    exact ⟨⟨full, room⟩, ih rest⟩

theorem covers_iff_bare : t.groups.Covers [] ↔ ∀ id g, t.bare? id = some g → g.Covers id [] := by
  constructor
  · intro covers id g found
    obtain ⟨h, there, rfl⟩ := Option.map_eq_some_iff.mp found
    exact Group.covers_bare.mpr (covers id h there)
  · intro covers id g found
    refine Group.covers_bare.mp (covers id g.bare ?_)
    rw [bare?, found]
    rfl

/-- Commands that are not passes leave groups that cover their buckets, and new buckets need no
cover. -/
theorem GroupStep.covers {c : Command} (step : GroupStep c t t')
    (fresh : ∀ b ∈ c.buckets, b.counter = {}) (covers : t.groups.Covers []) :
    t'.groups.Covers [] := by
  rw [covers_iff_bare] at covers ⊢
  cases step with
  | keep same => rwa [same]
  | add id type buckets hasPort now asked small valid added =>
    subst asked
    intro j g found
    rw [added] at found
    split at found
    · obtain rfl := Option.some.inj found
      exact Group.covers_of_fresh fresh
    · exact covers j g found
  | update id type buckets hasPort asked small there valid updated =>
    subst asked
    intro j g found
    rw [updated] at found
    split at found
    · obtain ⟨h, -, rfl⟩ := Option.map_eq_some_iff.mp found
      exact Group.covers_of_fresh fresh
    · exact covers j g found
  | delete id now asked left =>
    intro j g found
    rw [left] at found
    split at found
    · cases found
    · exact covers j g found

/-- A pass that is not stopped keeps the groups covering their buckets. -/
theorem covers_of_room {x y : Run Unit} (mirrors : Run.Mirrors full Run.keepsCover x y) {p : Pass}
    (room : ((x.on p).1 != .error full) = true) (covers : p.tables.groups.Covers []) :
    (y.on p).2.tables.groups.Covers [] := by
  rcases mirrors p with stopped | ⟨-, kept, -⟩
  · rw [stopped, bne_self_eq_false] at room
    cases room
  · exact kept [] covers

theorem covers_step {c : Command} (room : c.hasRoom full t = true)
    (fresh : ∀ b ∈ c.buckets, b.counter = {}) (covers : t.groups.Covers []) :
    (t.step c).groups.Covers [] := by
  cases pass : c.isPass with
  | false => exact (t.groupStep pass).covers fresh covers
  | true =>
    cases c with
    | process s ports frame draws =>
      exact covers_of_room (Run.simulation_caps full s).process room covers
    | carryOut s actions ports frame draws =>
      have mirrors := (Run.simulation_caps full s).carryOut actions fun _ _ => trivial
      exact covers_of_room mirrors room covers
    | _ => cases pass

/-- Induction on the commands. -/
theorem covers_run {cs : List Command} (roomy : t.Roomy cs)
    (fresh : ∀ c ∈ cs, ∀ b ∈ c.buckets, b.counter = {}) (covers : t.groups.Covers []) :
    (t.run cs).groups.Covers [] := by
  induction cs generalizing t with
  | nil => exact covers
  | cons c cs ih =>
    obtain ⟨⟨full, room⟩, rest⟩ := roomy
    have stepped := covers_step room (fresh c List.mem_cons_self) covers
    exact ih rest (fun d inside => fresh d (List.mem_cons_of_mem _ inside)) stepped

end Tables

namespace Switch

/-- However a switch got where it is, refused commands and failed passes included: if buckets were
installed with their counters at zero and no group's counter wrapped, groups have counted as much
as their buckets. -/
theorem run_outcounts {config : Config} {selection : Selection} {sw : Switch}
    (created : create config selection = .ok sw) {cs : List Command}
    (zeroed : ∀ c ∈ sw.tableCommands cs, ∀ b ∈ c.buckets, b.counter = {})
    (roomy : sw.tables.Roomy (sw.tableCommands cs)) {id : GroupId} {g : Group}
    (found : (sw.run cs).tables.groups.get? id = some g) : g.Outcounts := by
  have start : sw.tables.groups.Covers [] := by
    rw [tables_create created]
    intro id g found
    cases found
  rw [run_tables] at found
  exact (Tables.covers_run roomy zeroed start id g found).outcounts

/-- A group tags packets and sends them back to the first table, and from there to itself, until
they are refused there. Then it gets two buckets, and fails in the first one. -/
def revisited : List Command :=
  let again : Bucket := { actions := ⟨[.pushVlan 0x8100, .output PortNo.table 0], by decide⟩ }
  [.addGroup 1 .indirect [again] 0, .addFlow (groupEntry 0 1),
    .handle 1 ⟨List.replicate 60 0, none⟩ 0 false, .updateGroup 1 .all [again, again],
    .handle 1 ⟨List.replicate 60 0, none⟩ 0 false]

theorem run_outcounts_revisited :
    create {} fresh.selection = .ok fresh ∧
      (∀ c ∈ fresh.tableCommands revisited, ∀ b ∈ c.buckets, b.counter = {}) ∧
      fresh.tables.Roomy (fresh.tableCommands revisited) ∧
      ∃ g, (fresh.run revisited).tables.groups.get? 1 = some g ∧ g.counter = ⟨18, 1368⟩ ∧
        g.buckets.map (·.counter) = [⟨9, 684⟩, ⟨0, 0⟩] ∧ g.Outcounts := by
  have created : create {} fresh.selection = .ok fresh := rfl
  have zeroed : ∀ c ∈ fresh.tableCommands revisited, ∀ b ∈ c.buckets, b.counter = {} := by
    decide +kernel
  have unstopped : fresh.tables.isRoomy .endless (fresh.tableCommands revisited) = true := by
    decide +kernel
  have roomy := Tables.roomy_of_isRoomy unstopped
  have counted : ((fresh.run revisited).tables.groups.get? 1).map
      (fun g => (g.counter, g.buckets.map (·.counter)))
        = some (⟨18, 1368⟩, [⟨9, 684⟩, ⟨0, 0⟩]) := by decide +kernel
  obtain ⟨g, found, same⟩ := Option.map_eq_some_iff.mp counted
  obtain ⟨own, buckets⟩ := Prod.mk.inj same
  exact ⟨created, zeroed, roomy, g, found, own, buckets, run_outcounts created zeroed roomy found⟩

end Switch

end FlowSwitch
