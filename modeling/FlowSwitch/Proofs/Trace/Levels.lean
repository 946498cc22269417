import FlowSwitch.Trace.Control
import Mathlib.Data.List.Nodup

/-!
# The levels that a configuration sets

A configuration changes levels one entry after the other, and each entry may
address several targets. What is left is told for each target by itself: the
level given for its name, else the level of the last tag that it carries, else
the level it had. The order of two entries matters only where one target is
addressed by both.
-/

namespace FlowSwitch

/-- The level of the last entry whose name counts, or the old one if none does. -/
def lastLevel (entries : List (String × TraceLevel)) (counts : String → Bool)
    (old : TraceLevel) : TraceLevel :=
  ((entries.filter fun e => counts e.1).getLast?.map (·.2)).getD old

section LastLevel

variable {entries entries' : List (String × TraceLevel)} {counts counts' : String → Bool}
  {old : TraceLevel}

theorem lastLevel_cons (e : String × TraceLevel) :
    lastLevel (e :: entries) counts old =
      lastLevel entries counts (if counts e.1 then e.2 else old) := by
  unfold lastLevel
  rw [List.filter_cons]
  split
  · cases later : (entries.filter fun e => counts e.1).getLast? <;>
      simp [List.getLast?_cons, later]
  · rfl

/-- Nothing is left of the old level if any entry counts. -/
theorem lastLevel_lastLevel :
    lastLevel entries counts (lastLevel entries counts old) = lastLevel entries counts old := by
  unfold lastLevel
  cases (entries.filter fun e => counts e.1).getLast? <;> rfl

theorem lastLevel_congr
    (same : (entries.filter fun e => counts e.1) = entries'.filter fun e => counts' e.1) :
    lastLevel entries counts old = lastLevel entries' counts' old := by
  unfold lastLevel
  rw [same]

/-- If each name stands once, the last entry of a name is the one that is looked up. -/
theorem lastLevel_name {r : Registry String TraceLevel} (distinct : r.keys.Nodup)
    (name : String) : lastLevel r.entries (name == ·) old = (r.get? name).getD old := by
  obtain ⟨l⟩ := r
  induction l generalizing old with
  | nil => rfl
  | cons e l ih =>
    obtain ⟨apart, rest⟩ := List.nodup_cons.mp distinct
    rw [lastLevel_cons, ih rest, Registry.get?_cons]
    by_cases here : e.1 = name
    · have none_left : Registry.get? ⟨l⟩ name = none := by
        rw [Registry.get?, Option.map_eq_none_iff, List.find?_eq_none]
        intro x inside again
        have twice : x.1 = e.1 := (beq_iff_eq.mp again).trans here.symm
        exact apart (List.mem_map.mpr ⟨x, inside, twice⟩)
      simp [here, none_left]
    · simp [here, Ne.symm here]

/-- Entries of which only one counts may come in any order. -/
theorem filter_eq_of_apart (same : entries'.Perm entries)
    (apart : entries.Pairwise fun a b => ¬ (counts a.1 ∧ counts b.1)) :
    (entries'.filter fun e => counts e.1) = entries.filter fun e => counts e.1 := by
  have kept := same.filter fun e => counts e.1
  have alone : ∀ l : List (String × TraceLevel),
      (l.Pairwise fun a b => ¬ (counts a.1 ∧ counts b.1)) → (∀ e ∈ l, counts e.1) →
        l = [] ∨ ∃ e, l = [e] := by
    intro l apart all
    cases l with
    | nil => exact .inl rfl
    | cons e l =>
      refine .inr ⟨e, ?_⟩
      cases l with
      | nil => rfl
      | cons e' l =>
        have clash := (List.pairwise_cons.mp apart).1 e' List.mem_cons_self
        exact absurd ⟨all e List.mem_cons_self, all e' (by simp)⟩ clash
  rcases alone _ (apart.filter _) (fun e inside => (List.mem_filter.mp inside).2) with
    none_counts | ⟨e, one_counts⟩
  · rw [none_counts] at kept ⊢
    exact kept.eq_nil
  · rw [one_counts] at kept ⊢
    exact kept.eq_singleton

end LastLevel

namespace Tracing

/-- The targets, whatever their levels. -/
def registered (t : Tracing) : List TraceTarget := t.targets.map (·.1)

def Distinct (t : Tracing) : Prop := (t.registered.map (·.name)).Nodup

instance (t : Tracing) : Decidable t.Distinct := inferInstanceAs (Decidable (List.Nodup _))

/-- Sets the level of each entry, one after the other. -/
def setEach (t : Tracing) (addresses : String → TraceTarget → Bool)
    (entries : List (String × TraceLevel)) : Tracing :=
  entries.foldl (fun t e => t.setWhere (addresses e.1) e.2) t

variable {t u : Tracing}

@[simp]
theorem registered_setWhere (p : TraceTarget → Bool) (level : TraceLevel) :
    (t.setWhere p level).registered = t.registered := by
  simp [registered, setWhere, Function.comp_def]

@[simp]
theorem registered_setDefault (level : TraceLevel) :
    (t.setDefault level).registered = t.registered := rfl

theorem hasTag_eq (tag : String) :
    t.hasTag tag = t.registered.any (·.tags.contains tag) := by
  rw [registered, List.any_map]
  rfl

theorem hasTarget_eq (name : String) : t.hasTarget name = t.registered.any (·.name == name) := by
  rw [registered, List.any_map]
  rfl

theorem hasTag_congr (same : u.registered = t.registered) (tag : String) :
    u.hasTag tag = t.hasTag tag := by
  rw [hasTag_eq, same, ← hasTag_eq]

theorem hasTarget_congr (same : u.registered = t.registered) (name : String) :
    u.hasTarget name = t.hasTarget name := by
  rw [hasTarget_eq, same, ← hasTarget_eq]

/-- After all entries each target has the level of the last one that addresses it. -/
theorem setEach_eq (addresses : String → TraceTarget → Bool)
    (entries : List (String × TraceLevel)) :
    t.setEach addresses entries =
      { t with targets := t.targets.map fun e =>
          (e.1, lastLevel entries (addresses · e.1) e.2) } := by
  induction entries generalizing t with
  | nil => simp [setEach, lastLevel]
  | cons e rest ih =>
    have later := ih (t := t.setWhere (addresses e.1) e.2)
    rw [setEach] at later ⊢
    rw [List.foldl_cons, later]
    simp [setWhere, Function.comp_def, lastLevel_cons]

theorem registered_setEach (addresses : String → TraceTarget → Bool)
    (entries : List (String × TraceLevel)) :
    (t.setEach addresses entries).registered = t.registered := by
  rw [setEach_eq]
  simp [registered, Function.comp_def]

theorem level?_of_mem (distinct : t.Distinct) {target : TraceTarget} {level : TraceLevel}
    (among : (target, level) ∈ t.targets) : t.level? target.name = some level := by
  have names : (t.targets.map fun e => e.1.name).Nodup := by
    simpa [Distinct, registered, Function.comp_def] using distinct
  obtain ⟨e, found⟩ := Option.isSome_iff_exists.mp
    (List.find?_isSome (p := fun e : TraceTarget × TraceLevel => e.1.name == target.name)
      |>.mpr ⟨_, among, beq_self_eq_true _⟩)
  have named : e.1.name = target.name := by simpa using List.find?_some found
  have same : e = (target, level) :=
    List.inj_on_of_nodup_map names (List.mem_of_find?_eq_some found) among named
  rw [level?, found, same]
  rfl

theorem run_append (before after : List (Tracing → Except TraceError Tracing))
    (through : run before t = (.ok (), u)) : run (before ++ after) t = run after u := by
  induction before generalizing t with
  | nil =>
    obtain rfl := (Prod.mk.inj through).2
    rfl
  | cons change before ih =>
    rw [List.cons_append, run]
    rw [run] at through
    cases made : change t with
    | ok next =>
      rw [made] at through
      exact ih through
    | error e =>
      rw [made] at through
      cases (Prod.mk.inj through).1

/-- Changes that set one level each, whatever the levels before, all go through. -/
theorem run_eq_setEach {addresses : String → TraceTarget → Bool}
    {change : String × TraceLevel → Tracing → Except TraceError Tracing}
    {entries : List (String × TraceLevel)}
    (sets : ∀ e ∈ entries, ∀ u : Tracing, u.registered = t.registered →
      change e u = .ok (u.setWhere (addresses e.1) e.2)) :
    run (entries.map change) t = (.ok (), t.setEach addresses entries) := by
  induction entries generalizing t with
  | nil => rfl
  | cons e rest ih =>
    rw [List.map_cons, run, sets e List.mem_cons_self t rfl]
    refine ih fun e' later u same => sets e' (List.mem_cons_of_mem _ later) u ?_
    rw [same, registered_setWhere]

end Tracing

namespace TraceConfig

open Tracing

/-- Each tag and each target has one level, as an ordered map has it. -/
structure Keyed (c : TraceConfig) : Prop where
  tags : c.tags.keys.Nodup
  targets : c.targets.keys.Nodup

/-- The names that it gives levels to are registered. -/
structure Known (c : TraceConfig) (t : Tracing) : Prop where
  tags : ∀ tag ∈ c.tags.keys, t.hasTag tag
  targets : ∀ name ∈ c.targets.keys, t.hasTarget name

/-- The level of a target that had an old one. -/
def levelFor (c : TraceConfig) (target : TraceTarget) (old : TraceLevel) : TraceLevel :=
  (c.targets.get? target.name).getD (lastLevel c.tags.entries target.tags.contains old)

/-- Every target at the level for it. -/
def configured (c : TraceConfig) (t : Tracing) : Tracing where
  default := c.default
  targets := t.targets.map fun e => (e.1, c.levelFor e.1 e.2)

/-- No target carries two of the tags that it gives levels to. -/
def Apart (c : TraceConfig) (t : Tracing) : Prop :=
  c.tags.keys.Pairwise fun a b => ∀ target ∈ t.registered, ¬ (a ∈ target.tags ∧ b ∈ target.tags)

/-- Both give levels to the tags of each target in the same order. -/
def InStep (c' c : TraceConfig) (t : Tracing) : Prop :=
  ∀ target ∈ t.registered, (c'.tags.entries.filter fun e => target.tags.contains e.1) =
    c.tags.entries.filter fun e => target.tags.contains e.1

/-- The same levels for the same names, given in another order. -/
structure Reorders (c' c : TraceConfig) : Prop where
  default : c'.default = c.default
  tags : c'.tags.entries.Perm c.tags.entries
  targets : c'.targets.entries.Perm c.targets.entries

theorem nodup_keys_levels? {s : ConfigValue} {r : Registry String TraceLevel}
    (read : levels? s = some r) : r.keys.Nodup := by
  cases s with
  | record fields =>
    have kept : ∀ start : Registry String TraceLevel, start.keys.Nodup →
        fields.foldlM (fun r e => (TraceLevel.ofValue? e.2).map (r.insert e.1)) start = some r →
          r.keys.Nodup := by
      clear read
      induction fields with
      | nil =>
        intro start distinct same
        obtain rfl := Option.some.inj same
        exact distinct
      | cons e rest ih =>
        intro start distinct later
        obtain ⟨_, first, later⟩ := Option.bind_eq_some_iff.mp later
        obtain ⟨level, -, rfl⟩ := Option.map_eq_some_iff.mp first
        exact ih _ (Registry.nodup_keys_insert distinct e.1 level) later
    exact kept .empty List.nodup_nil read
  | _ => cases read

/-- What is read from a file is keyed. -/
theorem keyed_of_ofValue? {s : ConfigValue} {c : TraceConfig} (read : ofValue? s = some c) :
    c.Keyed := by
  have each : ∀ {fields : List (String × ConfigValue)} {name : String}
      {r : Registry String TraceLevel},
      ConfigValue.readField fields name levels? .empty = some r → r.keys.Nodup := by
    intro fields name r found
    unfold ConfigValue.readField at found
    split at found
    · exact nodup_keys_levels? found
    · obtain rfl := Option.some.inj found
      exact List.nodup_nil
  obtain ⟨fields, -, read⟩ := Option.bind_eq_some_iff.mp read
  obtain ⟨default, -, read⟩ := Option.bind_eq_some_iff.mp read
  obtain ⟨tags, tagged, read⟩ := Option.bind_eq_some_iff.mp read
  obtain ⟨targets, targeted, read⟩ := Option.bind_eq_some_iff.mp read
  obtain rfl := Option.some.inj read
  exact ⟨each tagged, each targeted⟩

variable {c c' : TraceConfig} {t u : Tracing}

theorem Known.of_registered (known : c.Known t) (same : u.registered = t.registered) :
    c.Known u where
  tags tag inside := (hasTag_congr same tag).trans (known.tags tag inside)
  targets name inside := (hasTarget_congr same name).trans (known.targets name inside)

theorem Reorders.known (reorders : c'.Reorders c) (known : c.Known t) : c'.Known t where
  tags tag inside := known.tags tag ((reorders.tags.map Prod.fst).mem_iff.mp inside)
  targets name inside := known.targets name ((reorders.targets.map Prod.fst).mem_iff.mp inside)

theorem Reorders.keyed (reorders : c'.Reorders c) (keyed : c.Keyed) : c'.Keyed where
  tags := (reorders.tags.map Prod.fst).nodup_iff.mpr keyed.tags
  targets := (reorders.targets.map Prod.fst).nodup_iff.mpr keyed.targets

@[simp]
theorem registered_configured : (c.configured t).registered = t.registered := by
  simp [configured, registered, Function.comp_def]

theorem levelFor_levelFor (target : TraceTarget) (old : TraceLevel) :
    c.levelFor target (c.levelFor target old) = c.levelFor target old := by
  unfold levelFor
  cases c.targets.get? target.name
  · exact lastLevel_lastLevel
  · rfl

theorem configured_configured : c.configured (c.configured t) = c.configured t := by
  simp [configured, Function.comp_def, levelFor_levelFor]

/-- Tags and then targets leave each target with the level for it. -/
theorem setEach_setEach (keyed : c.Keyed) :
    ((t.setDefault c.default).setEach (fun tag target => target.tags.contains tag)
        c.tags.entries).setEach (fun name target => target.name == name) c.targets.entries =
      c.configured t := by
  rw [setEach_eq, setEach_eq, configured]
  simp only [List.map_map, Function.comp_def, lastLevel_name keyed.targets]
  rfl

theorem run_tags (known : c.Known t) :
    run (c.tags.entries.map fun e t => t.setTag e.1 e.2) t =
      (.ok (), t.setEach (fun tag target => target.tags.contains tag) c.tags.entries) := by
  refine run_eq_setEach fun e inside u same => ?_
  exact if_pos ((known.of_registered same).tags e.1 (List.mem_map_of_mem inside))

theorem run_targets (known : c.Known t) :
    run (c.targets.entries.map fun e t => t.setTarget e.1 e.2) t =
      (.ok (), t.setEach (fun name target => target.name == name) c.targets.entries) := by
  refine run_eq_setEach fun e inside u same => ?_
  exact if_pos ((known.of_registered same).targets e.1 (List.mem_map_of_mem inside))

theorem apply_eq (keyed : c.Keyed) (known : c.Known t) :
    Tracing.apply c t = (.ok (), c.configured t) := by
  have tagged := run_tags (known.of_registered (registered_setDefault (t := t) c.default))
  rw [Tracing.apply, run_append _ _ tagged, run_targets, setEach_setEach keyed]
  exact known.of_registered (registered_setEach ..)

theorem Apart.inStep (apart : c.Apart t) (reorders : c'.Reorders c) : c'.InStep c t := by
  intro target among
  refine filter_eq_of_apart reorders.tags ?_
  refine (List.pairwise_map.mp apart).imp fun {a b} apart both => apart target among ?_
  exact ⟨List.contains_iff_mem.mp both.1, List.contains_iff_mem.mp both.2⟩

/-- The order of names for which no target is addressed twice is of no consequence. -/
theorem Reorders.configured_eq (reorders : c'.Reorders c) (keyed : c.Keyed)
    (same : c'.InStep c t) : c'.configured t = c.configured t := by
  unfold configured
  rw [reorders.default]
  congr 1
  refine List.map_congr_left fun e inside => ?_
  have among : e.1 ∈ t.registered := List.mem_map_of_mem inside
  have tags : lastLevel c'.tags.entries e.1.tags.contains e.2 =
      lastLevel c.tags.entries e.1.tags.contains e.2 := lastLevel_congr (same e.1 among)
  have targets : (c'.targets.get? e.1.name).getD (lastLevel c.tags.entries e.1.tags.contains e.2) =
      (c.targets.get? e.1.name).getD (lastLevel c.tags.entries e.1.tags.contains e.2) := by
    rw [← lastLevel_name (reorders.keyed keyed).targets, ← lastLevel_name keyed.targets]
    refine lastLevel_congr (filter_eq_of_apart reorders.targets ?_)
    refine (List.pairwise_map.mp keyed.targets).imp fun {a b} apart both => apart ?_
    exact (beq_iff_eq.mp both.1).symm.trans (beq_iff_eq.mp both.2)
  rw [levelFor, levelFor, tags, targets]

/-- A configuration that knows its names goes through and leaves the default that it
gives and every target at the level given for its name, else for the last of its tags,
else at the one it had. Once more changes nothing. The order of targets is of no
consequence, nor is that of tags which no target carries both of. -/
theorem apply_settles (distinct : t.Distinct) (keyed : c.Keyed) (known : c.Known t) :
    (Tracing.apply c t).1 = .ok () ∧ (Tracing.apply c t).2.default = c.default ∧
      (Tracing.apply c t).2.targets = t.targets.map (fun e => (e.1, c.levelFor e.1 e.2)) ∧
      (∀ e ∈ t.targets,
        (Tracing.apply c t).2.level? e.1.name = some (c.levelFor e.1 e.2)) ∧
      Tracing.apply c (Tracing.apply c t).2 = Tracing.apply c t ∧
      ∀ c' : TraceConfig, c'.Reorders c → c.Apart t ∨ c'.InStep c t →
        Tracing.apply c' t = Tracing.apply c t := by
  rw [apply_eq keyed known]
  refine ⟨rfl, rfl, rfl, fun e among => ?_, ?_, fun c' reorders order => ?_⟩
  · have settled : (e.1, c.levelFor e.1 e.2) ∈ (c.configured t).targets :=
      List.mem_map.mpr ⟨e, among, rfl⟩
    refine level?_of_mem ?_ settled
    rw [Distinct, registered_configured]
    exact distinct
  · rw [apply_eq keyed (known.of_registered registered_configured), configured_configured]
  · have same : c'.InStep c t := order.elim (·.inStep reorders) id
    rw [apply_eq (reorders.keyed keyed) (reorders.known known), reorders.configured_eq keyed same]

/-- One target carries two tags that are given levels, and another has a level of its own.
The tags that no target carries both of change places. -/
theorem apply_settles_shared :
    let t := Tracing.ofTargets
      [{ name := "flow-table", module := "flow_table", tags := ["table", "pipeline"] },
        { name := "group-table", module := "group_table", tags := ["table", "pipeline"] },
        { name := "switch-port", module := "switch_port", tags := ["pipeline", "ports"] }]
    let c (tags : List (String × TraceLevel)) : TraceConfig :=
      { default := .warn, tags := ⟨tags⟩, targets := ⟨[("group-table", .trace)]⟩ }
    let given := c [("pipeline", .error), ("table", .debug), ("ports", .info)]
    let moved := c [("pipeline", .error), ("ports", .info), ("table", .debug)]
    t.Distinct ∧ given.Keyed ∧ given.Known t ∧
      (Tracing.apply given t).2.level? "flow-table" = some .debug ∧
      (Tracing.apply given t).2.level? "group-table" = some .trace ∧
      Tracing.apply moved t = Tracing.apply given t := by
  intro t c given moved
  have distinct : t.Distinct := by decide
  have keyed : given.Keyed := ⟨by decide, by decide⟩
  have known : given.Known t := ⟨by decide, by decide⟩
  have reorders : moved.Reorders given := ⟨rfl, by decide, .refl _⟩
  have inStep : moved.InStep given t := by
    unfold InStep
    decide
  obtain ⟨-, -, -, levels, -, orders⟩ := apply_settles distinct keyed known
  refine ⟨distinct, keyed, known, ?_, ?_, orders moved reorders (.inr inStep)⟩
  · exact levels _ (.head _)
  · exact levels _ (.tail _ (.head _))

end TraceConfig

end FlowSwitch
