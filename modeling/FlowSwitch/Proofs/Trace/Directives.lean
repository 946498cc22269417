import FlowSwitch.Proofs.Trace.Levels
import Mathlib.Data.List.DropRight
import Mathlib.Data.List.Forall2

/-!
# A configuration as a text of directives

A configuration can be spelled as directives: one for the default, one for each
tag, one for each target, with blanks where one likes. The text is read back as
the same names and levels. It sets the same levels too, but for a tag that is
also the name of a target: as a directive it addresses that target alone.
-/

namespace FlowSwitch

namespace Directive

/-- Neither the first character nor the last is a blank. -/
structure Bare (s : List Char) : Prop where
  first : s.head?.any isBlank = false
  last : s.getLast?.any isBlank = false

def Blank (s : List Char) : Prop := s.all isBlank

/-- A text with blanks on either side. -/
def Padded (core s : List Char) : Prop :=
  ∃ before after, Blank before ∧ Blank after ∧ s = before ++ core ++ after

/-- A name that a directive can give. -/
structure Plain (name : String) : Prop where
  comma : ',' ∉ name.toList
  equals : '=' ∉ name.toList
  bare : Bare name.toList

instance (name : String) : Decidable (Plain name) :=
  decidable_of_iff (',' ∉ name.toList ∧ '=' ∉ name.toList ∧
      name.toList.head?.any isBlank = false ∧ name.toList.getLast?.any isBlank = false)
    ⟨fun fits => ⟨fits.1, fits.2.1, fits.2.2.1, fits.2.2.2⟩,
      fun plain => ⟨plain.comma, plain.equals, plain.bare.first, plain.bare.last⟩⟩

/-- A directive for a name and its level, in any of the words for the level. -/
def Spells (directive : List Char) (e : String × TraceLevel) : Prop :=
  ∃ left right word, directive = left ++ '=' :: right ∧ Padded e.1.toList left ∧
    Padded word right ∧ TraceLevel.parse? (String.ofList word) = some e.2

variable {core s left right word directive : List Char} {e : String × TraceLevel}

section Trim

theorem Bare.reverse (bare : Bare core) : Bare core.reverse where
  first := by simpa using bare.last
  last := by simpa using bare.first

theorem Blank.reverse (blank : Blank s) : Blank s.reverse := by
  rw [Blank, List.all_reverse]
  exact blank

theorem dropWhile_padded {before after : List Char} (bare : Bare core) (leads : Blank before)
    (trails : Blank after) :
    (before ++ core ++ after).dropWhile isBlank = core ++ if core = [] then [] else after := by
  rw [List.append_assoc, List.dropWhile_append_of_pos (List.all_eq_true.mp leads)]
  cases core with
  | nil => simpa [Blank] using trails
  | cons c core =>
    have seen : isBlank c = false := bare.first
    simp [seen]

theorem padded_self (s : List Char) : Padded s s := ⟨[], [], rfl, rfl, by simp⟩

theorem Padded.dropWhile (bare : Bare core) (padded : Padded core s) :
    Padded core (s.dropWhile isBlank) := by
  obtain ⟨before, after, leads, trails, rfl⟩ := padded
  refine ⟨[], if core = [] then [] else after, rfl, ?_, ?_⟩
  · split
    · rfl
    · exact trails
  · rw [dropWhile_padded bare leads trails, List.nil_append]

theorem Padded.reverse (padded : Padded core s) : Padded core.reverse s.reverse := by
  obtain ⟨before, after, leads, trails, rfl⟩ := padded
  exact ⟨after.reverse, before.reverse, trails.reverse, leads.reverse, by simp⟩

theorem Padded.rdropWhile (bare : Bare core) (padded : Padded core s) :
    Padded core (s.rdropWhile isBlank) := by
  have mirrored := (padded.reverse.dropWhile bare.reverse).reverse
  rwa [List.reverse_reverse] at mirrored

theorem Padded.trim (bare : Bare core) (padded : Padded core s) : trim s = core := by
  obtain ⟨before, after, leads, trails, rfl⟩ := padded
  have tail : Blank (if core = [] then [] else after) := by
    split
    · rfl
    · exact trails
  have back := dropWhile_padded bare.reverse tail.reverse (rfl : Blank [])
  rw [Directive.trim, dropWhile_padded bare leads trails, List.reverse_append]
  simpa using congrArg List.reverse back

theorem Padded.not_mem {x : Char} (padded : Padded core s) (absent : x ∉ core)
    (seen : isBlank x = false) : x ∉ s := by
  obtain ⟨before, after, leads, trails, rfl⟩ := padded
  have apart : ∀ {l : List Char}, Blank l → x ∉ l := by
    intro l blank inside
    rw [List.all_eq_true.mp blank x inside] at seen
    cases seen
  simp [absent, apart leads, apart trails]

/-- Trimming a directive trims its ends only. -/
theorem trim_directive (left right : List Char) :
    trim (left ++ '=' :: right) =
      left.dropWhile isBlank ++ '=' :: right.rdropWhile isBlank := by
  have stops : ∀ l r : List Char,
      (l ++ '=' :: r).dropWhile isBlank = l.dropWhile isBlank ++ '=' :: r := by
    intro l r
    induction l with
    | nil => rfl
    | cons c l ih =>
      simp only [List.cons_append, List.dropWhile_cons, ih]
      split <;> rfl
  unfold trim
  rw [stops, List.reverse_append, List.reverse_cons, List.append_assoc, List.singleton_append,
    stops]
  simp [List.rdropWhile]

end Trim

section Words

theorem isBlank_of_isAlpha {c : Char} (letter : c.isAlpha) : isBlank c = false := by
  have range : 65 ≤ c.toNat ∧ c.toNat ≤ 90 ∨ 97 ≤ c.toNat ∧ c.toNat ≤ 122 :=
    (Bool.or_eq_true_iff.mp letter).imp of_decide_eq_true fun small =>
      (Bool.and_eq_true_iff.mp small).imp of_decide_eq_true of_decide_eq_true
  simp only [isBlank, Bool.or_eq_false_iff, Bool.and_eq_false_iff, decide_eq_false_iff_not,
    List.contains_eq_mem, List.mem_cons, List.not_mem_nil, or_false]
  omega

theorem isAlpha_of_toLower {c : Char} (letter : c.toLower.isLower) : c.isAlpha := by
  by_cases upper : c.isUpper
  · exact Bool.or_eq_true_iff.mpr (.inl upper)
  · have same : c.toLower = c := dif_neg (mt decide_eq_true upper)
    exact Bool.or_eq_true_iff.mpr (.inr (same ▸ letter))

theorem toList_toLower (word : List Char) :
    (String.ofList word).toLower.toList = word.map Char.toLower :=
  String.toList_map.trans (congrArg _ String.toList_ofList)

/-- The words for levels, in small letters. -/
def levelWords : List String :=
  ["none", "warning", "off", "error", "warn", "info", "debug", "trace"]

theorem toLower_mem_levelWords {word : String} {level : TraceLevel}
    (read : TraceLevel.parse? word = some level) : word.toLower ∈ levelWords := by
  simp only [TraceLevel.parse?, TraceLevel.ofText?] at read
  split at read
  · simp [levelWords, *]
  · split at read
    · simp [levelWords, *]
    · have spelt : level.text = word.toLower := by simpa using List.find?_some read
      rw [← spelt]
      cases level <;> decide

/-- A word is read in capitals as in small letters. -/
theorem parse?_of_toLower {level : TraceLevel}
    (same : word.map Char.toLower = level.text.toList) :
    TraceLevel.parse? (String.ofList word) = some level := by
  have small : (String.ofList word).toLower = level.text := by
    rw [← String.toList_inj, toList_toLower, same]
  rw [TraceLevel.parse?, small]
  cases level <;> rfl

theorem letters_of_parse? {level : TraceLevel}
    (read : TraceLevel.parse? (String.ofList word) = some level) :
    ∀ c ∈ word, c.isAlpha := by
  have small : ∀ w ∈ levelWords, w.toList.all Char.isLower := by decide
  have letters := small _ (toLower_mem_levelWords read)
  rw [toList_toLower] at letters
  intro c inside
  exact isAlpha_of_toLower (List.all_eq_true.mp letters _ (List.mem_map_of_mem inside))

theorem bare_of_letters (letters : ∀ c ∈ word, c.isAlpha) : Bare word where
  first := by
    rw [Option.any_eq_false]
    exact fun c inside => by simp [isBlank_of_isAlpha (letters c (List.mem_of_mem_head? inside))]
  last := by
    rw [Option.any_eq_false]
    exact fun c inside => by simp [isBlank_of_isAlpha (letters c (List.mem_of_mem_getLast? inside))]

end Words

section Spelling

theorem parts_eq_splitOn (s : List Char) : parts s = s.splitOn ',' := by
  rw [List.splitOn_eq_splitOnP]
  induction s with
  | nil => rfl
  | cons c rest ih =>
    rw [parts, List.splitOnP_cons_eq_if_modifyHead, ← ih]
    simp only [beq_iff_eq]
    split
    · rfl
    · obtain ⟨first, others, there⟩ := List.exists_cons_of_ne_nil
        (ih ▸ List.splitOnP_ne_nil _ rest : parts rest ≠ [])
      rw [there]
      rfl

theorem plain_default : Plain "default" := ⟨by decide, by decide, by decide, by decide⟩

theorem Spells.comma (spells : Spells directive e) (plain : Plain e.1) : ',' ∉ directive := by
  obtain ⟨left, right, word, rfl, name, level, read⟩ := spells
  have absent : ',' ∉ word := fun inside => by
    have letter := letters_of_parse? read ',' inside
    simp at letter
  simp [name.not_mem plain.comma (by decide), level.not_mem absent (by decide)]

theorem Spells.isEmpty_trim (spells : Spells directive e) : (trim directive).isEmpty = false := by
  obtain ⟨left, right, word, rfl, -⟩ := spells
  simp [trim_directive]

end Spelling

end Directive

namespace Tracing

open Directive

/-- The change that one directive makes once its name and its level are read. -/
def assign (t : Tracing) (name : String) (level : TraceLevel) : Except TraceError Tracing :=
  if name = "default" then .ok (t.setDefault level)
  else if t.hasTarget name then t.setTarget name level
  else t.setTag name level

variable {t u : Tracing} {directive : List Char} {e : String × TraceLevel}

theorem change_trim (spells : Spells directive e) (plain : Plain e.1) :
    change (trim directive) t = t.assign e.1 e.2 := by
  obtain ⟨left, right, word, rfl, name, level, read⟩ := spells
  have bare := bare_of_letters (letters_of_parse? read)
  have spelt := (name.dropWhile plain.bare).trim plain.bare
  have told := (level.rdropWhile bare).trim bare
  have equals := (name.dropWhile plain.bare).not_mem plain.equals (by decide)
  have all : ∀ c ∈ left.dropWhile isBlank, (c != '=') = true := fun c inside =>
    bne_iff_ne.mpr fun same => equals (same ▸ inside)
  rw [trim_directive, change, List.dropWhile_append_of_pos all, List.takeWhile_append_of_pos all]
  simp [spelt, told, read, assign]

section Text

variable {directives : List (List Char)} {entries : List (String × TraceLevel)}

theorem commas_of_spells (spelt : List.Forall₂ Spells directives entries)
    (plain : ∀ e ∈ entries, Plain e.1) : ∀ d ∈ directives, ',' ∉ d := by
  induction spelt with
  | nil => simp
  | cons spells _ ih =>
    obtain ⟨here, rest⟩ := List.forall_mem_cons.mp plain
    exact List.forall_mem_cons.mpr ⟨spells.comma here, ih rest⟩

theorem changes_of_spells (spelt : List.Forall₂ Spells directives entries)
    (plain : ∀ e ∈ entries, Plain e.1) :
    ((directives.map trim).filter (!·.isEmpty)).map change =
      entries.map fun e t => t.assign e.1 e.2 := by
  induction spelt with
  | nil => rfl
  | cons spells _ ih =>
    obtain ⟨here, rest⟩ := List.forall_mem_cons.mp plain
    have made : change (trim _) = fun t : Tracing => t.assign _ _ :=
      funext fun t => change_trim spells here
    rw [List.map_cons, List.filter_cons_of_pos (by simp [spells.isEmpty_trim]), List.map_cons,
      List.map_cons, ih rest, made]

/-- A text of directives makes the change of each in turn. -/
theorem setup_eq_run (spelt : List.Forall₂ Spells directives entries)
    (some_entry : entries ≠ []) (plain : ∀ e ∈ entries, Plain e.1) :
    setup (String.ofList ([','].intercalate directives)) t =
      run (entries.map fun e t => t.assign e.1 e.2) t := by
  have some_directive : directives ≠ [] := fun none_there => by
    subst none_there
    exact some_entry (List.forall₂_nil_left_iff.mp spelt)
  rw [setup, String.toList_ofList, parts_eq_splitOn,
    List.splitOn_intercalate _ (commas_of_spells spelt plain) some_directive,
    changes_of_spells spelt plain]

end Text

/-- The names of targets and tags. -/
def names (t : Tracing) : List String :=
  t.registered.flatMap fun target => target.name :: target.tags

/-- A directive can address every target and every tag. -/
def Spellable (t : Tracing) : Prop := ∀ name ∈ t.names, name ≠ "default" ∧ Plain name

theorem spellable_switchTargets : (ofTargets switchTargets).Spellable := by
  unfold Spellable
  decide

/-- Whether a directive for a name addresses a target: by its own name if some target has
that name, else by a tag. -/
def addresses (t : Tracing) (name : String) (target : TraceTarget) : Bool :=
  if t.hasTarget name then target.name == name else target.tags.contains name

theorem mem_names_of_hasTarget {name : String} (known : t.hasTarget name) : name ∈ t.names := by
  rw [hasTarget_eq, List.any_eq_true] at known
  obtain ⟨target, among, same⟩ := known
  exact List.mem_flatMap.mpr ⟨target, among, by simp [beq_iff_eq.mp same]⟩

theorem mem_names_of_hasTag {tag : String} (known : t.hasTag tag) : tag ∈ t.names := by
  rw [hasTag_eq, List.any_eq_true] at known
  obtain ⟨target, among, carried⟩ := known
  exact List.mem_flatMap.mpr
    ⟨target, among, List.mem_cons_of_mem _ (List.contains_iff_mem.mp carried)⟩

/-- A change of one name sets the level of what it addresses. -/
theorem assign_eq {name : String} {level : TraceLevel} (same : u.registered = t.registered)
    (known : t.hasTarget name ∨ t.hasTag name) (other : name ≠ "default") :
    u.assign name level = .ok (u.setWhere (t.addresses name) level) := by
  unfold assign addresses
  rw [if_neg other, hasTarget_congr same]
  by_cases named : t.hasTarget name
  · simp [setTarget, hasTarget_congr same, named]
  · have tagged := known.resolve_left named
    simp [setTag, hasTag_congr same, named, tagged]

end Tracing

namespace TraceConfig

open Directive Tracing

/-- A text that gives the default, then each tag, then each target. -/
def Spelt (c : TraceConfig) (text : String) : Prop :=
  ∃ directives, text = String.ofList ([','].intercalate directives) ∧
    List.Forall₂ Spells directives
      (("default", c.default) :: (c.tags.entries ++ c.targets.entries))

/-- The text without blanks in which every level has its own word. -/
def text (c : TraceConfig) : String :=
  String.ofList ([','].intercalate
    ((("default", c.default) :: (c.tags.entries ++ c.targets.entries)).map fun e =>
      e.1.toList ++ '=' :: e.2.text.toList))

/-- The level of a target that had an old one, where the tags are given as directives. -/
def directedFor (c : TraceConfig) (t : Tracing) (target : TraceTarget) (old : TraceLevel) :
    TraceLevel :=
  (c.targets.get? target.name).getD (lastLevel c.tags.entries (t.addresses · target) old)

/-- Every target at that level. -/
def directed (c : TraceConfig) (t : Tracing) : Tracing where
  default := c.default
  targets := t.targets.map fun e => (e.1, c.directedFor t e.1 e.2)

variable {c : TraceConfig} {t : Tracing} {text : String}

theorem spelt_text (c : TraceConfig) : c.Spelt c.text := by
  refine ⟨_, rfl, List.forall₂_map_left_iff.mpr (List.forall₂_same.mpr fun e _ => ?_)⟩
  refine ⟨e.1.toList, e.2.text.toList, e.2.text.toList, rfl, padded_self _,
    padded_self _, parse?_of_toLower ?_⟩
  cases e.2 <;> decide

theorem setEach_addresses (keyed : c.Keyed) (known : c.Known t) :
    (t.setDefault c.default).setEach t.addresses (c.tags.entries ++ c.targets.entries) =
      c.directed t := by
  have named : ∀ (target : TraceTarget) (old : TraceLevel),
      lastLevel c.targets.entries (t.addresses · target) old =
        (c.targets.get? target.name).getD old := by
    intro target old
    rw [← lastLevel_name keyed.targets]
    refine lastLevel_congr (List.filter_congr fun e inside => ?_)
    rw [addresses, if_pos (known.targets e.1 (List.mem_map_of_mem inside))]
  rw [setEach, List.foldl_append, ← setEach, ← setEach, setEach_eq, setEach_eq, directed]
  simp only [List.map_map, Function.comp_def, named]
  rfl

theorem setup_eq (keyed : c.Keyed) (known : c.Known t) (spellable : t.Spellable)
    (spelt : c.Spelt text) :
    setup text t = (.ok (), c.directed t) := by
  obtain ⟨directives, rfl, spells⟩ := spelt
  have registered : ∀ e ∈ c.tags.entries ++ c.targets.entries,
      t.hasTarget e.1 ∨ t.hasTag e.1 := by
    intro e inside
    rcases List.mem_append.mp inside with tag | target
    · exact .inr (known.tags e.1 (List.mem_map_of_mem tag))
    · exact .inl (known.targets e.1 (List.mem_map_of_mem target))
  have fit : ∀ e ∈ c.tags.entries ++ c.targets.entries, e.1 ≠ "default" ∧ Plain e.1 :=
    fun e inside => spellable e.1
      ((registered e inside).elim mem_names_of_hasTarget mem_names_of_hasTag)
  have plain : ∀ e ∈ ("default", c.default) :: (c.tags.entries ++ c.targets.entries),
      Plain e.1 :=
    List.forall_mem_cons.mpr ⟨plain_default, fun e inside => (fit e inside).2⟩
  rw [setup_eq_run spells (List.cons_ne_nil _ _) plain, List.map_cons, run, assign, if_pos rfl,
    ← setEach_addresses keyed known]
  exact run_eq_setEach fun e inside u same =>
    assign_eq same (registered e inside) (fit e inside).1

theorem directedFor_eq_levelFor_iff {target : TraceTarget} {old : TraceLevel} :
    c.directedFor t target old = c.levelFor target old ↔
      (c.targets.get? target.name = none →
        lastLevel c.tags.entries (t.addresses · target) old =
          lastLevel c.tags.entries target.tags.contains old) := by
  unfold directedFor levelFor
  cases c.targets.get? target.name <;> simp

/-- A tag addresses the same targets as a directive unless it is a target's name. -/
theorem lastLevel_addresses (apart : ∀ tag ∈ c.tags.keys, t.hasTarget tag = false)
    (target : TraceTarget) (old : TraceLevel) :
    lastLevel c.tags.entries (t.addresses · target) old =
      lastLevel c.tags.entries target.tags.contains old := by
  refine lastLevel_congr (List.filter_congr fun e inside => ?_)
  rw [addresses, apart e.1 (List.mem_map_of_mem inside)]
  rfl

theorem directed_eq_configured_iff :
    c.directed t = c.configured t ↔ ∀ e ∈ t.targets, c.targets.get? e.1.name = none →
      lastLevel c.tags.entries (t.addresses · e.1) e.2 =
        lastLevel c.tags.entries e.1.tags.contains e.2 := by
  simp only [directed, configured, Tracing.mk.injEq, true_and, List.map_inj_left, Prod.mk.injEq,
    directedFor_eq_levelFor_iff]

/-- The text of a configuration goes through and leaves the default that it gives and every
target at the level given for its name, else for the last tag whose directive addresses
it, else at the one it had. That is what the configuration itself leaves exactly if, for
every target without a level of its own, the last tag that addresses it gives the level of
the last that it carries; and so it is if no tag is also the name of a target. -/
theorem setup_settles (keyed : c.Keyed) (known : c.Known t) (spellable : t.Spellable)
    (spelt : c.Spelt text) :
    (setup text t).1 = .ok () ∧ (setup text t).2.default = c.default ∧
      (setup text t).2.targets = t.targets.map (fun e => (e.1, c.directedFor t e.1 e.2)) ∧
      (setup text t = Tracing.apply c t ↔ ∀ e ∈ t.targets, c.targets.get? e.1.name = none →
        lastLevel c.tags.entries (t.addresses · e.1) e.2 =
          lastLevel c.tags.entries e.1.tags.contains e.2) ∧
      ((∀ tag ∈ c.tags.keys, t.hasTarget tag = false) →
        setup text t = Tracing.apply c t) := by
  rw [setup_eq keyed known spellable spelt, apply_eq keyed known, Prod.mk.injEq]
  refine ⟨rfl, rfl, rfl, ?_, fun apart => ⟨rfl, ?_⟩⟩
  · rw [directed_eq_configured_iff]
    exact and_iff_right rfl
  · exact directed_eq_configured_iff.mpr fun e _ _ => lastLevel_addresses apart e.1 e.2

/-- Two tags, neither of them a target's name, and a target that carries one of them. Blanks and
capitals are read over. -/
theorem setup_settles_ports :
    let t := Tracing.ofTargets switchTargets
    let c : TraceConfig := {
      default := .warn
      tags := ⟨[("ports", .debug), ("config", .error)]⟩
      targets := ⟨[("switch-port", .trace)]⟩ }
    let text := "default=warn, ports = DEBUG,config=Error ,switch-port=trace"
    c.Keyed ∧ c.Known t ∧ t.Spellable ∧ c.Spelt text ∧ setup text t = Tracing.apply c t ∧
      ["port-manager", "datapath-config", "switch-port", "scheduler"].map (setup text t).2.level?
        = [some .debug, some .error, some .trace, some .info] := by
  intro t c text
  have keyed : c.Keyed := ⟨by decide, by decide⟩
  have known : c.Known t := ⟨by decide, by decide⟩
  have spellable : t.Spellable := spellable_switchTargets
  have default : Spells "default=warn".toList ("default", .warn) :=
    ⟨"default".toList, "warn".toList, "warn".toList, by decide, padded_self _, padded_self _,
      parse?_of_toLower (by decide)⟩
  have ports : Spells " ports = DEBUG".toList ("ports", .debug) :=
    ⟨" ports ".toList, " DEBUG".toList, "DEBUG".toList, by decide,
      ⟨[' '], [' '], rfl, rfl, by decide⟩, ⟨[' '], [], rfl, rfl, by decide⟩,
      parse?_of_toLower (by decide)⟩
  have config : Spells "config=Error ".toList ("config", .error) :=
    ⟨"config".toList, "Error ".toList, "Error".toList, by decide, padded_self _,
      ⟨[], [' '], rfl, rfl, by decide⟩, parse?_of_toLower (by decide)⟩
  have target : Spells "switch-port=trace".toList ("switch-port", .trace) :=
    ⟨"switch-port".toList, "trace".toList, "trace".toList, by decide, padded_self _,
      padded_self _, parse?_of_toLower (by decide)⟩
  have spelt : c.Spelt text :=
    ⟨_, by decide, .cons default (.cons ports (.cons config (.cons target .nil)))⟩
  have settled := setup_settles keyed known spellable spelt
  have agreed := settled.2.2.2.2 (by decide)
  refine ⟨keyed, known, spellable, spelt, agreed, ?_⟩
  rw [agreed]
  decide

/-- A tag that is also a target's name: the configuration sets it for all that carry it,
its text for the target alone. -/
theorem setup_ne_apply_pipeline :
    let t := Tracing.ofTargets switchTargets
    let c : TraceConfig := { tags := ⟨[("pipeline", .debug)]⟩ }
    t.Distinct ∧ c.Keyed ∧ c.Known t ∧ t.Spellable ∧ c.Spelt "default=info,pipeline=debug" ∧
      (setup "default=info,pipeline=debug" t).2.level? "scheduler" = some .info ∧
      (Tracing.apply c t).2.level? "scheduler" = some .debug := by
  intro t c
  have keyed : c.Keyed := ⟨by decide, by decide⟩
  have known : c.Known t := ⟨by decide, by decide⟩
  have spellable : t.Spellable := spellable_switchTargets
  have spelt : c.Spelt "default=info,pipeline=debug" := by
    have text : c.text = "default=info,pipeline=debug" := by decide
    exact text ▸ spelt_text c
  refine ⟨by decide, keyed, known, spellable, spelt, ?_, ?_⟩
  · rw [setup_eq keyed known spellable spelt]
    decide
  · decide

end TraceConfig

end FlowSwitch
