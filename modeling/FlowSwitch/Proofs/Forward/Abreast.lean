import FlowSwitch.Proofs.Forward.Watch
import FlowSwitch.Proofs.Tables.Installed

/-!
# Passes side by side

Two passes go in step if they stand in one relation while both go on, and end early only
together, and then stand in another one. If the single parts of walks and of actions keep
passes in step, so do whole walks and whole actions, which may differ in how many groups
they may enter and in how they send a frame back to the first table. One of them may be
watched, as long as the watch ends no pass in step. A pass next to itself is in step as
long as it keeps an invariant; with none to keep, this shows that a watch that ends no pass
changes nothing.
-/

namespace FlowSwitch

namespace Run

/-- How two passes stand to each other while both go on, and when both have ended early. -/
structure Bond where
  during : Pass → Pass → Prop
  ended : Halt → Pass → Halt → Pass → Prop

namespace Bond

variable {α β : Type} {B : Bond}

/-- Two parts of passes gave one answer and left the passes in step, or ended them together. -/
inductive Leaves (B : Bond) (answers : α → Prop) :
    Except Halt α × Pass → Except Halt α × Pass → Prop
  | ok {a : α} {p q : Pass} (answer : answers a) (here : B.during p q) :
    Leaves B answers (.ok a, p) (.ok a, q)
  | error {h k : Halt} {p q : Pass} (here : B.ended h p k q) :
    Leaves B answers (.error h, p) (.error k, q)

/-- Whether two parts keep passes in step, and what holds of their answers. -/
def Keeps (B : Bond) (x y : Run α) (answers : α → Prop := fun _ => True) : Prop :=
  ∀ p q, B.during p q → B.Leaves answers (x.on p) (y.on q)

/-- A pass next to itself, which keeps an invariant and leaves another one when it ends early. -/
def alone (I : Pass → Prop) (E : Halt → Pass → Prop) : Bond where
  during p q := p = q ∧ I p
  ended h p k q := h = k ∧ p = q ∧ E h p

theorem keeps_alone {I : Pass → Prop} {E : Halt → Pass → Prop} {x : Run α} {answers : α → Prop}
    (ok : ∀ p a q, I p → x.on p = (.ok a, q) → answers a ∧ I q)
    (error : ∀ p h q, I p → x.on p = (.error h, q) → E h q) :
    (alone I E).Keeps x x answers := by
  rintro p _ ⟨rfl, held⟩
  cases ran : x.on p with
  | mk r q =>
    cases r with
    | ok a =>
      obtain ⟨answer, kept⟩ := ok p a q held ran
      exact .ok answer ⟨rfl, kept⟩
    | error h => exact .error ⟨rfl, rfl, error p h q held ran⟩

theorem Keeps.pure {a : α} {answers : α → Prop} (answer : answers a) :
    B.Keeps (Pure.pure a) (Pure.pure a) answers :=
  fun _ _ here => .ok answer here

theorem Keeps.bind {x y : Run α} {f g : α → Run β} {A : α → Prop} {answers : β → Prop}
    (first : B.Keeps x y A) (next : ∀ a, A a → B.Keeps (f a) (g a) answers) :
    B.Keeps (x >>= f) (y >>= g) answers := by
  intro p q here
  have begun := first p q here
  rw [on_bind, on_bind]
  generalize x.on p = left at begun
  generalize y.on q = right at begun
  cases begun with
  | ok answer here => exact next _ answer _ _ here
  | error here => exact .error here

/-- Parts that keep a pass in step with itself do the same to it. -/
theorem Keeps.on_eq {I : Pass → Prop} {E : Halt → Pass → Prop} {x y : Run α} {answers : α → Prop}
    (kept : (alone I E).Keeps x y answers) {p : Pass} (held : I p) : x.on p = y.on p := by
  have done := kept p p ⟨rfl, held⟩
  generalize x.on p = left at done
  generalize y.on p = right at done
  cases done with
  | ok _ here =>
    obtain ⟨rfl, -⟩ := here
    rfl
  | error here =>
    obtain ⟨rfl, rfl, -⟩ := here
    rfl

/-- A pass next to itself where it may enter no more groups: the group is not there, or it ends. -/
theorem alone_endless {I : Pass → Prop} {E : Halt → Pass → Prop} {m n : Nat} {id : GroupId}
    {p q : Pass} (ended : ∀ p, I p → E .endless p) (same : m = n) (spent : m = 0 ∨ n = 0)
    (here : (alone I E).during p q) :
    p.tables.groups.contains id = false ∧ q.tables.groups.contains id = false ∨
      p.tables.groups.contains id = true ∧ q.tables.groups.contains id = true ∧
        m = 0 ∧ n = 0 ∧ (alone I E).ended .endless p .endless q := by
  obtain ⟨rfl, held⟩ := here
  have none : m = 0 ∧ n = 0 := by omega
  cases there : p.tables.groups.contains id with
  | false => exact .inl ⟨rfl, rfl⟩
  | true => exact .inr ⟨rfl, rfl, none.1, none.2, rfl, rfl, ended p held⟩

theorem composes (B : Bond) : Likeness.Composes fun _ x y answers => B.Keeps x y answers :=
  ⟨.pure, .bind⟩

end Bond

/-! ## What the parts of a pass do -/

/-- The actions of a bucket are those of its list. -/
theorem mem_of_enterBucket {id : GroupId} {place : Nat} {p q : Pass} {actions : List Action}
    (ran : (enterBucket id place).on p = (.ok actions, q)) {a : Action} (inside : a ∈ actions) :
    ∃ l ∈ p.tables.bucketLists id, a ∈ l.actions := by
  simp only [enterBucket, on_bind, on_get, modifyTables, on_modify] at ran
  obtain rfl := Except.ok.inj (Prod.mk.inj ran).1
  unfold Tables.bucketLists
  cases found : p.tables.groups.get? id with
  | none => simp [found] at inside
  | some g =>
    cases here : g.buckets[place]? with
    | none => simp [found, here] at inside
    | some b =>
      simp only [found, Option.bind_some, here, Option.map_some, Option.getD_some] at inside
      exact ⟨b.actions, List.mem_map_of_mem (List.mem_of_getElem? here), inside⟩

/-- The entry that a lookup finds is one of the table. -/
theorem mem_of_look {table : TableId} {p q : Pass} {e : FlowEntry}
    (looked : (look table).on p = (.ok (some e), q)) :
    ∃ f, p.tables.flowTable? table = some f ∧ e ∈ f.entries := by
  rw [on_look] at looked
  cases view : p.frame.view with
  | none =>
    rw [view] at looked
    cases looked
  | some v =>
    rw [view] at looked
    exact Tables.mem_entries_of_classify (Except.ok.inj (Prod.mk.inj looked).1)

/-- What a lookup finds follows instructions that the tables had before any packet was counted. -/
theorem exists_mem_entries_of_look {t : Tables} {table : TableId} {p q : Pass} {e : FlowEntry}
    (held : p.tables.settled = t.settled) (looked : (look table).on p = (.ok (some e), q)) :
    ∃ e₀ ∈ t.entries, e₀.instructions = e.instructions := by
  obtain ⟨f, found, inside⟩ := mem_of_look looked
  exact Tables.exists_mem_entries_of_settled held (Tables.mem_entries.mpr ⟨table, f, found, inside⟩)

theorem enterGroup_of_missing (s : Setting) {id : GroupId} {p : Pass}
    (missing : p.tables.groups.contains id = false) : (enterGroup s id).on p = (.ok [], p) := by
  have none : p.tables.groups.get? id = none := by
    rw [Registry.contains_eq_isSome] at missing
    simpa using missing
  simp only [enterGroup, on_bind, on_get, none]
  rfl

/-- A group that is not there does nothing, however many may be entered. -/
theorem perform_group_of_missing {s : Setting} {resubmit : Run Unit} {origin : Option EntryRef}
    {id : GroupId} {p : Pass} (missing : p.tables.groups.contains id = false) (chain : Nat) :
    (perform s resubmit origin chain (.group id)).on p = (.ok (), p) := by
  cases chain with
  | zero =>
    simp only [perform, on_bind, on_get, missing]
    rfl
  | succ chain =>
    rw [perform, on_bind_ok (enterGroup_of_missing s missing)]
    rfl

theorem perform_group_of_spent {s : Setting} {resubmit : Run Unit} {origin : Option EntryRef}
    {id : GroupId} {p : Pass} (there : p.tables.groups.contains id = true) :
    (perform s resubmit origin 0 (.group id)).on p = (.error .endless, p) := by
  simp only [perform, on_bind, on_get, there]
  rfl

theorem watched_group_of_missing {w : Watch} {s : Setting} {resubmit : Run Unit}
    {origin : Option EntryRef} {id : GroupId} {p : Pass} (free : w (.enterGroup id) p = none)
    (missing : p.tables.groups.contains id = false) (chain : Nat) :
    (w.perform s resubmit origin chain (.group id)).on p = (.ok (), p) := by
  cases chain with
  | zero => exact perform_group_of_missing missing 0
  | succ chain =>
    have entered : (w.enterGroup s id).on p = (.ok [], p) :=
      (on_bind_ok (Watch.on_check_none free) _).trans (enterGroup_of_missing s missing)
    rw [Watch.perform, throughGroup, on_bind_ok entered]
    rfl

/-- Whether an action may be carried out in two passes that are in step, entering as many groups
as each of them may. -/
def Bond.Permits (B : Bond) (ok : Nat → Nat → Action → Prop) (a : Action) : Prop :=
  ∀ p q, B.during p q → ok (maxChain p.tables.groups) (maxChain q.tables.groups) a

/-- A pass next to itself may enter as many groups as the other. -/
theorem Bond.permits_alone {I : Pass → Prop} {E : Halt → Pass → Prop} (a : Action) :
    (alone I E).Permits (fun m n _ => m = n) a := by
  rintro p _ ⟨rfl, -⟩
  rfl

/-- What an entry may do in two passes that are in step. -/
def Bond.Admits (B : Bond) (ok : Nat → Nat → Action → Prop) (e : FlowEntry) : Prop :=
  ∀ l ∈ e.instructions.actionLists, ∀ a ∈ l.actions, B.Permits ok a

/-- Whether a pass can come to a place where it may be ended. -/
def Checkpoint.Reached (found : TableId → FlowEntry → Prop) : Checkpoint → Prop
  | .change | .enterGroup _ | .look => True
  | .follow e | .write e => ∃ table, found table e
  | .leave table e => found table e

/-- The single parts of passes keep them in step, and the watch on the first one lets it go on. `ok`
tells which actions may be carried out if each pass may still enter so many groups, and `found` what
holds of the entries that are looked up. -/
structure Lockstep (w : Watch) (s : Setting) (B : Bond) (ok : Nat → Nat → Action → Prop)
    (found : TableId → FlowEntry → Prop := fun _ _ => True) : Prop where
  heed : ∀ {c p q}, B.during p q → c.Reached found → w c p = none
  refuse : ∀ {p q}, B.during p q → B.ended (.refused .failed) p (.refused .failed) q
  restore : ∀ {p q p' q'}, B.during p q → B.during p' q' →
    B.during { p' with frame := p.frame } { q' with frame := q.frame }
  restoreEnd : ∀ {p q h k p' q'}, B.during p q → B.ended h p' k q' →
    B.ended h { p' with frame := p.frame } k { q' with frame := q.frame }
  plain : ∀ a : Action, a.sends = false → B.Permits ok a
  change : ∀ origin (a : Action), a.sends = false → B.Keeps (change s origin a) (change s origin a)
  toController : ∀ origin maxLength, B.Keeps (modify (·.toController s origin maxLength))
    (modify (·.toController s origin maxLength))
  send : ∀ {m n port maxLength}, ok m n (.output port maxLength) →
    B.Keeps (sendOut port) (sendOut port)
  enterGroup : ∀ id, B.Keeps (enterGroup s id) (enterGroup s id)
  enterBucket : ∀ {m n id} place, ok (m + 1) (n + 1) (.group id) →
    B.Keeps (enterBucket id place) (enterBucket id place) fun actions => ∀ a ∈ actions, ok m n a
  /-- Where no more groups may be entered, the group is not there or both passes end. -/
  endless : ∀ {m n id p q}, ok m n (.group id) → m = 0 ∨ n = 0 → B.during p q →
    p.tables.groups.contains id = false ∧ q.tables.groups.contains id = false ∨
      p.tables.groups.contains id = true ∧ q.tables.groups.contains id = true ∧
        m = 0 ∧ n = 0 ∧ B.ended .endless p .endless q
  look : ∀ table, B.Keeps (look table) (look table) fun hit => ∀ e, hit = some e → found table e
  admits : ∀ {table e}, found table e → B.Admits ok e
  countFrame : ∀ e, B.Keeps (countFrame s e) (countFrame s e)
  police : ∀ {table e id}, found table e → e.instructions.meter = some id →
    B.Keeps (police id s.now) (police id s.now)
  writeMetadata : ∀ f : UInt64 → UInt64,
    B.Keeps (changeContext fun c => { c with metadata := f c.metadata })
      (changeContext fun c => { c with metadata := f c.metadata })

namespace Lockstep

variable {w : Watch} {s : Setting} {B : Bond} {ok : Nat → Nat → Action → Prop}
  {found : TableId → FlowEntry → Prop} {again again' : Run Unit}

theorem onCopy (steps : Lockstep w s B ok found) {x y : Run Unit} (kept : B.Keeps x y) :
    B.Keeps (Run.onCopy x) (Run.onCopy y) := by
  intro p q here
  have done := kept p q here
  rw [on_onCopy, on_onCopy]
  generalize x.on p = left at done
  generalize y.on q = right at done
  cases done with
  | ok answer after => exact .ok answer (steps.restore here after)
  | error after => exact .error (steps.restoreEnd here after)

theorem check_bind (steps : Lockstep w s B ok found) (c : Checkpoint) (reached : c.Reached found)
    {α : Type} {x y : Run α} {answers : α → Prop} (kept : B.Keeps x y answers) :
    B.Keeps (do w.check c; x) y answers := by
  intro p q here
  rw [on_bind_ok (Watch.on_check_none (steps.heed here reached))]
  exact kept p q here

theorem watched_look (steps : Lockstep w s B ok found) (table : TableId) :
    B.Keeps (w.look table) (Run.look table) fun hit => ∀ e, hit = some e → found table e := by
  refine steps.check_bind .look trivial fun p q here => ?_
  have done := steps.look table p q here
  rw [on_bind]
  generalize (Run.look table).on p = left at done
  generalize (Run.look table).on q = right at done
  cases done with
  | @ok hit p' q' there here =>
    have passed : (hit.forM fun e => w.check (.follow e)).on p' = (.ok (), p') := by
      cases hit with
      | none => rfl
      | some e => exact Watch.on_check_none (steps.heed here ⟨table, there e rfl⟩)
    simp only [on_bind_ok passed]
    exact .ok there here
  | error here => exact .error here

/-- Where no more groups may be entered, and none is. -/
theorem spent (steps : Lockstep w s B ok found) (origin : Option EntryRef) {m n : Nat}
    {id : GroupId} (allowed : ok m n (.group id)) (none : m = 0 ∨ n = 0) :
    B.Keeps (w.perform s again origin m (.group id))
      (Run.perform s again' origin n (.group id)) := by
  intro p q here
  rcases steps.endless allowed none here with
    ⟨missing, missing'⟩ | ⟨there, there', rfl, rfl, ended⟩
  · have free : w (.enterGroup id) p = Option.none := steps.heed here trivial
    rw [watched_group_of_missing free missing, perform_group_of_missing missing']
    exact .ok trivial here
  · show B.Leaves _ ((Run.perform s again origin 0 (.group id)).on p) _
    rw [perform_group_of_spent there, perform_group_of_spent there']
    exact .error ended

theorem simulation (steps : Lockstep w s B ok found) :
    Simulation w s (fun _ x y answers => B.Keeps x y answers) ok (B.Permits ok) found where
  toComposes := B.composes
  refuse _ _ here := .error (steps.refuse here)
  onCopy := steps.onCopy
  room permitted kept p q here := by
    simp only [on_bind, on_get]
    exact kept _ _ (permitted p q here) p q here
  plain := steps.plain
  change origin a plain := steps.check_bind .change trivial (steps.change origin a plain)
  toController := steps.toController
  send := steps.send
  group {m n id f g} allowed each := by
    have entered := steps.check_bind (.enterGroup id) trivial (steps.enterGroup id)
    refine .bind entered fun places _ => ?_
    refine B.composes.forM places fun place _ => ?_
    refine .bind (steps.enterBucket place allowed) fun actions inside => ?_
    exact steps.onCopy (B.composes.forM actions fun a among => each a (inside a among))
  spent _ _ origin allowed none := steps.spent origin allowed none
  look := steps.watched_look
  permitted := steps.admits
  countFrame := steps.countFrame
  police := steps.police
  write {table e _ _ _ _} there kept := steps.check_bind (.write e) ⟨table, there⟩ kept
  leave {table e _ _ _ _} there kept := steps.check_bind (.leave table e) there kept
  writeMetadata := steps.writeMetadata

end Lockstep

/-! ## A watch that ends no pass -/

section Idle

variable (s : Setting) (again : Run Unit)

/-- Any pass next to itself. -/
abbrev anyway : Bond := .alone (fun _ => True) fun _ _ => True

theorem keeps_anyway {α : Type} (x : Run α) {answers : α → Prop}
    (answer : ∀ a, answers a := by exact fun _ => trivial) : anyway.Keeps x x answers :=
  Bond.keeps_alone (fun _ a _ _ _ => ⟨answer a, trivial⟩) fun _ _ _ _ _ => trivial

theorem lockstep_idle : Lockstep .idle s anyway fun m n _ => m = n where
  heed _ _ := rfl
  refuse := by
    rintro p _ ⟨rfl, -⟩
    exact ⟨rfl, rfl, trivial⟩
  restore := by
    rintro p _ p' _ ⟨rfl, -⟩ ⟨rfl, -⟩
    exact ⟨rfl, trivial⟩
  restoreEnd := by
    rintro p _ h _ p' _ ⟨rfl, -⟩ ⟨rfl, rfl, -⟩
    exact ⟨rfl, rfl, trivial⟩
  plain a _ := Bond.permits_alone a
  change origin a _ := keeps_anyway (change s origin a)
  toController _ _ := keeps_anyway _
  send _ := keeps_anyway _
  enterGroup id := keeps_anyway (enterGroup s id)
  enterBucket place same := keeps_anyway _ fun _ _ _ => Nat.succ.inj same
  endless := Bond.alone_endless fun _ _ => trivial
  look table := keeps_anyway (look table) fun _ _ _ => trivial
  admits _ _ _ a _ := Bond.permits_alone a
  countFrame e := keeps_anyway (countFrame s e)
  police _ _ := keeps_anyway _
  writeMetadata _ := keeps_anyway _

theorem eq_of_keeps_anyway {x y : Run Unit} (kept : anyway.Keeps x y) : x = y :=
  funext fun _ => kept.on_eq trivial

theorem idle_perform (origin : Option EntryRef) (chain : Nat) (a : Action) :
    Watch.idle.perform s again origin chain a = Run.perform s again origin chain a :=
  eq_of_keeps_anyway <|
    (lockstep_idle s).simulation.perform (keeps_anyway again) origin chain chain a rfl

theorem idle_walk (table : TableId) (gathered : ActionSet) :
    Watch.idle.walk s again table gathered = Run.walk s again table gathered :=
  eq_of_keeps_anyway <| (lockstep_idle s).simulation.walk (keeps_anyway again) table gathered
    fun _ w _ => Bond.permits_alone w.action

theorem idle_resubmit (depth : Nat) : Watch.idle.resubmit s depth = Run.resubmit s depth :=
  eq_of_keeps_anyway ((lockstep_idle s).simulation.resubmit depth)

theorem idle_process : Watch.idle.process s = Run.process s :=
  eq_of_keeps_anyway (lockstep_idle s).simulation.process

theorem idle_carryOut (actions : ActionList) :
    Watch.idle.carryOut s actions = Run.carryOut s actions :=
  eq_of_keeps_anyway <| (lockstep_idle s).simulation.carryOut actions
    fun a _ => Bond.permits_alone a

end Idle

namespace Lockstep

variable {s : Setting} {B : Bond} {ok : Nat → Nat → Action → Prop}
  {found : TableId → FlowEntry → Prop} {again again' : Run Unit}
  (steps : Lockstep .idle s B ok found)

include steps

theorem perform (resubmits : B.Keeps again again') (origin : Option EntryRef) (m n : Nat)
    (a : Action) (allowed : ok m n a) :
    B.Keeps (Run.perform s again origin m a) (Run.perform s again' origin n a) :=
  idle_perform s again origin m a ▸ steps.simulation.perform resubmits origin m n a allowed

theorem walk (resubmits : B.Keeps again again') (table : TableId) (gathered : ActionSet)
    (all : gathered.All (B.Permits ok)) :
    B.Keeps (Run.walk s again table gathered) (Run.walk s again' table gathered) :=
  idle_walk s again table gathered ▸ steps.simulation.walk resubmits table gathered all

theorem resubmit (depth : Nat) : B.Keeps (Run.resubmit s depth) (Run.resubmit s depth) := by
  have kept := steps.simulation.resubmit depth
  rwa [idle_resubmit] at kept

theorem process : B.Keeps (Run.process s) (Run.process s) := by
  have kept := steps.simulation.process
  rwa [idle_process] at kept

theorem carryOut (actions : ActionList) (permitted : ∀ a ∈ actions.actions, B.Permits ok a) :
    B.Keeps (Run.carryOut s actions) (Run.carryOut s actions) := by
  have kept := steps.simulation.carryOut actions permitted
  rwa [idle_carryOut] at kept

end Lockstep

end Run

end FlowSwitch
