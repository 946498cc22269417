import FlowSwitch.Proofs.Forward.Abreast
import FlowSwitch.Proofs.Forward.View
import FlowSwitch.Proofs.Tables.Onward
import FlowSwitch.Proofs.Tables.Plans

/-!
# What passes take for granted

A pass gives up where the frame has no view, the entry to follow is not there or leads back,
an action cannot be written into the set, or a group cannot be carried out. With a check in
each of these places, which ends the pass in a way of its own, passes over tables in order
do the same: no check ever fails.
-/

namespace FlowSwitch

/-- What a pass takes for granted, and what is wrong where it may not. -/
inductive Fault
  /-- The frame has no view. -/
  | unread
  /-- The entry that the frame follows is not there. -/
  | lost (ref : EntryRef)
  /-- The entry does not lead to a later table. -/
  | backward (ref : EntryRef)
  /-- The entry writes an action that no set can hold. -/
  | unwritable (ref : EntryRef)
  /-- The group has a type that is not carried out, or not the only bucket that it should have. -/
  | closed (id : GroupId)

/-- Whether a group chooses buckets for every packet. -/
def Group.isOpen (g : Group) : Bool :=
  match g.type with
  | .all | .select => true
  | .indirect => g.buckets.length == 1
  | .fastFailover => false

theorem Group.isOpen_iff (g : Group) (livePort : PortNo → Bool) (pick : UInt64) :
    g.isOpen = true ↔ ∃ places, g.choose livePort pick = .ok places := by
  unfold isOpen choose
  cases g.type with
  | all => simp
  | select => simp
  | indirect => by_cases single : g.buckets.length = 1 <;> simp [single]
  | fastFailover => simp

theorem GroupPlan.Sound.isOpen {g : Group} (sound : g.plan.Sound) : g.isOpen = true := by
  have offered := sound.ne_fastFailover
  have single := sound.single
  unfold Group.isOpen
  unfold Group.plan at offered single
  cases type : g.type with
  | all => rfl
  | select => rfl
  | indirect => simpa using single type
  | fastFailover => exact absurd type offered

/-- Whether an entry of a table leads to a later one, if it leads anywhere. -/
def InstructionSet.isOnward (s : InstructionSet) (table : TableId) : Bool :=
  s.gotoTable.all fun next => table != TableId.last && decide (table < next)

/-- Whether a set can hold the actions that are to be written. -/
def InstructionSet.isWritable (s : InstructionSet) : Bool :=
  s.writeActions.all fun l => l.actions.all fun a => !a.isExperimenter

namespace InstructionSet

theorem Onward.isOnward {s : InstructionSet} {table : TableId} (onward : s.Onward table) :
    s.isOnward table = true := by
  unfold InstructionSet.isOnward
  cases leads : s.gotoTable with
  | none => rfl
  | some next =>
    obtain ⟨later, within⟩ := onward next leads
    have before : table ≠ TableId.last := fun same => UInt8.not_lt.mpr within (same ▸ later)
    simp [before, later]

theorem isWritable_eq (s : InstructionSet) : s.isWritable = true := by
  unfold isWritable
  cases s.writeActions with
  | none => rfl
  | some l => simpa using l.supported

end InstructionSet

namespace Tables

theorem isSome_entry?_of_own {t : Tables} (own : t.Each FlowTable.Own) {table : TableId}
    {f : FlowTable} (found : t.flowTable? table = some f) {e : FlowEntry} (inside : e ∈ f.entries) :
    (t.entry? e.ref).isSome = true := by
  have here : e.ref.table = table := own table f found e inside
  rw [entry?_eq_bind, here, found, Option.bind_some, FlowTable.find?, List.find?_isSome]
  exact ⟨e, inside, by simp⟩

end Tables

namespace Run

/-- What a pass takes for granted in a place. -/
def Checkpoint.holds (p : Pass) : Checkpoint → Bool
  | .change | .look => p.frame.view.isSome
  | .enterGroup id => (p.tables.groups.get? id).all (·.isOpen)
  | .follow e => (p.tables.entry? e.ref).isSome
  | .write e => e.instructions.isWritable
  | .leave table e => e.instructions.isOnward table

/-- What is wrong in a place where that does not hold. -/
def Checkpoint.fault : Checkpoint → Fault
  | .change | .look => .unread
  | .enterGroup id => .closed id
  | .follow e => .lost e.ref
  | .write e => .unwritable e.ref
  | .leave _ e => .backward e.ref

/-- Ends a pass at the first fault. -/
def faults (fault : Fault → Halt) : Watch := fun c p =>
  if c.holds p then none else some (fault c.fault)

/-- What the tables of a pass owe it, whatever was counted in them. -/
structure Orderly (t : Tables) : Prop where
  planned : t.Planned
  onward : t.Onward
  own : t.Each FlowTable.Own

/-- An entry that is there and leads to later tables. -/
structure Found (t : Tables) (table : TableId) (e : FlowEntry) : Prop where
  there : (t.entry? e.ref).isSome = true
  onward : e.instructions.Onward table

/-- A pass next to itself, over tables that stay the same but for their counters, with a frame
whose view describes its bytes. -/
abbrev inOrder (t : Tables) : Bond :=
  .alone (fun p => p.tables.settled = t.settled ∧ p.frame.Consistent) fun _ _ => True

section Keeps

variable {t : Tables} {α : Type}

/-- What spares the view and counts only. -/
theorem keeps_inOrder {x : Run α} {answers : α → Prop} (settled : Obeys keepsSettled x)
    (view : Obeys keepsView x)
    (answer : ∀ p a q, p.tables.settled = t.settled → x.on p = (.ok a, q) → answers a) :
    (inOrder t).Keeps x x answers := by
  refine Bond.keeps_alone ?_ fun _ _ _ _ _ => trivial
  rintro p a q ⟨same, consistent⟩ ran
  have kept := settled p
  have spared := view p consistent
  rw [ran] at kept spared
  exact ⟨answer p a q same ran, kept.trans same, spared.1 (.inl rfl)⟩

theorem keeps_inOrder_unit {x : Run Unit} (settled : Obeys keepsSettled x)
    (view : Obeys keepsView x) : (inOrder t).Keeps x x :=
  keeps_inOrder settled view fun _ _ _ _ _ => trivial

/-- What a pass takes for granted is there, wherever it comes over tables in order. -/
theorem holds_of_reached (orderly : Orderly t) {p : Pass} (same : p.tables.settled = t.settled)
    (consistent : p.frame.Consistent) {c : Checkpoint} (reached : c.Reached (Found t)) :
    c.holds p = true := by
  cases c with
  | change | look =>
    obtain ⟨h, c, view, -⟩ := consistent.view
    rw [Checkpoint.holds, view]
    rfl
  | enterGroup id =>
    cases found : p.tables.groups.get? id with
    | none => simp [Checkpoint.holds, found]
    | some g =>
      have plan : p.tables.plan? id = some g.plan := by rw [Tables.plan?, found]; rfl
      have planned := orderly.planned.of_plan? (Tables.plan?_of_settled same)
      simpa [Checkpoint.holds, found] using (planned id g.plan plan).2.isOpen
  | follow e =>
    obtain ⟨table, found⟩ := reached
    exact (Tables.isSome_entry?_of_settled same e.ref).trans found.there
  | write e => exact e.instructions.isWritable_eq
  | leave table e => exact (Found.onward reached).isOnward

/-- The entry that a lookup finds is there, and leads to later tables. -/
theorem found_of_look (orderly : Orderly t) {table : TableId} {p q : Pass} {e : FlowEntry}
    (same : p.tables.settled = t.settled) (looked : (look table).on p = (.ok (some e), q)) :
    Found t table e := by
  obtain ⟨f, found, inside⟩ := mem_of_look looked
  have own : p.tables.Each FlowTable.Own :=
    orderly.own.of_outlines FlowTable.kept_own (Tables.outlines_of_settled same)
  have there := Tables.isSome_entry?_of_own own found inside
  rw [Tables.isSome_entry?_of_settled same] at there
  exact ⟨there, orderly.onward.of_settled same table f found e inside⟩

end Keeps

section Lockstep

variable {t : Tables} (orderly : Orderly t) (fault : Fault → Halt) (s : Setting)

include orderly

theorem lockstep_faults :
    Lockstep (faults fault) s (inOrder t) (fun m n _ => m = n) (Found t) := by
  have settled := steps_keepsSettled s
  have view := steps_keepsView s
  exact {
    heed := by
      rintro c p _ ⟨rfl, same, consistent⟩ reached
      exact if_pos (holds_of_reached orderly same consistent reached)
    refuse := by
      rintro p _ ⟨rfl, -⟩
      exact ⟨rfl, rfl, trivial⟩
    restore := by
      rintro p _ p' _ ⟨rfl, -, consistent⟩ ⟨rfl, same, -⟩
      exact ⟨rfl, same, consistent⟩
    restoreEnd := by
      rintro p _ h _ p' _ ⟨rfl, -⟩ ⟨rfl, rfl, -⟩
      exact ⟨rfl, rfl, trivial⟩
    plain := fun a _ => Bond.permits_alone a
    change := fun origin a _ =>
      keeps_inOrder_unit (settled.change origin a) (view.change origin a)
    toController := fun origin maxLength =>
      keeps_inOrder_unit (settled.toController origin maxLength)
        (view.toController origin maxLength)
    send := fun {_ _ port _} _ => keeps_inOrder_unit (settled.sendOut port) (view.sendOut port)
    enterGroup := fun id =>
      keeps_inOrder (settled.enterGroup id) (view.enterGroup id) fun _ _ _ _ _ => trivial
    enterBucket := fun {_ _ id} place same =>
      keeps_inOrder (settled.enterBucket id place) (view.enterBucket id place)
        fun _ _ _ _ _ _ _ => Nat.succ.inj same
    endless := Bond.alone_endless fun _ _ => trivial
    look := fun table => by
      refine keeps_inOrder (settled.look table) (view.look table) ?_
      rintro p _ q same looked e rfl
      exact found_of_look orderly same looked
    admits := fun _ _ _ a _ => Bond.permits_alone a
    countFrame := fun e => keeps_inOrder_unit (settled.countFrame e) (view.countFrame e)
    police := fun {_ _ id} _ _ => keeps_inOrder_unit (settled.police id) (view.police id)
    writeMetadata := fun f => keeps_inOrder_unit (settled.writeMetadata f) (view.writeMetadata f) }

end Lockstep

/-! ## Where groups fail -/

section Groups

variable {t : Tables} {s : Setting} {p q : Pass} {h : Halt}

/-- Whether a pass stands over some tables, their counters aside, with a frame in order. -/
def Stands (t : Tables) (p : Pass) : Prop := p.tables.settled = t.settled ∧ p.frame.Consistent

theorem Stands.of_ok {α : Type} {x : Run α} {a : α} (stands : Stands t p)
    (settled : Obeys keepsSettled x) (view : Obeys keepsView x) (ran : x.on p = (.ok a, q)) :
    Stands t q := by
  have kept := settled p
  have spared := view p stands.2
  rw [ran] at kept spared
  exact ⟨kept.trans stands.1, spared.1 (.inl rfl)⟩

/-- Where one thing is done after the other, the first one that fails is the one that fails.
Induction on what is left to do. -/
theorem exists_of_forM_error {α : Type} {l : List α} {f : α → Run Unit}
    (settled : ∀ a ∈ l, Obeys keepsSettled (f a)) (view : ∀ a ∈ l, Obeys keepsView (f a))
    (stands : Stands t p) (ran : (l.forM f).on p = (.error h, q)) :
    ∃ a ∈ l, ∃ p', Stands t p' ∧ (f a).on p' = (.error h, q) := by
  induction l generalizing p with
  | nil => cases ran
  | cons a l ih =>
    rw [forM_cons] at ran
    cases first : (f a).on p with
    | mk r p' =>
      cases r with
      | error k =>
        rw [on_bind_error first] at ran
        exact ⟨a, List.mem_cons_self, p, stands, first.trans ran⟩
      | ok _ =>
        rw [on_bind_ok first] at ran
        obtain ⟨b, inside, p'', here, failed⟩ :=
          ih (fun b inside => settled b (List.mem_cons_of_mem _ inside))
            (fun b inside => view b (List.mem_cons_of_mem _ inside))
            (stands.of_ok (settled a List.mem_cons_self) (view a List.mem_cons_self) first) ran
        exact ⟨b, List.mem_cons_of_mem _ inside, p'', here, failed⟩

/-- A group that can be carried out chooses its buckets. -/
theorem exists_enterGroup (planned : p.tables.Planned) (s : Setting) (id : GroupId) :
    ∃ places q, (enterGroup s id).on p = (.ok places, q) := by
  rcases enterGroup_cases s id p with ⟨-, none⟩ | ⟨g, found, pick, q, entered, -⟩
  · exact ⟨[], p, none⟩
  · have plan : p.tables.plan? id = some g.plan := by rw [Tables.plan?, found]; rfl
    have isOpen := (planned id g.plan plan).2.isOpen
    obtain ⟨places, chosen⟩ := (g.isOpen_iff p.ports.isLive pick).mp isOpen
    rw [chosen] at entered
    exact ⟨places, q, entered⟩

/-- A group that is refused is refused because of an action in one of its buckets. -/
theorem exists_of_group_refused {again : Run Unit} (settled : Obeys keepsSettled again)
    (view : Obeys keepsView again) {origin : Option EntryRef} {chain : Nat} {id : GroupId}
    {e : SwitchError} (planned : t.Planned) (stands : Stands t p)
    (ran : (perform s again origin chain (.group id)).on p = (.error (.refused e), q)) :
    ∃ rest, chain = rest + 1 ∧ ∃ l ∈ t.bucketLists id, ∃ a ∈ l.actions, ∃ p' q', Stands t p' ∧
      (perform s again origin rest a).on p' = (.error (.refused e), q') := by
  have counts := steps_keepsSettled s
  have spares := steps_keepsView s
  cases chain with
  | zero =>
    cases there : p.tables.groups.contains id with
    | false =>
      rw [perform_group_of_missing there] at ran
      cases ran
    | true =>
      rw [perform_group_of_spent there] at ran
      cases ran
  | succ rest =>
    refine ⟨rest, rfl, ?_⟩
    obtain ⟨places, p₁, entered⟩ := exists_enterGroup
      (planned.of_plan? (Tables.plan?_of_settled stands.1)) s id
    have stands₁ : Stands t p₁ := stands.of_ok
      (.enterGroup counts.composes s id (counts.countGroup · id) counts.draw)
      (.enterGroup spares.composes s id (spares.countGroup · id) spares.draw) entered
    have bucketSettled (place : Nat) : Obeys keepsSettled (enterBucket id place) :=
      .enterBucket counts.composes id place (counts.countBucket · id place)
    have bucketView (place : Nat) : Obeys keepsView (enterBucket id place) :=
      .enterBucket spares.composes id place (spares.countBucket · id place)
    have eachSettled (a : Action) : Obeys keepsSettled (perform s again origin rest a) :=
      counts.perform settled origin rest a
    have eachView (a : Action) : Obeys keepsView (perform s again origin rest a) :=
      spares.perform view origin rest a
    rw [perform, on_bind_ok entered] at ran
    obtain ⟨place, -, p₂, stands₂, failed⟩ := exists_of_forM_error
      (fun place _ => .bind counts.composes (bucketSettled place) fun actions =>
        counts.onCopy (.forM counts.composes actions fun a _ => eachSettled a))
      (fun place _ => .bind spares.composes (bucketView place) fun actions =>
        spares.onCopy (.forM spares.composes actions fun a _ => eachView a)) stands₁ ran
    obtain ⟨actions, p₃, opened⟩ : ∃ actions p₃, (enterBucket id place).on p₂ = (.ok actions, p₃) :=
      ⟨_, _, rfl⟩
    have stands₃ := stands₂.of_ok (bucketSettled place) (bucketView place) opened
    rw [on_bind_ok opened, on_onCopy] at failed
    have failed : ∃ q', (actions.forM fun a => perform s again origin rest a).on p₃
        = (.error (.refused e), q') := ⟨_, Prod.ext (Prod.mk.inj failed).1 rfl⟩
    obtain ⟨q', failed⟩ := failed
    obtain ⟨a, inside, p₄, stands₄, refused⟩ :=
      exists_of_forM_error (fun a _ => eachSettled a) (fun a _ => eachView a) stands₃ failed
    obtain ⟨l, bucket, among⟩ := mem_of_enterBucket opened inside
    rw [Tables.bucketLists_of_settled stands₂.1] at bucket
    exact ⟨l, bucket, a, among, p₄, q', stands₄, refused⟩

end Groups

end Run

end FlowSwitch
