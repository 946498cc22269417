import FlowSwitch.Forward.Walk

/-!
# What passes do

An effect relates a pass, how a part of it ended and the pass after that part. If the
single steps of walks and of actions have their effects, and these compose, then so do
whole walks and whole actions, however these are nested.
-/

namespace FlowSwitch

/-- Whether an action sends the frame, by itself or through a group, and does nothing else. -/
def Action.sends : Action → Bool
  | .output .. | .group _ => true
  | _ => false

namespace Run

/-- How a part of a pass ended, its answer aside. -/
def halt? {α : Type} : Except Halt α → Option Halt
  | .ok _ => none
  | .error h => some h

abbrev Effect := Pass → Option Halt → Pass → Prop

/-- Whether part of a pass has an effect on every pass. -/
def Obeys (R : Effect) {α : Type} (x : Run α) : Prop :=
  ∀ p, R p (halt? (x.on p).1) (x.on p).2

section On

variable {α β : Type}

@[simp]
theorem on_get (p : Pass) : (get : Run Pass).on p = (.ok p, p) := rfl

@[simp]
theorem on_modify (change : Pass → Pass) (p : Pass) :
    (modify change : Run Unit).on p = (.ok (), change p) := rfl

@[simp]
theorem on_set (q p : Pass) : (set q : Run Unit).on p = (.ok (), q) := rfl

theorem on_bind (x : Run α) (f : α → Run β) (p : Pass) :
    (x >>= f).on p =
      match x.on p with
      | (.ok a, q) => (f a).on q
      | (.error h, q) => (.error h, q) := by
  simp only [on, ExceptT.run, StateT.run, bind, ExceptT.bind, ExceptT.mk, ExceptT.bindCont,
    StateT.bind]
  cases x p with
  | mk r q => cases r <;> rfl

theorem on_bind_ok {x : Run α} {p q : Pass} {a : α} (ran : x.on p = (.ok a, q))
    (f : α → Run β) : (x >>= f).on p = (f a).on q := by
  rw [on_bind, ran]

theorem on_bind_error {x : Run α} {p q : Pass} {h : Halt} (ran : x.on p = (.error h, q))
    (f : α → Run β) : (x >>= f).on p = (.error h, q) := by
  rw [on_bind, ran]

theorem exists_ok_of_halt? {x : Run α} {p : Pass} (on : halt? (x.on p).1 = none) :
    ∃ a, x.on p = (.ok a, (x.on p).2) := by
  cases ran : x.on p with
  | mk r q =>
    cases r with
    | ok a => exact ⟨a, rfl⟩
    | error h => simp [ran, halt?] at on

theorem on_onCopy (x : Run α) (p : Pass) :
    (onCopy x).on p = ((x.on p).1, { (x.on p).2 with frame := p.frame }) := rfl

theorem on_edit (change : Frame → Except SwitchError Unit × Frame) (p : Pass) :
    (edit change).on p =
      ((change p.frame).1.mapError .refused, { p with frame := (change p.frame).2 }) := by
  simp only [edit, on_bind, on_get, on_modify]
  cases (change p.frame).1 <;> rfl

theorem on_edit_ok {change : Frame → Except SwitchError Unit × Frame} {p : Pass} {f : Frame}
    (edited : change p.frame = (.ok (), f)) :
    (edit change).on p = (.ok (), { p with frame := f }) := by
  rw [on_edit, edited]
  rfl

theorem on_edit_error {change : Frame → Except SwitchError Unit × Frame} {p : Pass} {f : Frame}
    {e : SwitchError} (failed : change p.frame = (.error e, f)) :
    (edit change).on p = (.error (.refused e), { p with frame := f }) := by
  rw [on_edit, failed]
  rfl

theorem forM_cons (a : α) (l : List α) (f : α → Run Unit) :
    (a :: l).forM f = (do f a; l.forM f) := rfl

end On

theorem on_police (id : MeterId) (now : Time) (p : Pass) :
    (police id now).on p =
      (match (p.tables.meters.police id p.frame now).1 with
        | .ok _ | .error .notFound => .ok ()
        | .error e => .error (.refused e),
        { p with
          frame := (p.tables.meters.police id p.frame now).2.1
          tables := { p.tables with meters := (p.tables.meters.police id p.frame now).2.2 } }) := by
  simp only [police, on_bind, on_get, on_set]
  generalize p.tables.meters.police id p.frame now = answer
  obtain ⟨result, frame, meters⟩ := answer
  cases result with
  | ok _ => rfl
  | error e => cases e <;> rfl

theorem on_look (table : TableId) (p : Pass) :
    (look table).on p =
      match p.frame.view with
      | none => (.error (.refused .failed), p)
      | some v =>
        (.ok (p.tables.classify table (Match.ofPacket v)).1,
          { p with
            lookups := p.lookups ++ [⟨table, Match.ofPacket v, p.frame⟩]
            tables := (p.tables.classify table (Match.ofPacket v)).2 }) := by
  simp only [look, on_bind, on_get]
  cases p.frame.view with
  | none => rfl
  | some v => rfl

theorem on_sendOut (port : PortNo) (p : Pass) :
    (sendOut port).on p =
      match p.ports.send port p.frame with
      | .ok ports =>
        (.ok (), { p with ports, handouts := p.handouts ++ p.ports.handouts port p.frame })
      | .error e => (.error (.refused e), p) := by
  simp only [sendOut, on_bind, on_get]
  cases p.ports.send port p.frame <;> rfl

/-- A report to the controller meets the meter of the controller, and changes nothing else but what
there is to tell. -/
theorem packetIn_cases (s : Setting) (reason : PacketInReason) (origin : Option EntryRef)
    (maxLength : UInt16) (p : Pass) :
    p.packetIn s reason origin maxLength = p ∨
      ∃ requests, p.packetIn s reason origin maxLength = { p with
        tables := { p.tables with
          meters := (p.tables.meters.police MeterId.controller p.frame s.now).2.2 }
        requests } := by
  unfold Pass.packetIn
  split
  · exact .inl rfl
  · dsimp only
    split
    · exact .inr ⟨_, rfl⟩
    · exact .inr ⟨_, rfl⟩

/-- A packet for the controller changes meters and requests only. -/
theorem exists_packetIn (s : Setting) (reason : PacketInReason) (origin : Option EntryRef)
    (maxLength : UInt16) (p : Pass) :
    ∃ meters requests, p.packetIn s reason origin maxLength
      = { p with tables := { p.tables with meters }, requests } := by
  rcases packetIn_cases s reason origin maxLength p with same | ⟨requests, same⟩
  · exact ⟨p.tables.meters, p.requests, same⟩
  · exact ⟨_, requests, same⟩

/-- A group that is not there chooses nothing. Else it counts the packet, and chooses then. -/
theorem enterGroup_cases (s : Setting) (id : GroupId) (p : Pass) :
    p.tables.groups.get? id = none ∧ (enterGroup s id).on p = (.ok [], p) ∨
      ∃ g, p.tables.groups.get? id = some g ∧ ∃ pick q,
        (enterGroup s id).on p = ((g.choose p.ports.isLive pick).mapError .refused, q) ∧
          q.frame = p.frame ∧
          q.tables.groups = p.tables.groups.modify id (·.count p.frame.length) := by
  simp only [enterGroup, on_bind, on_get]
  cases found : p.tables.groups.get? id with
  | none => exact .inl ⟨rfl, rfl⟩
  | some g =>
    have chosen (pick : UInt64) (q : Pass) : (lift (g.choose p.ports.isLive pick)).on q
        = ((g.choose p.ports.isLive pick).mapError .refused, q) := by
      cases g.choose p.ports.isLive pick <;> rfl
    refine .inr ⟨g, rfl, ?_⟩
    simp only [modifyTables, on_bind, on_modify]
    split
    · exact ⟨_, _, chosen .., rfl, rfl⟩
    · exact ⟨_, _, chosen .., rfl, rfl⟩

section Perform

variable (s : Setting) (resubmit : Run Unit) (origin : Option EntryRef)

theorem perform_output (chain : Nat) (port : PortNo) (maxLength : UInt16) :
    perform s resubmit origin chain (.output port maxLength)
      = output s resubmit origin port maxLength := by
  cases chain <;> rfl

theorem perform_change (chain : Nat) {a : Action} (plain : a.sends = false) :
    perform s resubmit origin chain a = change s origin a := by
  cases a with
  | output port maxLength => simp [Action.sends] at plain
  | group id => simp [Action.sends] at plain
  | _ => cases chain <;> rfl

theorem on_execute (a : Action) (p : Pass) :
    (execute s resubmit origin a).on p
      = (perform s resubmit origin (maxChain p.tables.groups) a).on p := by
  simp only [execute, on_bind, on_get]

end Perform

/-- An effect that parts of a pass have together if each of them has it. -/
structure Effect.Composes (R : Effect) : Prop where
  halt : ∀ p h, R p h p
  trans : ∀ {p q r h}, R p none q → R q h r → R p h r

namespace Obeys

variable {R : Effect} {α β : Type}

theorem of_on {x : Run α} (each : ∀ p r q, x.on p = (r, q) → R p (halt? r) q) : Obeys R x :=
  fun p => each p _ _ rfl

theorem pure (composes : R.Composes) (a : α) : Obeys R (Pure.pure a : Run α) :=
  fun p => composes.halt p none

theorem throw (composes : R.Composes) (h : Halt) : Obeys R (MonadExcept.throw h : Run α) :=
  fun p => composes.halt p (some h)

theorem get (composes : R.Composes) : Obeys R (MonadState.get : Run Pass) :=
  fun p => composes.halt p none

theorem lift (composes : R.Composes) (x : Except SwitchError α) : Obeys R (Run.lift x) := by
  cases x with
  | ok a => exact pure composes a
  | error e => exact throw composes _

theorem bind (composes : R.Composes) {x : Run α} {f : α → Run β} (first : Obeys R x)
    (next : ∀ a, Obeys R (f a)) : Obeys R (x >>= f) := by
  intro p
  have begun := first p
  rw [on_bind]
  cases h : x.on p with
  | mk r q =>
    rw [h] at begun
    cases r with
    | ok a => exact composes.trans begun (next a q)
    | error e => exact begun

theorem forM (composes : R.Composes) (l : List α) {f : α → Run Unit}
    (each : ∀ a ∈ l, Obeys R (f a)) : Obeys R (l.forM f) := by
  induction l with
  | nil => exact pure composes ()
  | cons a l ih =>
    exact bind composes (each a (by simp)) fun _ => ih fun b h => each b (by simp [h])

theorem optionForM (composes : R.Composes) (o : Option α) {f : α → Run Unit}
    (each : ∀ a, Obeys R (f a)) : Obeys R (o.forM f) := by
  cases o with
  | none => exact pure composes ()
  | some a => exact each a

theorem enterGroup (composes : R.Composes) (s : Setting) (id : GroupId)
    (count : ∀ p length, R p none { p with
      tables := { p.tables with groups := p.tables.groups.modify id (·.count length) } })
    (draw : ∀ p draws, R p none { p with draws }) : Obeys R (Run.enterGroup s id) := by
  refine bind composes (get composes) fun p => ?_
  split
  · refine bind composes (fun q => count q p.frame.length) fun _ => ?_
    dsimp only
    split
    · refine bind composes (fun q => draw q _) fun _ => ?_
      exact bind composes (pure composes _) fun _ => lift composes _
    · exact bind composes (pure composes _) fun _ => lift composes _
  · exact pure composes _

theorem enterBucket (composes : R.Composes) (id : GroupId) (place : Nat)
    (count : ∀ p length, R p none { p with
      tables := { p.tables with
        groups := p.tables.groups.modify id (·.countBucket place length) } }) :
    Obeys R (Run.enterBucket id place) := by
  refine bind composes (get composes) fun p => ?_
  exact bind composes (fun q => count q p.frame.length) fun _ => pure composes _

theorem sendOut (composes : R.Composes)
    (send : ∀ p ports handouts, R p none { p with ports, handouts }) (port : PortNo) :
    Obeys R (Run.sendOut port) := by
  refine bind composes (get composes) fun p => ?_
  exact bind composes (lift composes _) fun ports q => send q ports _

variable {s : Setting} (packetIn : ∀ p reason origin maxLength,
  R p none (p.packetIn s reason origin maxLength))

include packetIn

theorem toController (composes : R.Composes) (origin : Option EntryRef) (maxLength : UInt16) :
    Obeys R (modify fun p => p.toController s origin maxLength) := by
  intro p
  show R p none (p.toController s origin maxLength)
  unfold Pass.toController
  simp only
  split
  · exact composes.halt p none
  · split <;> exact packetIn p ..

theorem change (composes : R.Composes) (parse : Obeys R parse)
    (edit : ∀ a : Action, Obeys R (edit a.edit)) (origin : Option EntryRef) (a : Action) :
    Obeys R (Run.change s origin a) := by
  refine .bind composes parse fun _ => ?_
  refine .bind composes (.get composes) fun p => ?_
  dsimp only
  split
  · exact .bind composes (fun q => packetIn q ..) fun _ => edit a
  · exact edit a

theorem output (composes : R.Composes)
    (send : ∀ p ports handouts, R p none { p with ports, handouts }) {resubmit : Run Unit}
    (again : Obeys R resubmit) (origin : Option EntryRef) (port : PortNo) (maxLength : UInt16) :
    Obeys R (Run.output s resubmit origin port maxLength) := by
  unfold Run.output
  split
  · exact toController packetIn composes origin maxLength
  · split
    · exact again
    · exact sendOut composes send port

end Obeys

/-- What a pass does within a table has an effect, and copies of the frame keep it. -/
structure Parts (s : Setting) (R : Effect) : Prop where
  composes : R.Composes
  restore : ∀ {p h q}, R p h q → R p h { q with frame := p.frame }
  parse : Obeys R parse
  edit : ∀ a : Action, Obeys R (edit a.edit)
  packetIn : ∀ p reason origin maxLength, R p none (p.packetIn s reason origin maxLength)
  send : ∀ p ports handouts, R p none { p with ports, handouts }
  draw : ∀ p draws, R p none { p with draws }
  countGroup : ∀ p id length, R p none { p with
    tables := { p.tables with groups := p.tables.groups.modify id (·.count length) } }
  countBucket : ∀ p id place length, R p none { p with
    tables := { p.tables with groups := p.tables.groups.modify id (·.countBucket place length) } }
  police : ∀ id, Obeys R (police id s.now)
  countFrame : ∀ e, Obeys R (countFrame s e)
  writeMetadata : ∀ change : UInt64 → UInt64,
    Obeys R (changeContext fun c => { c with metadata := change c.metadata })

/-- The single steps of a pass have an effect, and these steps and copies of the frame keep it. -/
structure Steps (s : Setting) (R : Effect) : Prop extends Parts s R where
  look : ∀ table, Obeys R (look table)

namespace Parts

variable {s : Setting} {R : Effect}

theorem onCopy (parts : Parts s R) {α : Type} {x : Run α} (obeys : Obeys R x) :
    Obeys R (Run.onCopy x) := by
  intro p
  rw [on_onCopy]
  exact parts.restore (obeys p)

theorem toController (parts : Parts s R) (origin : Option EntryRef) (maxLength : UInt16) :
    Obeys R (modify fun p => p.toController s origin maxLength) :=
  .toController parts.packetIn parts.composes origin maxLength

theorem output (parts : Parts s R) {resubmit : Run Unit} (again : Obeys R resubmit)
    (origin : Option EntryRef) (port : PortNo) (maxLength : UInt16) :
    Obeys R (Run.output s resubmit origin port maxLength) :=
  .output parts.packetIn parts.composes parts.send again origin port maxLength

theorem change (parts : Parts s R) (origin : Option EntryRef) (a : Action) :
    Obeys R (Run.change s origin a) :=
  .change parts.packetIn parts.composes parts.parse parts.edit origin a

theorem sendOut (parts : Parts s R) (port : PortNo) : Obeys R (Run.sendOut port) :=
  .sendOut parts.composes parts.send port

theorem enterGroup (parts : Parts s R) (id : GroupId) : Obeys R (Run.enterGroup s id) :=
  .enterGroup parts.composes s id (parts.countGroup · id) parts.draw

theorem enterBucket (parts : Parts s R) (id : GroupId) (place : Nat) :
    Obeys R (Run.enterBucket id place) :=
  .enterBucket parts.composes id place (parts.countBucket · id place)

/-- Induction on how many groups may still be entered. -/
theorem perform (parts : Parts s R) {resubmit : Run Unit} (again : Obeys R resubmit)
    (origin : Option EntryRef) (chain : Nat) :
    ∀ a, Obeys R (Run.perform s resubmit origin chain a) := by
  induction chain with
  | zero =>
    intro a
    cases a with
    | group id =>
      refine .bind parts.composes (.get parts.composes) fun p => ?_
      split
      · exact .throw parts.composes _
      · exact .pure parts.composes _
    | output port maxLength => exact parts.output again origin port maxLength
    | _ =>
      rw [perform_change]
      · exact parts.change origin _
      · rfl
  | succ chain ih =>
    intro a
    cases a with
    | group id =>
      refine .bind parts.composes (parts.enterGroup id) fun places => ?_
      refine .forM parts.composes places fun place _ => ?_
      refine .bind parts.composes (parts.enterBucket id place) fun actions => ?_
      exact parts.onCopy (.forM parts.composes actions fun a _ => ih a)
    | output port maxLength => exact parts.output again origin port maxLength
    | _ =>
      rw [perform_change]
      · exact parts.change origin _
      · rfl

theorem execute (parts : Parts s R) {resubmit : Run Unit} (again : Obeys R resubmit)
    (origin : Option EntryRef) (a : Action) : Obeys R (Run.execute s resubmit origin a) :=
  .bind parts.composes (.get parts.composes) fun _ => parts.perform again origin _ a

theorem follow (parts : Parts s R) {resubmit : Run Unit} (again : Obeys R resubmit)
    (e : FlowEntry) (gathered : ActionSet) : Obeys R (Run.follow s resubmit e gathered) := by
  refine .bind parts.composes (.optionForM parts.composes _ parts.police) fun _ => ?_
  refine .bind parts.composes (.forM parts.composes _ fun a _ => parts.execute again _ a)
    fun _ => ?_
  refine .bind parts.composes ?_ fun written => ?_
  · cases e.instructions.writeActions with
    | none => exact .pure parts.composes _
    | some l => exact .lift parts.composes _
  · refine .bind parts.composes ?_ fun _ => .pure parts.composes _
    exact .optionForM parts.composes _ fun w => parts.writeMetadata w.apply

end Parts

namespace Steps

variable {s : Setting} {R : Effect}

/-- Induction on how many tables are left. -/
theorem walk (steps : Steps s R) {resubmit : Run Unit} (again : Obeys R resubmit)
    (table : TableId) (gathered : ActionSet) : Obeys R (Run.walk s resubmit table gathered) := by
  induction table, gathered using Run.walk.induct with
  | case1 table gathered ih =>
    rw [Run.walk]
    refine .bind steps.composes (steps.look table) fun hit => ?_
    cases hit with
    | none => exact .pure steps.composes _
    | some e =>
      refine .bind steps.composes (steps.countFrame e) fun _ => ?_
      refine .bind steps.composes (steps.follow again e gathered) fun gathered => ?_
      split
      · exact .forM steps.composes _ fun a _ => steps.execute again a.origin a.action
      · split
        · exact .throw steps.composes _
        · split
          · exact ih _ _ ‹_›
          · exact .throw steps.composes _

theorem resubmit (steps : Steps s R) (depth : Nat) : Obeys R (Run.resubmit s depth) := by
  induction depth with
  | zero => exact .throw steps.composes _
  | succ depth ih =>
    refine steps.onCopy ?_
    exact .bind steps.composes (steps.writeMetadata fun _ => 0) fun _ => steps.walk ih 0 .empty

theorem process (steps : Steps s R) : Obeys R (Run.process s) :=
  steps.walk (steps.resubmit Run.maxDepth) 0 .empty

theorem carryOut (steps : Steps s R) (actions : ActionList) : Obeys R (Run.carryOut s actions) :=
  .forM steps.composes _ fun a _ => steps.execute (steps.resubmit Run.maxDepth) none a

end Steps

end Run

end FlowSwitch
