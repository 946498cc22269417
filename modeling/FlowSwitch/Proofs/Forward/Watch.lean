import FlowSwitch.Proofs.Forward.Effect

/-!
# Watched passes

A watch may end a pass in some places: before the frame is changed or looked up, before a
group gets it, and on the way through an entry. For the rest a watched pass is like one
that is not. What relates their single parts relates whole walks and whole actions: the
induction over these is made here, for every watch and every relation.
-/

namespace FlowSwitch

/-- What holds of every action in a set. -/
def ActionSet.All (P : Action → Prop) (set : ActionSet) : Prop :=
  ∀ kind w, set.get kind = some w → P w.action

namespace ActionSet

variable {P : Action → Prop} {set set' : ActionSet}

theorem all_empty : All P empty := fun _ _ held => by cases held

theorem All.put {w : WrittenAction} (all : set.All P) (new : P w.action) : (set.put w).All P := by
  intro kind v held
  simp only [ActionSet.put] at held
  split at held
  · exact Option.some.inj held ▸ new
  · exact all kind v held

/-- Fields that are merged make an action that does not send the frame. -/
theorem All.writeOne {a : Action} {origin : Option EntryRef} (all : set.All P)
    (plain : ∀ a : Action, a.sends = false → P a) (new : P a)
    (written : set.writeOne origin a = .ok set') : set'.All P := by
  unfold ActionSet.writeOne at written
  split at written
  · cases written
  · obtain rfl := Except.ok.inj written
    exact all.put (plain _ rfl)
  · obtain rfl := Except.ok.inj written
    exact all.put new

theorem All.write {l : ActionList} {origin : Option EntryRef} (all : set.All P)
    (plain : ∀ a : Action, a.sends = false → P a) (new : ∀ a ∈ l.actions, P a)
    (written : set.write l origin = .ok set') : set'.All P := by
  unfold ActionSet.write at written
  generalize l.actions = actions at new written
  induction actions generalizing set with
  | nil => exact Except.ok.inj written ▸ all
  | cons a actions ih =>
    rw [List.foldlM_cons] at written
    cases first : set.writeOne origin a with
    | error e =>
      rw [first] at written
      cases written
    | ok next =>
      rw [first] at written
      exact ih (all.writeOne plain (new a (by simp)) first) (fun b h => new b (by simp [h])) written

theorem All.ordered {w : WrittenAction} (all : set.All P) (inside : w ∈ set.ordered) :
    P w.action := by
  obtain ⟨kind, -, held⟩ := List.mem_filterMap.mp inside
  exact all kind w held

/-- Writing a list of actions into a set does not fail, since no list has an action that sets
cannot hold. Induction on the actions. -/
theorem exists_write (set : ActionSet) (l : ActionList) (origin : Option EntryRef) :
    ∃ set', set.write l origin = .ok set' := by
  obtain ⟨actions, supported⟩ := l
  unfold write
  dsimp only
  induction actions generalizing set with
  | nil => exact ⟨set, rfl⟩
  | cons a actions ih =>
    have first : ∃ next, set.writeOne origin a = .ok next := by
      have plain := supported a List.mem_cons_self
      unfold writeOne
      split
      · cases plain
      · exact ⟨_, rfl⟩
      · exact ⟨_, rfl⟩
    obtain ⟨next, first⟩ := first
    obtain ⟨set', rest⟩ := ih next fun b inside => supported b (List.mem_cons_of_mem _ inside)
    refine ⟨set', ?_⟩
    rw [List.foldlM_cons, first]
    exact rest

end ActionSet

namespace Run

/-- Where a watch is asked whether a pass may go on. -/
inductive Checkpoint
  /-- Before an action changes the frame. -/
  | change
  /-- Before a group gets the frame. -/
  | enterGroup (id : GroupId)
  /-- Before the frame is looked up. -/
  | look
  /-- When the frame has found an entry. -/
  | follow (e : FlowEntry)
  /-- Before what an entry writes is gathered. -/
  | write (e : FlowEntry)
  /-- When the frame has followed an entry of a table. -/
  | leave (table : TableId) (e : FlowEntry)

/-- What a pass is ended with in a place, if it is. -/
abbrev Watch := Checkpoint → Pass → Option Halt

/-- Sends copies of the frame through the buckets of a group. -/
def throughGroup (enter : Run (List Nat)) (id : GroupId) (each : Action → Run Unit) : Run Unit := do
  let places ← enter
  places.forM fun place => do
    let actions ← enterBucket id place
    onCopy (actions.forM each)

namespace Watch

/-- Ends no pass. -/
def idle : Watch := fun _ _ => none

variable (w : Watch) (s : Setting)

/-- Ends the pass if the watch says so. -/
def check (c : Checkpoint) : Run Unit := do
  (w c (← get)).forM throw

def change (origin : Option EntryRef) (a : Action) : Run Unit := do
  w.check .change
  Run.change s origin a

def enterGroup (id : GroupId) : Run (List Nat) := do
  w.check (.enterGroup id)
  Run.enterGroup s id

def perform (resubmit : Run Unit) (origin : Option EntryRef) : Nat → Action → Run Unit
  | 0, .group id => Run.perform s resubmit origin 0 (.group id)
  | chain + 1, .group id =>
    throughGroup (enterGroup w s id) id fun a => perform resubmit origin chain a
  | _, .output port maxLength => output s resubmit origin port maxLength
  | _, a => change w s origin a

def execute (resubmit : Run Unit) (origin : Option EntryRef) (a : Action) : Run Unit := do
  perform w s resubmit origin (maxChain (← get).tables.groups) a

def follow (resubmit : Run Unit) (e : FlowEntry) (gathered : ActionSet) : Run ActionSet := do
  let i := e.instructions
  i.meter.forM fun id => police id s.now
  let applied := (i.applyActions.map (·.actions)).getD []
  applied.forM fun a => execute w s resubmit e.ref a
  let gathered := if i.clearActions.isSome then .empty else gathered
  w.check (.write e)
  let gathered ← i.writeActions.elim (pure gathered) fun l => lift (gathered.write l e.ref)
  i.writeMetadata.forM fun w =>
    changeContext fun c => { c with metadata := w.apply c.metadata }
  return gathered

def look (table : TableId) : Run (Option FlowEntry) := do
  w.check .look
  let hit ← Run.look table
  hit.forM fun e => w.check (.follow e)
  return hit

def walk (resubmit : Run Unit) (table : TableId) (gathered : ActionSet) : Run Unit := do
  let some e ← look w table | return
  countFrame s e
  let gathered ← follow w s resubmit e gathered
  w.check (.leave table e)
  match e.instructions.gotoTable with
  | none => gathered.ordered.forM fun a => execute w s resubmit a.origin a.action
  | some next =>
    if table = TableId.last then refuse .failed
    else if _h : table < next then walk resubmit next gathered
    else refuse .failed
termination_by 255 - table.toNat
decreasing_by
  have := UInt8.lt_iff_toNat_lt.mp ‹table < next›
  have := next.toNat_lt
  omega

def resubmit : Nat → Run Unit
  | 0 => refuse .failed
  | depth + 1 =>
    onCopy do
      changeContext ({ · with metadata := 0 })
      walk w s (resubmit depth) 0 .empty

def process : Run Unit := walk w s (resubmit w s maxDepth) 0 .empty

def carryOut (actions : ActionList) : Run Unit :=
  actions.actions.forM fun a => execute w s (resubmit w s maxDepth) none a

variable {w s} {c : Checkpoint} {p : Pass}

theorem on_check (w : Watch) (c : Checkpoint) (p : Pass) :
    (w.check c).on p = ((w c p).elim (.ok ()) .error, p) := by
  simp only [check, on_bind, on_get]
  cases w c p <;> rfl

theorem on_check_none (free : w c p = none) : (w.check c).on p = (.ok (), p) := by
  rw [on_check, free]
  rfl

/-- Where a watch ends no pass, nothing is checked. -/
theorem check_bind (free : ∀ p, w c p = none) {α : Type} (x : Run α) : (do w.check c; x) = x := by
  funext p
  show (do w.check c; x).on p = x.on p
  rw [on_bind_ok (on_check_none (free p))]

theorem look_eq (before : ∀ p, w .look p = none) (behind : ∀ e p, w (.follow e) p = none)
    (table : TableId) : w.look table = Run.look table := by
  have passes (hit : Option FlowEntry) :
      (do hit.forM fun e => w.check (.follow e); return hit) = (pure hit : Run _) := by
    cases hit with
    | none => rfl
    | some e => exact check_bind (behind e) _
  rw [look, check_bind before]
  simp only [passes, bind_pure]

theorem perform_output (w : Watch) (s : Setting) (resubmit : Run Unit) (origin : Option EntryRef)
    (chain : Nat) (port : PortNo) (maxLength : UInt16) :
    w.perform s resubmit origin chain (.output port maxLength)
      = output s resubmit origin port maxLength := by
  cases chain <;> rfl

theorem perform_change (w : Watch) (s : Setting) (resubmit : Run Unit) (origin : Option EntryRef)
    (chain : Nat) {a : Action} (plain : a.sends = false) :
    w.perform s resubmit origin chain a = w.change s origin a := by
  cases a with
  | output port maxLength => cases plain
  | group id => cases plain
  | _ => cases chain <;> rfl

end Watch

/-! ## A watched pass next to one that is not watched -/

/-- A relation between parts of passes and what holds of their answers. -/
abbrev Likeness := ∀ ⦃α : Type⦄, Run α → Run α → (α → Prop) → Prop

namespace Likeness

/-- Parts of passes that are alike make alike ones when they are put in a row. -/
structure Composes (K : Likeness) : Prop where
  pure : ∀ {α : Type} {a : α} {answers : α → Prop}, answers a →
    K (Pure.pure a) (Pure.pure a) answers
  bind : ∀ {α β : Type} {x y : Run α} {f g : α → Run β} {A : α → Prop} {answers : β → Prop},
    K x y A → (∀ a, A a → K (f a) (g a) answers) → K (x >>= f) (y >>= g) answers

variable {K : Likeness} {α : Type}

theorem Composes.forM (composes : K.Composes) (l : List α) {f g : α → Run Unit}
    (each : ∀ a ∈ l, K (f a) (g a) fun _ => True) :
    K (l.forM f) (l.forM g) fun _ => True := by
  induction l with
  | nil => exact composes.pure trivial
  | cons a l ih =>
    exact composes.bind (each a List.mem_cons_self) fun _ _ =>
      ih fun b inside => each b (List.mem_cons_of_mem _ inside)

theorem Composes.optionForM (composes : K.Composes) (o : Option α) {f g : α → Run Unit}
    (each : ∀ a, o = some a → K (f a) (g a) fun _ => True) :
    K (o.forM f) (o.forM g) fun _ => True := by
  cases o with
  | none => exact composes.pure trivial
  | some a => exact each a rfl

end Likeness

/-- The single parts of a watched pass are like those of one that is not. `ok` tells which actions
may be carried out if each pass may still enter so many groups, `permits` which ones may begin, and
`found` what holds of the entries that are looked up. -/
structure Simulation (w : Watch) (s : Setting) (K : Likeness) (ok : Nat → Nat → Action → Prop)
    (permits : Action → Prop) (found : TableId → FlowEntry → Prop) : Prop
    extends K.Composes where
  refuse : K (Run.refuse .failed : Run Unit) (Run.refuse .failed) fun _ => True
  onCopy : ∀ {x y : Run Unit}, K x y (fun _ => True) → K (onCopy x) (onCopy y) fun _ => True
  /-- Actions begin with room for as many groups as the tables of each pass have. -/
  room : ∀ {a : Action} {x y : Nat → Run Unit}, permits a →
    (∀ m n, ok m n a → K (x m) (y n) fun _ => True) →
      K (do x (maxChain (← get).tables.groups)) (do y (maxChain (← get).tables.groups))
        fun _ => True
  plain : ∀ a : Action, a.sends = false → permits a
  change : ∀ origin (a : Action), a.sends = false →
    K (w.change s origin a) (Run.change s origin a) fun _ => True
  toController : ∀ origin maxLength, K (modify (·.toController s origin maxLength))
    (modify (·.toController s origin maxLength)) fun _ => True
  send : ∀ {m n port maxLength}, ok m n (.output port maxLength) →
    K (sendOut port) (sendOut port) fun _ => True
  group : ∀ {m n id} {f g : Action → Run Unit}, ok (m + 1) (n + 1) (.group id) →
    (∀ a, ok m n a → K (f a) (g a) fun _ => True) →
      K (throughGroup (w.enterGroup s id) id f) (throughGroup (Run.enterGroup s id) id g)
        fun _ => True
  /-- Where no more groups may be entered. -/
  spent : ∀ {m n id} (again again' : Run Unit) (origin : Option EntryRef), ok m n (.group id) →
    m = 0 ∨ n = 0 →
      K (w.perform s again origin m (.group id)) (Run.perform s again' origin n (.group id))
        fun _ => True
  look : ∀ table, K (w.look table) (Run.look table) fun hit => ∀ e, hit = some e → found table e
  permitted : ∀ {table e}, found table e →
    ∀ l ∈ e.instructions.actionLists, ∀ a ∈ l.actions, permits a
  countFrame : ∀ e, K (countFrame s e) (countFrame s e) fun _ => True
  police : ∀ {table e id}, found table e → e.instructions.meter = some id →
    K (police id s.now) (police id s.now) fun _ => True
  write : ∀ {table e} {α : Type} {x y : Run α} {answers : α → Prop}, found table e →
    K x y answers → K (do w.check (.write e); x) y answers
  leave : ∀ {table e} {α : Type} {x y : Run α} {answers : α → Prop}, found table e →
    K x y answers → K (do w.check (.leave table e); x) y answers
  writeMetadata : ∀ f : UInt64 → UInt64,
    K (changeContext fun c => { c with metadata := f c.metadata })
      (changeContext fun c => { c with metadata := f c.metadata }) fun _ => True

namespace Simulation

variable {w : Watch} {s : Setting} {K : Likeness} {ok : Nat → Nat → Action → Prop}
  {permits : Action → Prop} {found : TableId → FlowEntry → Prop} {again again' : Run Unit}

theorem output (sim : Simulation w s K ok permits found) (resubmits : K again again' fun _ => True)
    (origin : Option EntryRef) {m n : Nat} {port : PortNo} {maxLength : UInt16}
    (allowed : ok m n (.output port maxLength)) :
    K (Run.output s again origin port maxLength) (Run.output s again' origin port maxLength)
      fun _ => True := by
  unfold Run.output
  split
  · exact sim.toController origin maxLength
  · split
    · exact resubmits
    · exact sim.send allowed

/-- Induction on how many groups the watched pass may still enter. -/
theorem perform (sim : Simulation w s K ok permits found) (resubmits : K again again' fun _ => True)
    (origin : Option EntryRef) (m n : Nat) (a : Action) (allowed : ok m n a) :
    K (w.perform s again origin m a) (Run.perform s again' origin n a) fun _ => True := by
  induction m generalizing n a with
  | zero =>
    cases a with
    | group id => exact sim.spent again again' origin allowed (.inl rfl)
    | output port maxLength =>
      rw [Watch.perform_output, perform_output]
      exact sim.output resubmits origin allowed
    | _ =>
      rw [Watch.perform_change, perform_change]
      · exact sim.change origin _ rfl
      · rfl
      · rfl
  | succ m ih =>
    cases a with
    | group id =>
      cases n with
      | zero => exact sim.spent again again' origin allowed (.inr rfl)
      | succ n => exact sim.group allowed fun a inside => ih n a inside
    | output port maxLength =>
      rw [Watch.perform_output, perform_output]
      exact sim.output resubmits origin allowed
    | _ =>
      rw [Watch.perform_change, perform_change]
      · exact sim.change origin _ rfl
      · rfl
      · rfl

theorem execute (sim : Simulation w s K ok permits found) (resubmits : K again again' fun _ => True)
    (origin : Option EntryRef) {a : Action} (permitted : permits a) :
    K (w.execute s again origin a) (Run.execute s again' origin a) fun _ => True :=
  sim.room permitted fun m n allowed => sim.perform resubmits origin m n a allowed

theorem follow (sim : Simulation w s K ok permits found) (resubmits : K again again' fun _ => True)
    {table : TableId} {e : FlowEntry} (there : found table e) {gathered : ActionSet}
    (all : gathered.All permits) :
    K (w.follow s again e gathered) (Run.follow s again' e gathered) (·.All permits) := by
  have permitted := sim.permitted there
  refine sim.bind (sim.optionForM _ fun id named => sim.police there named) fun _ _ => ?_
  refine sim.bind (sim.forM _ fun a inside => sim.execute resubmits _ ?_) fun _ _ => ?_
  · cases applied : e.instructions.applyActions with
    | none => simp [applied] at inside
    | some l =>
      simp only [applied, Option.map_some, Option.getD_some] at inside
      exact permitted l (by simp [InstructionSet.actionLists, applied]) a inside
  · have begun : (if e.instructions.clearActions.isSome then ActionSet.empty else gathered).All
        permits := by
      split
      · exact ActionSet.all_empty
      · exact all
    generalize (if e.instructions.clearActions.isSome then ActionSet.empty else gathered) = base
      at begun ⊢
    refine sim.write there (sim.bind (A := (·.All permits)) ?_ fun set written => ?_)
    · cases writes : e.instructions.writeActions with
      | none => exact sim.pure begun
      | some l =>
        have allowed := permitted l (by simp [InstructionSet.actionLists, writes])
        obtain ⟨set, written⟩ := ActionSet.exists_write base l e.ref
        rw [Option.elim_some, written]
        exact sim.pure (begun.write sim.plain allowed written)
    · have wrote := sim.optionForM e.instructions.writeMetadata fun w _ =>
        sim.writeMetadata w.apply
      exact sim.bind wrote fun _ _ => sim.pure written

/-- Induction on how many tables are left. -/
theorem walk (sim : Simulation w s K ok permits found) (resubmits : K again again' fun _ => True)
    (table : TableId) (gathered : ActionSet) (all : gathered.All permits) :
    K (w.walk s again table gathered) (Run.walk s again' table gathered) fun _ => True := by
  induction table, gathered using Run.walk.induct with
  | case1 table gathered ih =>
    rw [Watch.walk, Run.walk]
    refine sim.bind (sim.look table) fun hit there => ?_
    cases hit with
    | none => exact sim.pure trivial
    | some e =>
      have there := there e rfl
      refine sim.bind (sim.countFrame e) fun _ _ => ?_
      refine sim.bind (sim.follow resubmits there all) fun gathered all => ?_
      refine sim.leave there ?_
      cases e.instructions.gotoTable with
      | none =>
        exact sim.forM _ fun w inside => sim.execute resubmits w.origin (all.ordered inside)
      | some next =>
        dsimp only
        split
        · exact sim.refuse
        · split
          · exact ih _ _ ‹_› all
          · exact sim.refuse

theorem resubmit (sim : Simulation w s K ok permits found) (depth : Nat) :
    K (w.resubmit s depth) (Run.resubmit s depth) fun _ => True := by
  induction depth with
  | zero => exact sim.refuse
  | succ depth ih =>
    refine sim.onCopy (sim.bind (sim.writeMetadata fun _ => 0) fun _ _ => ?_)
    exact sim.walk ih 0 .empty ActionSet.all_empty

theorem process (sim : Simulation w s K ok permits found) :
    K (w.process s) (Run.process s) fun _ => True :=
  sim.walk (sim.resubmit maxDepth) 0 .empty ActionSet.all_empty

theorem carryOut (sim : Simulation w s K ok permits found) (actions : ActionList)
    (permitted : ∀ a ∈ actions.actions, permits a) :
    K (w.carryOut s actions) (Run.carryOut s actions) fun _ => True :=
  sim.forM _ fun a inside => sim.execute (sim.resubmit maxDepth) none (permitted a inside)

end Simulation

end Run

end FlowSwitch
