import FlowSwitch.Proofs.Forward.Watch
import FlowSwitch.Proofs.Group.Dues
import FlowSwitch.Proofs.Tables.Entries

/-!
# Passes that stop before a counter wraps

A pass may be stopped where a group would count a packet for which its counter has no room. A
pass that is not stopped does what it would have done anyway, and whatever groups owed their
buckets before it they cover after it, however it ends: what it made due itself it has paid, or
it ended early, and then nobody asks for the rest.
-/

namespace FlowSwitch

namespace Run

/-- Stops a pass where a group has no room to count the packet. -/
def caps (full : Halt) : Watch
  | .enterGroup id, p =>
    if (p.tables.groups.get? id).any fun g => !g.counter.hasRoom p.frame.length then some full
    else none
  | _, _ => none

/-! ## What a pass that is not stopped does -/

/-- Whether part of a pass does what another one does, with an effect, unless it is stopped. -/
def Mirrors (full : Halt) (R : Effect) {α : Type} (x y : Run α)
    (answers : α → Prop := fun _ => True) : Prop :=
  ∀ p, (x.on p).1 = .error full ∨
    x.on p = y.on p ∧ R p (halt? (y.on p).1) (y.on p).2 ∧ ∀ a, (y.on p).1 = .ok a → answers a

namespace Mirrors

variable {full : Halt} {R R₁ R₂ : Effect} {α β : Type} {x y : Run α} {f g : α → Run β}

theorem of_obeys (obeys : Obeys R x) {answers : α → Prop}
    (answer : ∀ a, answers a := by exact fun _ => trivial) : Mirrors full R x x answers :=
  fun p => .inr ⟨rfl, obeys p, fun a _ => answer a⟩

/-- One thing after the other, with effects that make a third one. -/
theorem andThen {A : α → Prop} {answers : β → Prop} (first : Mirrors full R₁ x y A)
    (next : ∀ a, A a → Mirrors full R₂ (f a) (g a) answers)
    (stop : ∀ {p h q}, R₁ p (some h) q → R p (some h) q)
    (go : ∀ {p q h r}, R₁ p none q → R₂ q h r → R p h r) :
    Mirrors full R (x >>= f) (y >>= g) answers := by
  intro p
  rcases first p with stopped | ⟨same, begun, answer⟩
  · refine .inl ?_
    rw [on_bind]
    cases ran : x.on p with
    | mk r q =>
      rw [ran] at stopped
      obtain rfl : r = .error full := stopped
      rfl
  · rw [on_bind, on_bind, same]
    cases ran : y.on p with
    | mk r q =>
      rw [ran] at begun answer
      cases r with
      | error h => exact .inr ⟨rfl, stop begun, nofun⟩
      | ok a =>
        rcases next a (answer a rfl) q with stopped | ⟨same, done, answer⟩
        · exact .inl stopped
        · exact .inr ⟨same, go begun done, answer⟩

theorem composes (full : Halt) (composes : R.Composes) :
    Likeness.Composes fun _ x y answers => Mirrors full R x y answers where
  pure answer p := .inr ⟨rfl, composes.halt p none, fun _ same => Except.ok.inj same ▸ answer⟩
  bind first next := first.andThen next id composes.trans

end Mirrors

/-! ## What is due during a pass -/

/-- Whatever was due besides, the groups cover it still. -/
def keepsCover : Effect := fun p _ q =>
  ∀ pending, p.tables.groups.Covers pending → q.tables.groups.Covers pending

theorem composes_keepsCover : keepsCover.Composes where
  halt _ _ _ := id
  trans first next pending covers := next pending (first pending covers)

theorem keepsCover_of_groups {p q : Pass} (h : Option Halt)
    (same : q.tables.groups = p.tables.groups) : keepsCover p h q :=
  fun _ covers => same ▸ covers

/-- The frame stays, and what was due to some buckets is paid or nobody asks for it any more. -/
def pays (id : GroupId) (places : List Nat) : Effect := fun p _ q =>
  q.frame = p.frame ∧ ∀ pending,
    p.tables.groups.Covers (places.map (⟨id, ·, p.frame.length⟩) ++ pending) →
      q.tables.groups.Covers pending

section Parts

variable {full : Halt} {s : Setting}

theorem keepsCover_edit (change : Frame → Except SwitchError Unit × Frame) :
    Obeys keepsCover (edit change) := fun p => by
  rw [on_edit]
  exact keepsCover_of_groups _ rfl

theorem keepsCover_packetIn (p : Pass) (reason : PacketInReason) (origin : Option EntryRef)
    (maxLength : UInt16) : keepsCover p none (p.packetIn s reason origin maxLength) := by
  obtain ⟨meters, requests, same⟩ := exists_packetIn s reason origin maxLength p
  rw [same]
  exact keepsCover_of_groups none rfl

theorem keepsCover_change (origin : Option EntryRef) (a : Action) :
    Obeys keepsCover (change s origin a) :=
  .change keepsCover_packetIn composes_keepsCover (keepsCover_edit _)
    (fun a => keepsCover_edit a.edit) origin a

theorem keepsCover_police (id : MeterId) (now : Time) : Obeys keepsCover (police id now) :=
  fun p => by
    rw [on_police]
    exact keepsCover_of_groups _ rfl

theorem keepsCover_look (table : TableId) : Obeys keepsCover (look table) := fun p => by
  rw [on_look]
  split
  · exact composes_keepsCover.halt p _
  · exact keepsCover_of_groups _ (p.tables.groups_modifyFlow ..)

theorem keepsCover_countFrame (e : FlowEntry) : Obeys keepsCover (countFrame s e) := fun p =>
  keepsCover_of_groups _ (p.tables.groups_modifyFlow ..)

theorem keepsCover_changeContext (change : PacketContext → PacketContext) :
    Obeys keepsCover (changeContext change) := fun _ => keepsCover_of_groups _ rfl

theorem Mirrors.onCopy {x y : Run Unit} (mirrors : Mirrors full keepsCover x y) :
    Mirrors full keepsCover (onCopy x) (onCopy y) := by
  intro p
  rw [on_onCopy, on_onCopy]
  rcases mirrors p with stopped | ⟨same, kept, answer⟩
  · exact .inl stopped
  · rw [same]
    exact .inr ⟨rfl, kept, answer⟩

/-! ## Groups -/

/-- A bucket counts the packet that is due to it, whatever its actions come to. -/
theorem mirrors_bucket {f g : Action → Run Unit} (each : ∀ a, Mirrors full keepsCover (f a) (g a))
    (id : GroupId) (place : Nat) :
    Mirrors full (pays id [place])
      (do let actions ← enterBucket id place; onCopy (actions.forM f))
      (do let actions ← enterBucket id place; onCopy (actions.forM g)) := by
  intro p
  obtain ⟨actions, entered⟩ : ∃ actions, (enterBucket id place).on p = (.ok actions,
      { p with tables := { p.tables with
        groups := p.tables.groups.modify id (·.countBucket place p.frame.length) } }) := ⟨_, rfl⟩
  rw [on_bind_ok entered, on_bind_ok entered]
  have acts : Mirrors full keepsCover (onCopy (actions.forM f)) (onCopy (actions.forM g)) :=
    .onCopy ((Mirrors.composes full composes_keepsCover).forM actions fun a _ => each a)
  rcases acts { p with tables := { p.tables with
      groups := p.tables.groups.modify id (·.countBucket place p.frame.length) } } with
    stopped | ⟨same, kept, answer⟩
  · exact .inl stopped
  · exact .inr ⟨same, ⟨rfl, fun pending covers => kept pending covers.spend⟩, answer⟩

/-- Induction on the places that are left. -/
theorem mirrors_buckets {x y : Nat → Run Unit} {id : GroupId}
    (each : ∀ place, Mirrors full (pays id [place]) (x place) (y place)) (places : List Nat) :
    Mirrors full (pays id places) (places.forM x) (places.forM y) := by
  induction places with
  | nil => exact .of_obeys fun p => ⟨rfl, fun _ covers => covers⟩
  | cons place places ih =>
    refine (each place).andThen (fun _ _ => ih) ?_ ?_
    · -- A bucket that fails leaves what is due to the others unpaid.
      rintro p h q ⟨same, paid⟩
      exact ⟨same, fun pending covers => (paid (places.map _ ++ pending) covers).drop⟩
    · rintro p q h r ⟨same, paid⟩ ⟨same', rest⟩
      refine ⟨same'.trans same, fun pending covers => rest pending ?_⟩
      rw [same]
      exact paid (places.map _ ++ pending) covers

/-- A pass is stopped at a group before the group counts, if its counter has no room. -/
theorem capped_enterGroup_cases (full : Halt) (s : Setting) (id : GroupId) (p : Pass) :
    ((caps full).enterGroup s id).on p = (.error full, p) ∨
      ((caps full).enterGroup s id).on p = (enterGroup s id).on p ∧
        ∀ g, p.tables.groups.get? id = some g → g.counter.hasRoom p.frame.length = true := by
  cases stops : caps full (.enterGroup id) p with
  | some h =>
    obtain rfl : full = h := by
      rw [caps] at stops
      split at stops
      · exact Option.some.inj stops
      · cases stops
    refine .inl (on_bind_error ?_ _)
    rw [Watch.on_check, stops]
    rfl
  | none =>
    refine .inr ⟨on_bind_ok (Watch.on_check_none stops) _, fun g found => ?_⟩
    simpa [caps, found] using stops

theorem mirrors_group {x y : Nat → Run Unit} {id : GroupId}
    (each : ∀ place, Mirrors full (pays id [place]) (x place) (y place)) :
    Mirrors full keepsCover (do let places ← (caps full).enterGroup s id; places.forM x)
      (do let places ← enterGroup s id; places.forM y) := by
  intro p
  rcases capped_enterGroup_cases full s id p with stopped | ⟨same, room⟩
  · rw [on_bind_error stopped]
    exact .inl rfl
  rcases enterGroup_cases s id p with ⟨-, none⟩ | ⟨g, found, pick, q, entered, frame, groups⟩
  · rw [on_bind_ok (same.trans none), on_bind_ok none]
    exact .inr ⟨rfl, composes_keepsCover.halt p _, fun _ _ => trivial⟩
  -- A group that refuses has counted the packet for no bucket.
  have covered {places : List Nat} (serves : g.Serves places) (pending : List Due)
      (covers : p.tables.groups.Covers pending) :
      q.tables.groups.Covers (places.map (⟨id, ·, p.frame.length⟩) ++ pending) := by
    rw [groups]
    exact covers.enter found (room g found) serves
  cases chosen : g.choose p.ports.isLive pick with
  | error e =>
    rw [chosen] at entered
    rw [on_bind_error (same.trans entered), on_bind_error entered]
    exact .inr ⟨rfl, covered g.serves_nil, nofun⟩
  | ok places =>
    rw [chosen] at entered
    rw [on_bind_ok (same.trans entered), on_bind_ok entered]
    rcases mirrors_buckets each places q with stopped | ⟨same, ⟨-, paid⟩, answer⟩
    · exact .inl stopped
    · rw [frame] at paid
      refine .inr ⟨same, fun pending covers => paid pending ?_, answer⟩
      exact covered (Group.serves_of_choose chosen) pending covers

theorem simulation_caps (full : Halt) (s : Setting) :
    Simulation (caps full) s (fun _ x y answers => Mirrors full keepsCover x y answers)
      (fun m n _ => m = n) (fun _ => True) fun _ _ => True := by
  have composes := composes_keepsCover
  have alike := Mirrors.composes full composes
  exact {
    toComposes := alike
    refuse := .of_obeys (.throw composes _)
    onCopy := .onCopy
    room := fun _ kept => alike.bind (.of_obeys (.get composes)) fun _ _ => kept _ _ rfl
    plain := fun _ _ => trivial
    change := fun origin a _ => by
      rw [Watch.change, Watch.check_bind fun _ => rfl]
      exact .of_obeys (keepsCover_change origin a)
    toController := fun origin maxLength =>
      .of_obeys (.toController keepsCover_packetIn composes origin maxLength)
    send := fun _ =>
      .of_obeys (.sendOut composes (fun _ _ _ => keepsCover_of_groups none rfl) _)
    group := by
      rintro m n id f g same each
      exact mirrors_group fun place => mirrors_bucket (fun a => each a (Nat.succ.inj same)) id place
    spent := by
      rintro m n id again again' origin rfl none
      obtain rfl : m = 0 := by omega
      refine .of_obeys (.bind composes (.get composes) fun p => ?_)
      split
      · exact .throw composes _
      · exact .pure composes _
    look := fun table => by
      rw [Watch.look_eq (fun _ => rfl) fun _ _ => rfl]
      exact .of_obeys (keepsCover_look table) fun _ _ _ => trivial
    permitted := fun _ _ _ _ _ => trivial
    countFrame := fun e => .of_obeys (keepsCover_countFrame e)
    police := fun _ _ => .of_obeys (keepsCover_police _ _)
    write := fun _ kept => by rwa [Watch.check_bind fun _ => rfl]
    leave := fun _ kept => by rwa [Watch.check_bind fun _ => rfl]
    writeMetadata := fun _ => .of_obeys (keepsCover_changeContext _) }

end Parts

end Run

end FlowSwitch
