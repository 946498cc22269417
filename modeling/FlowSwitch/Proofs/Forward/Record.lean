import FlowSwitch.Proofs.Forward.Abreast
import FlowSwitch.Proofs.Forward.Settled
import FlowSwitch.Proofs.Tables.Installed
import FlowSwitch.Proofs.Tables.Onward
import Mathlib.Data.List.Perm.Subperm

/-!
# The lookups of a walk

The record of lookups is kept for the reader and nothing in a pass depends on it. So the
lookups of a single walk show when those of the walks inside it are left out of the
record: their tables go up, and no walk makes more lookups than there are tables.
-/

namespace FlowSwitch

namespace Pass

/-- The pass without its record of lookups. -/
def unrecorded (p : Pass) : Pass := { p with lookups := [] }

theorem eq_of_unrecorded {p q : Pass} (same : p.unrecorded = q.unrecorded) :
    q = { p with lookups := q.lookups } := by
  obtain ⟨tables, ports, frame, requests, draws, lookups, handouts⟩ := p
  obtain ⟨tables', ports', frame', requests', draws', lookups', handouts'⟩ := q
  simp only [unrecorded, Pass.mk.injEq] at same
  obtain ⟨rfl, rfl, rfl, rfl, rfl, -, rfl⟩ := same
  rfl

end Pass

namespace Run

variable {α β : Type}

/-- Does a part of a pass and leaves its lookups out of the record. -/
def unrecorded (x : Run α) : Run α := do
  let before ← get
  ExceptT.mk do
    let result ← x.run
    modify fun p => { p with lookups := before.lookups }
    return result

theorem on_unrecorded (x : Run α) (p : Pass) :
    (unrecorded x).on p = ((x.on p).1, { (x.on p).2 with lookups := p.lookups }) := rfl

/-! ## Parts that leave the record alone -/

/-- Whether a part of a pass does the same whatever the record of lookups, and adds nothing. -/
def Blind (x : Run α) : Prop :=
  ∀ p l, x.on { p with lookups := l } = ((x.on p).1, { (x.on p).2 with lookups := l })

theorem Blind.lookups {x : Run α} (blind : Blind x) (p : Pass) :
    (x.on p).2.lookups = p.lookups := by
  have same := congrArg (·.2.lookups) (blind p p.lookups)
  exact same

theorem Blind.pure (a : α) : Blind (Pure.pure a : Run α) := fun _ _ => rfl

theorem Blind.bind {x : Run α} {f : α → Run β} (first : Blind x) (next : ∀ a, Blind (f a)) :
    Blind (x >>= f) := by
  intro p l
  rw [on_bind, on_bind, first p l]
  cases x.on p with
  | mk r q =>
    cases r with
    | ok a => exact next a q l
    | error h => rfl

/-- A part that looks at the pass, but not at the record. -/
theorem Blind.read {f : Pass → Run α} (next : ∀ p, Blind (f p))
    (same : ∀ p l, f { p with lookups := l } = f p) : Blind (get >>= f) := by
  intro p l
  rw [on_bind, on_bind, on_get, on_get]
  simp only [same]
  exact next p p l

theorem Blind.modify {change : Pass → Pass}
    (same : ∀ p l, change { p with lookups := l } = { change p with lookups := l }) :
    Blind (modify change : Run Unit) := by
  intro p l
  rw [on_modify, on_modify, same]

theorem Blind.lift (x : Except SwitchError α) : Blind (Run.lift x) := by
  cases x <;> exact fun _ _ => rfl

theorem blind_edit (change : Frame → Except SwitchError Unit × Frame) : Blind (edit change) := by
  intro p l
  rw [on_edit, on_edit]

theorem packetIn_lookups (s : Setting) (reason : PacketInReason) (origin : Option EntryRef)
    (maxLength : UInt16) (p : Pass) (l : List Lookup) :
    Pass.packetIn s reason origin maxLength { p with lookups := l }
      = { p.packetIn s reason origin maxLength with lookups := l } := by
  unfold Pass.packetIn
  split
  · rfl
  · dsimp only
    split <;> rfl

section Parts

variable (s : Setting)

theorem blind_packetIn (reason : PacketInReason) (origin : Option EntryRef) (maxLength : UInt16) :
    Blind (modify (·.packetIn s reason origin maxLength) : Run Unit) :=
  .modify fun p l => packetIn_lookups s reason origin maxLength p l

theorem blind_toController (origin : Option EntryRef) (maxLength : UInt16) :
    Blind (modify (·.toController s origin maxLength) : Run Unit) := by
  refine .modify fun p l => ?_
  unfold Pass.toController
  dsimp only
  split
  · rfl
  · split <;> exact packetIn_lookups ..

theorem blind_change (origin : Option EntryRef) (a : Action) : Blind (change s origin a) := by
  refine .bind (blind_edit _) fun _ => ?_
  refine .read (fun p => ?_) fun p l => rfl
  dsimp only
  split
  · exact .bind (blind_packetIn s _ _ _) fun _ => blind_edit _
  · exact blind_edit _

theorem blind_sendOut (port : PortNo) : Blind (sendOut port) := by
  refine .read (fun p => ?_) fun p l => rfl
  exact .bind (.lift _) fun ports => .modify fun _ _ => rfl

theorem blind_enterGroup (id : GroupId) : Blind (enterGroup s id) := by
  refine .read (fun p => ?_) fun p l => rfl
  split
  · refine .bind (.modify fun _ _ => rfl) fun _ => ?_
    dsimp only
    split
    · refine .bind (.modify fun _ _ => rfl) fun _ => ?_
      exact .bind (.pure _) fun _ => .lift _
    · exact .bind (.pure _) fun _ => .lift _
  · exact .pure _

theorem blind_enterBucket (id : GroupId) (place : Nat) : Blind (enterBucket id place) := by
  refine .read (fun p => ?_) fun p l => rfl
  exact .bind (.modify fun _ _ => rfl) fun _ => .pure _

theorem blind_police (id : MeterId) : Blind (police id s.now) := by
  intro p l
  rw [on_police, on_police]

theorem blind_countFrame (e : FlowEntry) : Blind (countFrame s e) := .modify fun _ _ => rfl

theorem blind_writeMetadata (f : UInt64 → UInt64) :
    Blind (changeContext fun c => { c with metadata := f c.metadata }) := .modify fun _ _ => rfl

end Parts

/-! ## A pass with another record -/

/-- A pass next to one that does the same and has another record. -/
def echo : Bond where
  during p q := p.unrecorded = q.unrecorded
  ended h p k q := h = k ∧ p.unrecorded = q.unrecorded

theorem Blind.keeps {x : Run α} (blind : Blind x) : echo.Keeps x x := by
  intro p q same
  rw [Pass.eq_of_unrecorded same, blind p q.lookups]
  cases x.on p with
  | mk r p' =>
    cases r with
    | ok a => exact .ok trivial rfl
    | error h => exact .error ⟨rfl, rfl⟩

theorem Bond.Keeps.answers {B : Bond} {x y : Run α} {A : α → Prop} (kept : B.Keeps x y)
    (all : ∀ a, A a) : B.Keeps x y A := by
  intro p q here
  have done := kept p q here
  generalize x.on p = left at done
  generalize y.on q = right at done
  cases done with
  | ok _ here => exact .ok (all _) here
  | error here => exact .error here

theorem echo_look (table : TableId) : echo.Keeps (look table) (look table) := by
  intro p q same
  rw [Pass.eq_of_unrecorded same, on_look, on_look]
  cases p.frame.view with
  | none => exact .error ⟨rfl, rfl⟩
  | some v => exact .ok trivial rfl

theorem lockstep_echo (s : Setting) : Lockstep .idle s echo fun m n _ => m = n where
  heed _ _ := rfl
  refuse here := ⟨rfl, here⟩
  restore {p q p' q'} same after := by
    rw [Pass.eq_of_unrecorded same, Pass.eq_of_unrecorded after]
    rfl
  restoreEnd {p q h k p' q'} same ended := by
    obtain ⟨rfl, after⟩ := ended
    rw [Pass.eq_of_unrecorded same, Pass.eq_of_unrecorded after]
    exact ⟨rfl, rfl⟩
  plain _ _ _ _ same := by rw [Pass.eq_of_unrecorded same]
  change origin a _ := (blind_change s origin a).keeps
  toController origin maxLength := (blind_toController s origin maxLength).keeps
  send _ := (blind_sendOut _).keeps
  enterGroup id := (blind_enterGroup s id).keeps
  enterBucket place same := (blind_enterBucket _ place).keeps.answers
    fun _ _ _ => Nat.succ.inj same
  endless {m n id p q} same spent here := by
    have spent : m = 0 ∧ n = 0 := by omega
    rw [Pass.eq_of_unrecorded here]
    cases there : p.tables.groups.contains id with
    | false => exact .inl ⟨rfl, rfl⟩
    | true => exact .inr ⟨rfl, rfl, spent.1, spent.2, rfl, rfl⟩
  look table := (echo_look table).answers fun _ _ _ => trivial
  admits _ _ _ _ _ _ _ same := by rw [Pass.eq_of_unrecorded same]
  police _ _ := (blind_police s _).keeps
  countFrame e := (blind_countFrame s e).keeps
  writeMetadata f := (blind_writeMetadata f).keeps

/-- Leaving lookups out of the record changes nothing else. -/
theorem echo_unrecorded {x : Run α} (kept : echo.Keeps x x) : echo.Keeps x (unrecorded x) := by
  intro p q here
  have done := kept p q here
  rw [on_unrecorded]
  generalize x.on p = left at done
  cases ran : x.on q with
  | mk r q' =>
    rw [ran] at done
    cases done with
    | ok answer after => exact .ok answer after
    | error after => exact .error after

/-! ## The lookups of one walk -/

/-- The tables keep all but their counters, and no lookup is recorded. -/
def keepsRecord : Effect := fun p _ q =>
  q.tables.settled = p.tables.settled ∧ q.lookups = p.lookups

theorem keepsRecord_of_blind {x : Run α} (settled : Obeys keepsSettled x) (blind : Blind x) :
    Obeys keepsRecord x := fun p => ⟨settled p, blind.lookups p⟩

theorem parts_keepsRecord (s : Setting) : Parts s keepsRecord where
  composes := {
    halt := fun _ _ => ⟨rfl, rfl⟩
    trans := fun first next => ⟨next.1.trans first.1, next.2.trans first.2⟩ }
  restore := id
  parse := keepsRecord_of_blind (steps_keepsSettled s).parse (blind_edit _)
  edit a := keepsRecord_of_blind ((steps_keepsSettled s).edit a) (blind_edit _)
  packetIn p reason origin maxLength := by
    refine ⟨(steps_keepsSettled s).packetIn p reason origin maxLength, ?_⟩
    exact (blind_packetIn s reason origin maxLength).lookups p
  send _ _ _ := ⟨rfl, rfl⟩
  draw _ _ := ⟨rfl, rfl⟩
  countGroup p id length := ⟨(steps_keepsSettled s).countGroup p id length, rfl⟩
  countBucket p id place length := ⟨(steps_keepsSettled s).countBucket p id place length, rfl⟩
  police id := keepsRecord_of_blind ((steps_keepsSettled s).police id) (blind_police s id)
  countFrame e := keepsRecord_of_blind ((steps_keepsSettled s).countFrame e) (blind_countFrame s e)
  writeMetadata f :=
    keepsRecord_of_blind ((steps_keepsSettled s).writeMetadata f) (blind_writeMetadata f)

theorem keepsRecord_resubmit (s : Setting) (depth : Nat) :
    Obeys keepsRecord (unrecorded (resubmit s depth)) := by
  intro p
  rw [on_unrecorded]
  exact ⟨(steps_keepsSettled s).resubmit depth p, rfl⟩

/-- Lookups of tables that go up from `first` to the last one. -/
structure Climbs (first : TableId) (made : List Lookup) : Prop where
  sorted : (made.map (·.table)).Pairwise (· < ·)
  inside : ∀ l ∈ made, first ≤ l.table ∧ l.table ≤ TableId.last

theorem climbs_nil (first : TableId) : Climbs first [] := ⟨.nil, by simp⟩

theorem Climbs.cons {first next : TableId} {made : List Lookup} {l : Lookup}
    (here : l.table = first) (within : first ≤ TableId.last) (later : first < next)
    (rest : Climbs next made) : Climbs first (l :: made) := by
  have beyond : ∀ x ∈ made, first < x.table :=
    fun x among => UInt8.lt_of_lt_of_le later (rest.inside x among).1
  constructor
  · rw [List.map_cons, List.pairwise_cons, here]
    refine ⟨fun id among => ?_, rest.sorted⟩
    obtain ⟨x, inside, rfl⟩ := List.mem_map.mp among
    exact beyond x inside
  · intro x among
    rcases List.mem_cons.mp among with rfl | among
    · exact ⟨UInt8.le_of_eq here.symm, here ▸ within⟩
    · exact ⟨UInt8.le_of_lt (beyond x among), (rest.inside x among).2⟩

/-- There are no more lookups than tables. -/
theorem Climbs.length {first : TableId} {made : List Lookup} (climbs : Climbs first made) :
    made.length ≤ TableId.count := by
  have distinct : (made.map (·.table.toNat)).Nodup := by
    have sorted : (made.map (·.table.toNat)).Pairwise (· < ·) := by
      have lifted := climbs.sorted
      rw [List.pairwise_map] at lifted ⊢
      exact lifted.imp UInt8.lt_iff_toNat_lt.mp
    exact sorted.imp Nat.ne_of_lt
  have inside : made.map (·.table.toNat) ⊆ List.range TableId.count := by
    intro n among
    obtain ⟨l, here, rfl⟩ := List.mem_map.mp among
    have last := UInt8.le_iff_toNat_le.mp (climbs.inside l here).2
    exact List.mem_range.mpr (Nat.lt_succ_of_le last)
  simpa using (List.subperm_of_subset distinct inside).length_le

theorem look_cases (table : TableId) (p : Pass) :
    (look table).on p = (.error (.refused .failed), p) ∨
      ∃ hit q l, (look table).on p = (.ok hit, q) ∧ q.tables.settled = p.tables.settled ∧
        q.lookups = p.lookups ++ [l] ∧ l.table = table := by
  rw [on_look]
  cases p.frame.view with
  | none => exact .inl rfl
  | some v => exact .inr ⟨_, _, _, rfl, p.tables.settled_classify table _, rfl, rfl⟩

/-- A part that records nothing ends the run, or is followed by what comes next. -/
theorem keepsRecord_bind {x : Run α} (kept : Obeys keepsRecord x) (f : α → Run β) (p : Pass) :
    ∃ q, q.tables.settled = p.tables.settled ∧ q.lookups = p.lookups ∧
      (((x >>= f).on p).2 = q ∨ ∃ a, x.on p = (.ok a, q) ∧ (x >>= f).on p = (f a).on q) := by
  have held := kept p
  cases ran : x.on p with
  | mk r q =>
    rw [ran] at held
    refine ⟨q, held.1, held.2, ?_⟩
    cases r with
    | ok a => exact .inr ⟨a, rfl, on_bind_ok ran f⟩
    | error h => exact .inl (by rw [on_bind_error ran])

/-- The lookups of a walk in which the walks inside it are not recorded. Induction on how many
tables are left. -/
theorem climbs_walk {t : Tables} (onward : t.Onward) {s : Setting} {again : Run Unit}
    (silent : Obeys keepsRecord again) (table : TableId) (gathered : ActionSet)
    (within : table ≤ TableId.last) (p : Pass) (settled : p.tables.settled = t.settled) :
    ∃ made, ((walk s again table gathered).on p).2.lookups = p.lookups ++ made ∧
      Climbs table made := by
  have parts := parts_keepsRecord s
  induction table, gathered using Run.walk.induct generalizing p with
  | case1 table gathered ih =>
    rw [Run.walk]
    rcases look_cases table p with failed | ⟨hit, q, l, looked, kept, recorded, here⟩
    · rw [on_bind_error failed]
      exact ⟨[], by simp, climbs_nil table⟩
    rw [on_bind_ok looked]
    have same : q.tables.settled = t.settled := kept.trans settled
    have alone : Climbs table [l] := ⟨by simp, by simp [here, within]⟩
    cases hit with
    | none => exact ⟨[l], recorded, alone⟩
    | some e =>
      obtain ⟨f, found, inside⟩ := mem_of_look looked
      have leads := (onward.of_settled settled) table f found e inside
      obtain ⟨q₁, same₁, record₁, ended | ⟨_, -, next₁⟩⟩ :=
        keepsRecord_bind (parts.countFrame e) _ q
      · exact ⟨[l], by rw [ended, record₁, recorded], alone⟩
      rw [next₁]
      obtain ⟨q₂, same₂, record₂, ended | ⟨set, -, next₂⟩⟩ :=
        keepsRecord_bind (parts.follow silent e gathered) _ q₁
      · exact ⟨[l], by rw [ended, record₂, record₁, recorded], alone⟩
      rw [next₂]
      have before : q₂.lookups = p.lookups ++ [l] := by rw [record₂, record₁, recorded]
      cases goto : e.instructions.gotoTable with
      | none =>
        have last : Obeys keepsRecord
            (set.ordered.forM fun a => execute s again a.origin a.action) :=
          .forM parts.composes _ fun a _ => parts.execute silent a.origin a.action
        exact ⟨[l], (last q₂).2.trans before, alone⟩
      | some next =>
        obtain ⟨later, there⟩ := leads next goto
        have more : table ≠ TableId.last := by
          rintro rfl
          exact absurd later (UInt8.not_lt.mpr there)
        simp only [more, if_false, later, dif_pos]
        obtain ⟨rest, recorded', climbs⟩ :=
          ih set next later there q₂ (same₂.trans (same₁.trans same))
        refine ⟨l :: rest, ?_, climbs.cons here within later⟩
        rw [recorded', before, List.append_assoc]
        rfl

end Run

end FlowSwitch
