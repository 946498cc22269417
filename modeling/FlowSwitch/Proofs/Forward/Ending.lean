import FlowSwitch.Proofs.Forward.Failing
import FlowSwitch.Proofs.Forward.Settled
import FlowSwitch.Proofs.Tables.Installed
import Mathlib.Data.List.Perm.Subperm
import Mathlib.Logic.Relation

/-!
# Every pass ends

If no group leads back to itself, the groups entered one from another are all different,
so there are no more of them than groups in all. The bound on their number is then never
met, and a higher one would make no difference.
-/

namespace FlowSwitch

namespace Tables

/-- Whether a bucket of a group sends packets to another one. -/
def Leads (t : Tables) (g h : GroupId) : Prop := ∃ l ∈ t.bucketLists g, h ∈ l.groups

/-- Whether no group leads back to itself. -/
def Acyclic (t : Tables) : Prop := ∀ g, ¬ Relation.TransGen t.Leads g g

/-- The groups entered one from another on the way to a group, each once, when `chain` more may be
entered. -/
structure Trail (t : Tables) (chain : Nat) (entered : List GroupId) (id : GroupId) : Prop where
  nodup : entered.Nodup
  there : ∀ g ∈ entered, t.groups.contains g = true
  leads : ∀ g ∈ entered, Relation.TransGen t.Leads g id
  room : t.groups.size ≤ entered.length + chain

variable {t : Tables} {chain : Nat} {entered : List GroupId} {id next : GroupId}

theorem trail_nil (id : GroupId) (room : t.groups.size ≤ chain) : t.Trail chain [] id :=
  ⟨.nil, by simp, by simp, by simpa using room⟩

theorem Trail.not_mem (trail : t.Trail chain entered id) (acyclic : t.Acyclic) : id ∉ entered :=
  fun again => acyclic id (trail.leads id again)

theorem Trail.enter (trail : t.Trail (chain + 1) entered id) (acyclic : t.Acyclic)
    (there : t.groups.contains id = true) (leads : t.Leads id next) :
    t.Trail chain (id :: entered) next where
  nodup := List.nodup_cons.mpr ⟨trail.not_mem acyclic, trail.nodup⟩
  there := List.forall_mem_cons.mpr ⟨there, trail.there⟩
  leads := List.forall_mem_cons.mpr
    ⟨.single leads, fun g inside => (trail.leads g inside).tail leads⟩
  room := by
    have room := trail.room
    rw [List.length_cons]
    omega

/-- When no more groups may be entered, all have been. -/
theorem Trail.missing (trail : t.Trail 0 entered id) (acyclic : t.Acyclic) :
    t.groups.contains id = false := by
  rw [Bool.eq_false_iff]
  intro there
  have distinct : (id :: entered).Nodup := List.nodup_cons.mpr ⟨trail.not_mem acyclic, trail.nodup⟩
  have known : id :: entered ⊆ t.groups.keys := by
    intro g inside
    rcases List.mem_cons.mp inside with rfl | earlier
    · exact Registry.contains_iff_mem_keys.mp there
    · exact Registry.contains_iff_mem_keys.mp (trail.there g earlier)
  have few := (List.subperm_of_subset distinct known).length_le
  have size : t.groups.keys.length = t.groups.size := List.length_map _
  have room := trail.room
  rw [List.length_cons] at few
  omega

/-- Whether there is room for all that an action leads to, when `chain` more groups may be
entered. -/
def Fits (t : Tables) (chain : Nat) (a : Action) : Prop :=
  ∀ id, a = .group id → ∃ entered, t.Trail chain entered id

theorem fits_of_size_le {a : Action} (room : t.groups.size ≤ chain) : t.Fits chain a :=
  fun id _ => ⟨[], trail_nil id room⟩

theorem Fits.bucket (fits : t.Fits (chain + 1) (.group id)) (acyclic : t.Acyclic) {l : ActionList}
    (inside : l ∈ t.bucketLists id) {a : Action} (among : a ∈ l.actions) : t.Fits chain a := by
  rintro next rfl
  obtain ⟨entered, trail⟩ := fits id rfl
  have named : next ∈ l.groups := List.mem_filterMap.mpr ⟨_, among, rfl⟩
  have there : t.groups.contains id = true := by
    rw [Registry.contains_eq_isSome]
    cases found : t.groups.get? id with
    | none => simp [bucketLists, found] at inside
    | some g => rfl
  exact ⟨id :: entered, trail.enter acyclic there ⟨l, inside, named⟩⟩

theorem Fits.missing (fits : t.Fits 0 (.group id)) (acyclic : t.Acyclic) :
    t.groups.contains id = false := by
  obtain ⟨entered, trail⟩ := fits id rfl
  exact trail.missing acyclic

end Tables

namespace Run

variable {α : Type}

/-- Whether a part of a pass ends early only if it is refused. -/
def Refuses (x : Run α) : Prop := ∀ p h q, x.on p = (.error h, q) → h ≠ .endless

theorem Fails.refuses {x : Run α} (fails : Fails x) : Refuses x := by
  intro p h q ran
  obtain ⟨e, rfl, -⟩ := fails p h q ran
  exact nofun

theorem refuses_police (s : Setting) (id : MeterId) : Refuses (police id s.now) := by
  intro p h q ran
  rw [on_police] at ran
  generalize (p.tables.meters.police id p.frame s.now).1 = result at ran
  cases result with
  | ok _ => cases ran
  | error e =>
    cases e
    all_goals
      cases ran
      try exact nofun

/-- A pass next to itself, over tables that stay the same but for their counters, which ends early
only if it is refused. -/
abbrev steady (t : Tables) : Bond :=
  .alone (fun p => p.tables.settled = t.settled) fun h _ => h ≠ .endless

section Steady

variable {t : Tables}

theorem keeps_of_refuses {x : Run α} {answers : α → Prop} (settled : Obeys keepsSettled x)
    (refuses : Refuses x)
    (answer : ∀ p a q, p.tables.settled = t.settled → x.on p = (.ok a, q) → answers a) :
    (steady t).Keeps x x answers := by
  refine Bond.keeps_alone (fun p a q held ran => ⟨answer p a q held ran, ?_⟩)
    fun p h q _ ran => refuses p h q ran
  have kept := settled p
  rw [ran] at kept
  exact kept.trans held

/-- How many groups may be entered does not matter, as long as there is room. -/
theorem lockstep_steady (acyclic : t.Acyclic) (s : Setting) :
    Lockstep .idle s (steady t) fun m n a => t.Fits m a ∧ t.Fits n a := by
  have steps := steps_keepsSettled s
  exact {
    heed := fun _ _ => rfl
    refuse := by
      rintro p _ ⟨rfl, -⟩
      exact ⟨rfl, rfl, nofun⟩
    restore := by
      rintro p _ p' _ ⟨rfl, -⟩ ⟨rfl, held⟩
      exact ⟨rfl, held⟩
    restoreEnd := by
      rintro p _ h _ p' _ ⟨rfl, -⟩ ⟨rfl, rfl, refused⟩
      exact ⟨rfl, rfl, refused⟩
    plain := by
      rintro a sends p q -
      have fits (chain : Nat) : t.Fits chain a := by
        rintro id rfl
        cases sends
      exact ⟨fits _, fits _⟩
    change := fun origin a _ =>
      keeps_of_refuses (steps.change origin a) (fails_change s origin a).refuses
        fun _ _ _ _ _ => trivial
    toController := fun origin maxLength =>
      keeps_of_refuses (steps.toController origin maxLength) (Fails.modify _).refuses
        fun _ _ _ _ _ => trivial
    send := fun {_ _ port _} _ =>
      keeps_of_refuses (steps.sendOut port) (fails_sendOut port).refuses fun _ _ _ _ _ => trivial
    enterGroup := fun id =>
      keeps_of_refuses (steps.enterGroup id) (fails_enterGroup s id).refuses
        fun _ _ _ _ _ => trivial
    enterBucket := fun {m n id} place fits => by
      refine keeps_of_refuses (steps.enterBucket id place)
        (fails_enterBucket id place).refuses fun p actions q held ran a inside => ?_
      obtain ⟨l, there, among⟩ := mem_of_enterBucket ran inside
      rw [Tables.bucketLists_of_settled held] at there
      exact ⟨fits.1.bucket acyclic there among, fits.2.bucket acyclic there among⟩
    endless := by
      rintro m n id p _ fits spent ⟨rfl, held⟩
      have missing : t.groups.contains id = false := by
        rcases spent with rfl | rfl
        · exact fits.1.missing acyclic
        · exact fits.2.missing acyclic
      rw [← Tables.contains_groups_of_settled held] at missing
      exact .inl ⟨missing, missing⟩
    look := fun table =>
      keeps_of_refuses (steps.look table) (fails_look table).refuses fun _ _ _ _ _ _ _ => trivial
    admits := by
      rintro table e - l - a - p _ ⟨rfl, held⟩
      have room : t.groups.size ≤ maxChain p.tables.groups := by
        rw [maxChain, Tables.size_groups_of_settled held]
        omega
      exact ⟨Tables.fits_of_size_le room, Tables.fits_of_size_le room⟩
    police := fun {_ _ id} _ _ =>
      keeps_of_refuses (steps.police id) (refuses_police s id) fun _ _ _ _ _ => trivial
    countFrame := fun e =>
      keeps_of_refuses (steps.countFrame e) (Fails.modify _).refuses fun _ _ _ _ _ => trivial
    writeMetadata := fun f =>
      keeps_of_refuses (steps.writeMetadata f) (Fails.modify _).refuses fun _ _ _ _ _ => trivial }

end Steady

end Run

end FlowSwitch
