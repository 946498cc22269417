import FlowSwitch.Proofs.Forward.Failing
import FlowSwitch.Proofs.Forward.Settled
import FlowSwitch.Proofs.Meter.Account

/-!
# What becomes of a packet that a meter drops

A band that drops a packet counts it, and nothing else counts for such a band. So a pass ends with
the packet dropped exactly if a band of an ordinary meter has counted one since it began, however
deep walks and groups are nested. The meter of the controller only keeps packets from it and ends
no pass. How rates compare makes no difference.
-/

namespace FlowSwitch

/-! ## What bands have dropped -/

theorem Counter.add_ne (c : Counter) (length : Nat) : c.add length ≠ c := by
  intro same
  have packets := congrArg (·.packets.toNat) same
  simp only [add, UInt64.toNat_add, UInt64.toNat_one] at packets
  have small := c.packets.toNat_lt
  omega

/-- What each band that drops packets has counted, and nothing for the other bands. -/
def Ledger.dropped (l : Ledger) : List Counter :=
  l.bands.map fun b => if b.1.type = .drop then b.2 else {}

/-- A packet shows in what was dropped exactly if it falls into a band that drops. -/
theorem Ledger.dropped_charge {l : Ledger} {place : Option Nat} (length : Nat)
    (inside : ∀ i, place = some i → i < l.bands.length) :
    (l.charge place length).dropped ≠ l.dropped ↔ l.type? place = some .drop := by
  cases place with
  | none => exact iff_of_false (fun differ => differ rfl) (fun drops => by cases drops)
  | some i =>
    obtain ⟨b, here⟩ : ∃ b, l.bands[i]? = some b :=
      ⟨_, List.getElem?_eq_getElem (inside i rfl)⟩
    have type : l.type? (some i) = some b.1.type := by simp [type?, here]
    rw [type, Option.some.injEq]
    constructor
    · intro differ
      by_contra other
      refine differ (List.ext_getElem? fun j => ?_)
      simp only [dropped, charge, Option.elim_some, List.getElem?_map, List.getElem?_modify]
      by_cases at_ : i = j
      · subst at_
        simp [here, other]
      · cases l.bands[j]? <;> simp [at_]
    · intro drops same
      have counted := congrArg (·[i]?) same
      simp only [dropped, charge, Option.elim_some, List.getElem?_map, List.getElem?_modify, here,
        Option.map_eq_map, Option.map_some, if_true, Prod.map, id, drops, Option.some.injEq]
        at counted
      exact b.2.add_ne length counted

namespace MeterTable

/-- What the bands of a meter have dropped, if it is there. -/
def dropped? (t : MeterTable) (id : MeterId) : Option (List Counter) :=
  (t.ledger? id).map Ledger.dropped

/-- Whether a band of an ordinary meter has dropped a packet on the way from `t` to `t'`. -/
def Drops (t t' : MeterTable) : Prop :=
  ∃ id, id.isOrdinary = true ∧ t'.dropped? id ≠ t.dropped? id

theorem dropped?_modify_other {t : MeterTable} {j id : MeterId} (other : j ≠ id)
    (change : Meter → Meter) : dropped? (t.modify id change) j = t.dropped? j := by
  rw [dropped?, ledger?_modify, if_neg other]
  rfl

/-- A meter drops a packet exactly if one of its bands counts it as dropped, and other meters count
nothing. -/
theorem police_dropped (t : MeterTable) (id : MeterId) (f : Frame) (now : Time) :
    ((t.police id f now).1 = .error .dropPacket ↔
        (t.police id f now).2.2.dropped? id ≠ t.dropped? id) ∧
      ∀ j, j ≠ id → (t.police id f now).2.2.dropped? j = t.dropped? j := by
  rw [police_eq]
  cases held : t.get? id with
  | none =>
    have refused : t.policeBy .floating id f now = (.error .notFound, f, t) := by
      rw [policeBy, held]
    rw [refused]
    exact ⟨by simp, fun _ _ => rfl⟩
  | some m =>
    obtain ⟨place, change, inside, ledger, done⟩ := policeBy_cases .floating held f now
    have within : ∀ i, place = some i → i < m.ledger.bands.length := by
      simpa [Meter.ledger] using inside
    have before : t.dropped? id = some m.ledger.dropped := by
      rw [dropped?, ledger?, held]
      rfl
    have after : dropped? (t.modify id change) id
        = some (m.ledger.charge place f.length).dropped := by
      rw [dropped?, ledger?_modify, if_pos rfl, held, Option.map_some, ledger]
      rfl
    have books : dropped? (t.modify id change) id ≠ t.dropped? id ↔
        m.ledger.type? place = some .drop := by
      rw [before, after, ← Ledger.dropped_charge f.length within]
      exact not_congr (Option.some_inj ..)
    rcases done with plain | ⟨type, -, by_, remarked⟩
    · rw [plain]
      refine ⟨?_, fun j other => dropped?_modify_other other change⟩
      rw [books]
      dsimp only
      split
      · simp [*]
      · simp [*]
    · rw [remarked]
      refine ⟨?_, fun j other => dropped?_modify_other other change⟩
      rw [books, type]
      exact iff_of_false (setDscp_result f _) (by simp)

variable {t t' t'' : MeterTable}

theorem not_drops_iff :
    ¬ t.Drops t' ↔ ∀ id, id.isOrdinary = true → t'.dropped? id = t.dropped? id := by
  simp [Drops]

theorem not_drops_refl (t : MeterTable) : ¬ t.Drops t := not_drops_iff.mpr fun _ _ => rfl

theorem drops_congr (same : ¬ t.Drops t') : t.Drops t'' ↔ t'.Drops t'' := by
  have equal := not_drops_iff.mp same
  constructor
  · rintro ⟨id, ordinary, differ⟩
    exact ⟨id, ordinary, equal id ordinary ▸ differ⟩
  · rintro ⟨id, ordinary, differ⟩
    exact ⟨id, ordinary, (equal id ordinary).symm ▸ differ⟩

/-- An ordinary meter drops a packet exactly if one of its bands counts it as dropped. -/
theorem police_drops_iff (t : MeterTable) {id : MeterId} (ordinary : id.isOrdinary = true)
    (f : Frame) (now : Time) :
    (t.police id f now).1 = .error .dropPacket ↔ t.Drops (t.police id f now).2.2 := by
  obtain ⟨own, others⟩ := t.police_dropped id f now
  rw [own]
  constructor
  · intro differ
    exact ⟨id, ordinary, differ⟩
  · rintro ⟨j, -, differ⟩
    by_cases same : j = id
    · exact same ▸ differ
    · exact absurd (others j same) differ

/-- The meter of the controller drops nothing that counts. -/
theorem not_drops_police (t : MeterTable) {id : MeterId} (apart : id.isOrdinary = false)
    (f : Frame) (now : Time) : ¬ t.Drops (t.police id f now).2.2 := by
  rintro ⟨j, ordinary, differ⟩
  refine differ ((t.police_dropped id f now).2 j ?_)
  rintro rfl
  rw [apart] at ordinary
  cases ordinary

end MeterTable

namespace Run

variable {α : Type} {s : Setting} {t : Tables}

/-! ## Parts that drop nothing -/

/-- No band of an ordinary meter drops anything. -/
def keepsDrops : Effect := fun p _ q => ¬ p.tables.meters.Drops q.tables.meters

theorem keepsDrops_of_meters {p q : Pass} (h : Option Halt)
    (same : q.tables.meters = p.tables.meters) : keepsDrops p h q := by
  rw [keepsDrops, same]
  exact MeterTable.not_drops_refl _

theorem composes_keepsDrops : keepsDrops.Composes where
  halt _ h := keepsDrops_of_meters h rfl
  trans first next := mt (MeterTable.drops_congr first).mp next

theorem keepsDrops_packetIn (s : Setting) (p : Pass) (reason : PacketInReason)
    (origin : Option EntryRef) (maxLength : UInt16) :
    keepsDrops p none (p.packetIn s reason origin maxLength) := by
  obtain same | ⟨requests, same⟩ := packetIn_cases s reason origin maxLength p
  · rw [same]
    exact keepsDrops_of_meters none rfl
  · rw [same]
    have controller : MeterId.controller.isOrdinary = false := by decide
    exact p.tables.meters.not_drops_police controller p.frame s.now

theorem keepsDrops_change (s : Setting) (origin : Option EntryRef) (a : Action) :
    Obeys keepsDrops (change s origin a) := by
  have edits (change : Frame → Except SwitchError Unit × Frame) :
      Obeys keepsDrops (edit change) := by
    intro p
    rw [on_edit]
    exact keepsDrops_of_meters _ rfl
  have each (a : Action) : Obeys keepsDrops (edit a.edit) := edits a.edit
  exact .change (keepsDrops_packetIn s) composes_keepsDrops (edits _) each origin a

/-- A part of a pass that drops nothing and changes nothing in the tables but their counters. -/
structure Sparing (x : Run α) : Prop where
  settled : Obeys keepsSettled x
  drops : Obeys keepsDrops x
  fails : Fails x

section Sparing

variable (s)

theorem sparing_change (origin : Option EntryRef) (a : Action) : Sparing (change s origin a) :=
  ⟨(steps_keepsSettled s).change origin a, keepsDrops_change s origin a, fails_change s origin a⟩

theorem sparing_toController (origin : Option EntryRef) (maxLength : UInt16) :
    Sparing (modify fun p => p.toController s origin maxLength) where
  settled := (steps_keepsSettled s).toController origin maxLength
  drops := .toController (keepsDrops_packetIn s) composes_keepsDrops origin maxLength
  fails := .modify _

include s in
theorem sparing_sendOut (port : PortNo) : Sparing (sendOut port) where
  settled := (steps_keepsSettled s).sendOut port
  drops := .sendOut composes_keepsDrops (fun _ _ _ => keepsDrops_of_meters none rfl) port
  fails := fails_sendOut port

theorem sparing_enterGroup (id : GroupId) : Sparing (enterGroup s id) where
  settled := (steps_keepsSettled s).enterGroup id
  drops := .enterGroup composes_keepsDrops s id (fun _ _ => keepsDrops_of_meters none rfl)
    fun _ _ => keepsDrops_of_meters none rfl
  fails := fails_enterGroup s id

include s in
theorem sparing_enterBucket (id : GroupId) (place : Nat) : Sparing (enterBucket id place) where
  settled := (steps_keepsSettled s).enterBucket id place
  drops := .enterBucket composes_keepsDrops id place fun _ _ => keepsDrops_of_meters none rfl
  fails := fails_enterBucket id place

include s in
theorem sparing_look (table : TableId) : Sparing (look table) := by
  refine ⟨(steps_keepsSettled s).look table, fun p => ?_, fails_look table⟩
  rw [on_look]
  split
  · exact keepsDrops_of_meters _ rfl
  · exact keepsDrops_of_meters _ (Tables.meters_modifyFlow ..)

theorem sparing_countFrame (e : FlowEntry) : Sparing (countFrame s e) where
  settled := (steps_keepsSettled s).countFrame e
  drops _ := keepsDrops_of_meters none (Tables.meters_modifyFlow ..)
  fails := .modify _

include s in
theorem sparing_writeMetadata (f : UInt64 → UInt64) :
    Sparing (changeContext fun c => { c with metadata := f c.metadata }) where
  settled := (steps_keepsSettled s).writeMetadata f
  drops _ := keepsDrops_of_meters none rfl
  fails := .modify _

end Sparing

/-! ## Passes -/

/-- A pass over the tables `t` that has dropped nothing while it goes on, and that ends early with
the packet dropped exactly if a band has dropped one. -/
abbrev undropped (t : Tables) : Bond :=
  .alone (fun p => p.tables.settled = t.settled ∧ ¬ t.meters.Drops p.tables.meters)
    fun h p => h = .refused .dropPacket ↔ t.meters.Drops p.tables.meters

theorem Sparing.keeps {x : Run α} {answers : α → Prop} (sparing : Sparing x)
    (answer : ∀ p a q, p.tables.settled = t.settled → x.on p = (.ok a, q) → answers a) :
    (undropped t).Keeps x x answers := by
  refine Bond.keeps_alone ?_ ?_
  · rintro p a q ⟨settled, none⟩ ran
    have kept := sparing.settled p
    have drops := sparing.drops p
    rw [ran] at kept drops
    exact ⟨answer p a q settled ran, kept.trans settled,
      mt (MeterTable.drops_congr none).mp drops⟩
  · rintro p h q ⟨-, none⟩ ran
    have drops := sparing.drops p
    rw [ran] at drops
    obtain ⟨e, rfl, other⟩ := sparing.fails p h q ran
    refine iff_of_false (fun same => ?_) (mt (MeterTable.drops_congr none).mp drops)
    exact other (Halt.refused.inj same)

theorem police_ends_iff {id : MeterId} (ordinary : id.isOrdinary = true) (now : Time) (p : Pass) :
    ((police id now).on p).1 = .error (.refused .dropPacket) ↔
      p.tables.meters.Drops ((police id now).on p).2.tables.meters := by
  rw [on_police]
  refine Iff.trans ?_ (p.tables.meters.police_drops_iff ordinary p.frame now)
  dsimp only
  split
  · simp [*]
  · simp [*]
  · rename_i is
    rw [is]
    simp

theorem keeps_police {id : MeterId} (ordinary : id.isOrdinary = true) :
    (undropped t).Keeps (police id s.now) (police id s.now) := by
  have settled := (steps_keepsSettled s).police id
  refine Bond.keeps_alone ?_ ?_
  · rintro p a q ⟨same, none⟩ ran
    have kept := settled p
    have ends := police_ends_iff ordinary s.now p
    rw [ran] at kept ends
    refine ⟨trivial, kept.trans same, fun drops => ?_⟩
    have dropped := ends.mpr ((MeterTable.drops_congr none).mp drops)
    cases dropped
  · rintro p h q ⟨-, none⟩ ran
    have ends := police_ends_iff ordinary s.now p
    rw [ran] at ends
    rw [MeterTable.drops_congr none, ← ends, Except.error.injEq]

/-- Whether all meters that entries name are ordinary ones. -/
def OrdinaryMeters (t : Tables) : Prop :=
  ∀ e ∈ t.entries, ∀ id, e.instructions.meter = some id → id.isOrdinary = true

theorem lockstep_undropped (s : Setting) (named : OrdinaryMeters t) :
    Lockstep .idle s (undropped t) (fun m n _ => m = n)
      fun _ e => ∃ e₀ ∈ t.entries, e₀.instructions = e.instructions where
  heed _ _ := rfl
  refuse := by
    rintro p _ ⟨rfl, -, none⟩
    exact ⟨rfl, rfl, iff_of_false nofun none⟩
  restore := by
    rintro p _ p' _ ⟨rfl, -⟩ ⟨rfl, held⟩
    exact ⟨rfl, held⟩
  restoreEnd := by
    rintro p _ h _ p' _ ⟨rfl, -⟩ ⟨rfl, rfl, ended⟩
    exact ⟨rfl, rfl, ended⟩
  plain a _ := Bond.permits_alone a
  change origin a _ := (sparing_change s origin a).keeps fun _ _ _ _ _ => trivial
  toController origin maxLength :=
    (sparing_toController s origin maxLength).keeps fun _ _ _ _ _ => trivial
  send _ := (sparing_sendOut s _).keeps fun _ _ _ _ _ => trivial
  enterGroup id := (sparing_enterGroup s id).keeps fun _ _ _ _ _ => trivial
  enterBucket {m n id} place same :=
    (sparing_enterBucket s id place).keeps fun _ _ _ _ _ _ _ => Nat.succ.inj same
  endless := Bond.alone_endless fun p held => iff_of_false nofun held.2
  look table := by
    refine (sparing_look s table).keeps fun p hit q settled looked e here => ?_
    subst here
    exact exists_mem_entries_of_look settled looked
  admits _ _ _ a _ := Bond.permits_alone a
  police := by
    rintro table e id ⟨e₀, among, same⟩ meter
    exact keeps_police (named e₀ among id (same ▸ meter))
  countFrame e := (sparing_countFrame s e).keeps fun _ _ _ _ _ => trivial
  writeMetadata f := (sparing_writeMetadata s f).keeps fun _ _ _ _ _ => trivial

/-- However a pass ends, it ends with the packet dropped exactly if a band has dropped one. -/
theorem Bond.Keeps.drops_iff {x : Run Unit} (kept : (undropped t).Keeps x x) {p : Pass}
    (begun : p.tables = t) :
    (x.on p).1 = .error (.refused .dropPacket) ↔ t.meters.Drops (x.on p).2.tables.meters := by
  subst begun
  have done := kept p p ⟨rfl, rfl, MeterTable.not_drops_refl _⟩
  generalize x.on p = ended at done
  cases done with
  | ok _ here =>
    refine iff_of_false (fun dropped => ?_) here.2.2
    cases dropped
  | error here =>
    rw [Except.error.injEq]
    exact here.2.2

theorem process_drops_iff (named : OrdinaryMeters t) (s : Setting) {p : Pass}
    (begun : p.tables = t) :
    ((process s).on p).1 = .error (.refused .dropPacket) ↔
      t.meters.Drops ((process s).on p).2.tables.meters :=
  (lockstep_undropped s named).process.drops_iff begun

theorem carryOut_drops_iff (named : OrdinaryMeters t) (s : Setting) (actions : ActionList)
    {p : Pass} (begun : p.tables = t) :
    ((carryOut s actions).on p).1 = .error (.refused .dropPacket) ↔
      t.meters.Drops ((carryOut s actions).on p).2.tables.meters :=
  have kept := (lockstep_undropped s named).carryOut actions fun a _ => Bond.permits_alone a
  kept.drops_iff begun

end Run

end FlowSwitch
