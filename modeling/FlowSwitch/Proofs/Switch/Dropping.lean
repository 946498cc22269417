import FlowSwitch.Proofs.Forward.Dropping
import FlowSwitch.Proofs.Forward.View
import FlowSwitch.Proofs.Switch.References
import FlowSwitch.Proofs.Tables.Carried

/-!
# What a switch says of a packet that a meter dropped

To the device that handed a frame in, and to whoever received it for that device, a meter that
drops the frame is no failure. To the controller that sent a packet out it is one: where an action
sends the packet back to the first table and an entry leads it through a meter that drops it, the
cause comes back as it is.
-/

namespace FlowSwitch

/-- Whether the meter that instructions name, if any, is an ordinary one. -/
def InstructionSet.OrdinaryMeter (_ : TableId) (s : InstructionSet) : Prop :=
  ∀ id, s.meter = some id → id.isOrdinary = true

theorem InstructionSet.ordinaryMeter_of_validate {s : InstructionSet} {table : TableId}
    {writable : UInt64} {known : Known} (valid : s.validate table writable known = .ok ()) :
    s.OrdinaryMeter table := by
  intro id named
  obtain ⟨some, small⟩ := (accepted_of_validate valid).meter id named
  have least : (1 : UInt32) ≤ id := by
    have positive : id.toNat ≠ 0 := fun zero => some (UInt32.toNat_inj.mp zero)
    exact UInt32.le_iff_toNat_le.mpr (Nat.one_le_iff_ne_zero.mpr positive)
  exact Bool.and_eq_true_iff.mpr ⟨decide_eq_true least, decide_eq_true small⟩

namespace Switch

open Run

variable {sw : Switch}

theorem ordinaryMeters_run {config : Config} {selection : Selection}
    (created : create config selection = .ok sw) (cs : List Command) :
    OrdinaryMeters (sw.run cs).tables := by
  intro e inside
  rw [run_tables, tables_create created] at inside
  obtain ⟨table, f, found, among⟩ := Tables.mem_entries.mp inside
  have carries := Tables.carries_run InstructionSet.ordinaryMeter_of_validate
    config.maxFlowEntries (sw.tableCommands cs)
  exact carries table f found e among

/-- A switch that answers a packet of the controller with a meter's drop, and a frame never. -/
structure TellsDrops (sw : Switch) : Prop where
  handle : ∀ port f now busy, (sw.handle port f now busy).1 ≠ .error (.refused .dropPacket)
  receive : ∀ port f now busy, (sw.receive port f now busy).1 ≠ .error (.refused .dropPacket)
  /-- A frame that a meter drops was handled. -/
  handled : ∀ port f now busy,
    sw.tables.meters.Drops (sw.handle port f now busy).2.tables.meters →
      (sw.handle port f now busy).1 = .ok ()
  received : ∀ port f now busy,
    sw.tables.meters.Drops (sw.receive port f now busy).2.tables.meters →
      (sw.receive port f now busy).1 = .ok ()
  packetOut : ∀ buffer port actions f now,
    (sw.packetOut buffer port actions f now).1 = .error (.refused .dropPacket) ↔
      sw.tables.meters.Drops (sw.packetOut buffer port actions f now).2.tables.meters

theorem prepare_ne_dropPacket (f : Frame) (port : Option PortNo) :
    prepare f port ≠ .error (.refused .dropPacket) := by
  unfold prepare
  cases f.ensureParsed <;> simp

/-- A frame is refused, and no meter meets it, or it is processed, and then no drop is left. -/
theorem handle_cases (sw : Switch) (port : PortNo) (f : Frame) (now : Time) (busy : Bool) :
    (∃ h, h ≠ .refused .dropPacket ∧ sw.handle port f now busy = (.error h, sw)) ∨
      ∃ g, (sw.handle port f now busy).2 = (sw.pass now g process).2 ∧
        ((sw.pass now g process).1 = .error (.refused .dropPacket) →
          (sw.handle port f now busy).1 = .ok ()) ∧
        ((sw.pass now g process).1 ≠ .error (.refused .dropPacket) →
          (sw.handle port f now busy).1 = (sw.pass now g process).1) := by
  unfold Switch.handle
  have prepared := prepare_ne_dropPacket f (some port)
  cases made : prepare f port with
  | error h => exact .inl ⟨h, fun drop => prepared (drop ▸ made), rfl⟩
  | ok g =>
    cases busy with
    | true => exact .inl ⟨.refused .lock, by decide, rfl⟩
    | false =>
      refine .inr ⟨g, rfl, fun dropped => ?_, fun other => ?_⟩
      · simp [dropped]
      · dsimp only
        rw [if_neg Bool.false_ne_true]
        dsimp only
        split
        · exact absurd ‹_› other
        · rfl

theorem ne_dropPacket_of_handle (sw : Switch) (port : PortNo) (f : Frame) (now : Time)
    (busy : Bool) : (sw.handle port f now busy).1 ≠ .error (.refused .dropPacket) := by
  rcases sw.handle_cases port f now busy with ⟨h, other, refused⟩ | ⟨g, -, absorbed, kept⟩
  · rw [refused]
    exact fun drop => other (Except.error.inj drop)
  · by_cases dropped : (sw.pass now g process).1 = .error (.refused .dropPacket)
    · rw [absorbed dropped]
      exact fun drop => by cases drop
    · rw [kept dropped]
      exact dropped

theorem handled_of_drops (named : OrdinaryMeters sw.tables) {port : PortNo} {f : Frame}
    {now : Time} {busy : Bool}
    (drops : sw.tables.meters.Drops (sw.handle port f now busy).2.tables.meters) :
    (sw.handle port f now busy).1 = .ok () := by
  rcases sw.handle_cases port f now busy with ⟨h, -, refused⟩ | ⟨g, left, absorbed, -⟩
  · rw [refused] at drops
    exact absurd drops (MeterTable.not_drops_refl _)
  · rw [left] at drops
    exact absorbed ((process_drops_iff named (sw.setting now) rfl).mpr drops)

/-- A packet of the controller is refused, and no meter meets it, or its actions are carried
out. -/
theorem packetOut_cases (sw : Switch) (buffer : UInt32) (port : PortNo) (actions : ActionList)
    (f : Option Frame) (now : Time) :
    (∃ h n, h ≠ .refused .dropPacket ∧
        sw.packetOut buffer port actions f now = (.error h, { sw with notifier := n })) ∨
      ∃ g n, sw.packetOut buffer port actions f now
        = { sw with notifier := n : Switch }.pass now g fun s => Run.carryOut s actions := by
  unfold Switch.packetOut
  have found : (∃ h, h ≠ .refused .dropPacket ∧ sw.packetFor buffer f = .error h) ∨
      ∃ g n, sw.packetFor buffer f = .ok (g, { sw with notifier := n }) := by
    unfold Switch.packetFor
    split
    · cases f with
      | none => exact .inl ⟨_, by decide, rfl⟩
      | some g => exact .inr ⟨g, sw.notifier, rfl⟩
    · cases sw.notifier.takePacket buffer with
      | none => exact .inl ⟨_, by decide, rfl⟩
      | some taken => exact .inr ⟨taken.1, taken.2, rfl⟩
  rcases found with ⟨h, other, refused⟩ | ⟨g, n, taken⟩
  · rw [refused]
    exact .inl ⟨h, sw.notifier, other, rfl⟩
  · rw [taken]
    dsimp only
    have prepared := prepare_ne_dropPacket g (if port.isSource then some port else none)
    cases made : prepare g (if port.isSource then some port else none) with
    | error h => exact .inl ⟨h, n, fun drop => prepared (drop ▸ made), rfl⟩
    | ok g => exact .inr ⟨g, n, rfl⟩

theorem packetOut_drops_iff (named : OrdinaryMeters sw.tables) (buffer : UInt32) (port : PortNo)
    (actions : ActionList) (f : Option Frame) (now : Time) :
    (sw.packetOut buffer port actions f now).1 = .error (.refused .dropPacket) ↔
      sw.tables.meters.Drops (sw.packetOut buffer port actions f now).2.tables.meters := by
  rcases sw.packetOut_cases buffer port actions f now with ⟨h, n, other, refused⟩ | ⟨g, n, ran⟩
  · rw [refused]
    exact iff_of_false (fun drop => other (Except.error.inj drop)) (MeterTable.not_drops_refl _)
  · rw [ran]
    exact carryOut_drops_iff named _ actions rfl

theorem tellsDrops (named : OrdinaryMeters sw.tables) : sw.TellsDrops where
  handle := sw.ne_dropPacket_of_handle
  receive port f now busy := by
    unfold Switch.receive
    split
    · exact fun drop => by cases drop
    · exact sw.ne_dropPacket_of_handle port (arriving f) now busy
  handled _ _ _ _ := handled_of_drops named
  received port f now busy drops := by
    unfold Switch.receive at drops ⊢
    split at drops
    · rw [if_pos ‹_›]
    · rw [if_neg ‹_›]
      exact handled_of_drops named drops
  packetOut := packetOut_drops_iff named

/-- However a switch got where it is, and however rates compare: a frame that is handed in is never
answered with a meter's drop, and a packet of the controller is exactly if a band of a meter has
dropped a packet meanwhile, at any depth of groups and of walks begun again. -/
theorem run_tellsDrops {config : Config} {selection : Selection}
    (created : create config selection = .ok sw) (cs : List Command) : (sw.run cs).TellsDrops :=
  tellsDrops (ordinaryMeters_run created cs)

/-- All packets are led through a meter that drops them. -/
def metered : List Command :=
  [.addMeter 1 { packets := true, burst := true } [⟨.drop, 1, 0, 0⟩] 0,
    .addFlow { groupEntry 0 0 with instructions := { meter := some 1 } }]

/-- A packet of the controller for the first table. -/
def sendToTable (sw : Switch) : Except Halt Unit × Switch :=
  sw.packetOut noBuffer 1 ⟨[.output PortNo.table 128], by decide⟩ (some blank) 0

theorem run_tellsDrops_metered :
    create {} fresh.selection = .ok fresh ∧ (fresh.run metered).TellsDrops ∧
      ((fresh.run metered).handle 1 blank 0).1 = .ok () ∧
      (fresh.run metered).tables.meters.Drops
        (sendToTable (fresh.run metered)).2.tables.meters := by
  have created : create {} fresh.selection = .ok fresh := rfl
  have tells := run_tellsDrops created metered
  refine ⟨created, tells, by decide +kernel, (tells.packetOut ..).mp ?_⟩
  decide +kernel

theorem not_handled_metered :
    (sendToTable (fresh.run metered)).1 = .error (.refused .dropPacket) := by decide +kernel

end Switch

end FlowSwitch
