import FlowSwitch.Proofs.Flow.Instruction
import FlowSwitch.Proofs.Tables.Settled
import FlowSwitch.Tables.Command
import Mathlib.Data.List.Nodup

/-!
# What is reported of ports

Whatever was done to the ports and by their devices, a port is live exactly if its link is not
down, as its device said last. So a refresh reports a port, once and as it is then described, if
anything but the speeds of its link has changed, and refreshing once more reports nothing.
Other speeds alone are described from then on and never reported.
-/

namespace FlowSwitch

/-- A description without the speeds of the link. -/
def PortDescription.withoutSpeeds (d : PortDescription) : PortDescription :=
  { d with status := { d.status with currentSpeed := 0, maxSpeed := 0 } }

namespace SwitchPort

/-- A port whose state is what its device said last of its link. -/
structure Seen (p : SwitchPort) : Prop where
  live : p.state.live = !p.state.linkDown
  up : p.status.up = !p.state.linkDown

variable {p p' : SwitchPort}

theorem seen_refresh (p : SwitchPort) : p.refresh.2.Seen where
  live := (Bool.not_not _).symm
  up := (Bool.not_not _).symm

theorem Seen.of_state (seen : p.Seen) (state : p'.state = p.state) (status : p'.status = p.status) :
    p'.Seen := by
  constructor
  · rw [state, seen.live]
  · rw [state, status, seen.up]

theorem Seen.configure {config mask : BitVec 32} (done : p.configure config mask = .ok p')
    (seen : p.Seen) : p'.Seen := by
  unfold SwitchPort.configure at done
  split at done
  · rename_i new bits _ _
    dsimp only at done
    split at done
    · obtain rfl := Except.ok.inj done
      exact seen.of_state rfl rfl
    · split at done
      · obtain rfl := Except.ok.inj done
        exact seen.of_state rfl rfl
      · cases done
  · cases done

theorem Seen.state_eq (seen : p.Seen) : p.state = ⟨!p.status.up, p.status.up⟩ := by
  rw [seen.up, Bool.not_not, ← seen.live]

/-- There is nothing to report exactly if the description changes in its speeds at most. -/
theorem Seen.silent_iff (seen : p.Seen) (port : PortNo) :
    p.refresh.1 = false ↔
      (p.describe port).withoutSpeeds = (p.refresh.2.describe port).withoutSpeeds := by
  have told : p.refresh.1 = false ↔
      p.device.status.up = p.status.up ∧ p.device.status.features = p.status.features := by
    rw [refresh, seen.state_eq, Bool.or_eq_false_iff, bne_eq_false_iff_eq]
    refine and_congr_left' ?_
    cases p.device.status.up <;> cases p.status.up <;> decide
  have described : (p.describe port).withoutSpeeds = (p.refresh.2.describe port).withoutSpeeds ↔
      p.status.up = p.device.status.up ∧ p.status.features = p.device.status.features := by
    simp only [describe, refresh, PortDescription.withoutSpeeds, PortDescription.mk.injEq,
      seen.state_eq, PortState.mk.injEq, LinkStatus.mk.injEq, LinkStatus.features, List.cons.injEq]
    constructor
    · grind
    · grind
  rw [told, described]
  exact and_congr eq_comm eq_comm

theorem refresh_refresh (p : SwitchPort) : p.refresh.2.refresh = (false, p.refresh.2) := by
  have same : (p.device.status.up == !p.device.status.up) = false := by
    cases p.device.status.up <;> rfl
  simp [refresh, same]

end SwitchPort

namespace PortTable

/-! ## What can be done to ports -/

/-- Every way in which ports change: what the controller asks for, what frames do to them, and
what their devices do by themselves. -/
inductive Command
  | add (port : PortNo) (d : Device) (queueLimit : Nat) (now : Time)
  | delete (port : PortNo)
  | configure (port : PortNo) (config mask : BitVec 32)
  | refresh
  | send (port : PortNo) (f : Frame)
  /-- A device changes: its link, what it can do, its counters or its queue. -/
  | device (port : PortNo) (change : Device → Device)

def step (t : PortTable) : Command → PortTable
  | .add port d queueLimit now => unlessRefused t ((t.add port d queueLimit now).map (·.2))
  | .delete port => unlessRefused t ((t.delete port).map (·.2))
  | .configure port config mask => unlessRefused t (t.configure port config mask)
  | .refresh => t.refresh.2
  | .send port f => unlessRefused t (t.send port f)
  | .device port change => t.modify port fun p => { p with device := change p.device }

def run (t : PortTable) (commands : List Command) : PortTable := commands.foldl step t

/-- Ports with a number each, whose state is what their devices said last. -/
structure Kept (t : PortTable) : Prop where
  distinct : t.keys.Nodup
  seen : ∀ e ∈ t.entries, e.2.Seen

variable {t t' : PortTable}

theorem Kept.modify {change : SwitchPort → SwitchPort} (kept : t.Kept) (port : PortNo)
    (seen : ∀ p, p.Seen → (change p).Seen) : Kept (t.modify port change) where
  distinct := (t.keys_modify port change).symm ▸ kept.distinct
  seen := by
    intro e inside
    obtain ⟨x, among, rfl⟩ := List.mem_map.mp inside
    split
    · exact seen x.2 (kept.seen x among)
    · exact kept.seen x among

theorem Kept.insert {p : SwitchPort} {port : PortNo} (kept : t.Kept)
    (free : t.contains port = false) (seen : p.Seen) : Kept (t.insert port p) := by
  refine ⟨Registry.nodup_keys_insert kept.distinct port p, ?_⟩
  unfold Registry.insert
  rw [if_neg (Bool.not_eq_true _ ▸ free)]
  intro e inside
  rcases List.mem_append.mp inside with before | last
  · exact kept.seen e before
  · obtain rfl := List.mem_singleton.mp last
    exact seen

theorem Kept.deliver (kept : t.Kept) (d : Bytes) (port : PortNo) : Kept (t.deliver d port) := by
  refine kept.modify port fun p seen => ?_
  split
  · exact seen.of_state rfl rfl
  · exact seen

theorem Kept.add {port : PortNo} {d : Device} {queueLimit : Nat} {now : Time}
    {answer : PortNo × PortTable} (kept : t.Kept)
    (done : t.add port d queueLimit now = .ok answer) : answer.2.Kept := by
  unfold PortTable.add at done
  cases number : if port = 0 then t.lowestFree? else some port with
  | none =>
    rw [number] at done
    cases done
  | some free =>
    rw [number] at done
    dsimp only at done
    split at done
    · cases done
    · rename_i fine
      obtain rfl := Except.ok.inj done
      have free : t.contains free = false := by
        rw [Bool.not_eq_true, Bool.or_eq_false_iff] at fine
        exact fine.2
      exact kept.insert free (SwitchPort.seen_refresh _)

theorem Kept.erase (kept : t.Kept) (port : PortNo) : Kept (t.erase port) where
  distinct := kept.distinct.sublist (List.filter_sublist.map _)
  seen e inside := kept.seen e (List.mem_filter.mp inside).1

theorem Kept.configure {port : PortNo} {config mask : BitVec 32} (kept : t.Kept)
    (done : t.configure port config mask = .ok t') : t'.Kept := by
  unfold PortTable.configure at done
  cases found : t.get? port with
  | none =>
    rw [found] at done
    cases done
  | some p =>
    rw [found] at done
    obtain ⟨p', set, made⟩ := bind_eq_ok.mp done
    obtain rfl := Except.ok.inj made
    obtain ⟨e, there, rfl⟩ := Option.map_eq_some_iff.mp found
    have inside : e ∈ t.entries := List.mem_of_find?_eq_some there
    exact kept.modify port fun _ _ => (kept.seen e inside).configure set

theorem Kept.refresh (kept : t.Kept) : t.refresh.2.Kept where
  distinct := (t.keys_map _).symm ▸ kept.distinct
  seen := by
    intro e inside
    obtain ⟨x, -, rfl⟩ := List.mem_map.mp inside
    exact SwitchPort.seen_refresh x.2

theorem Kept.send {port : PortNo} {f : Frame} (kept : t.Kept) (done : t.send port f = .ok t') :
    t'.Kept := by
  have each (l : List PortNo) (t : PortTable) (kept : t.Kept) :
      Kept (l.foldl (·.deliver f.pad.data ·) t) := by
    induction l generalizing t with
    | nil => exact kept
    | cons q l ih => exact ih _ (kept.deliver f.pad.data q)
  unfold PortTable.send at done
  cases context : f.context? with
  | none =>
    rw [context] at done
    dsimp only [throw, throwThe, MonadExceptOf.throw] at done
    split at done <;> cases done
  | some c =>
    rw [context] at done
    dsimp only [throw, throwThe, MonadExceptOf.throw] at done
    split at done
    · cases done
    · split at done
      · cases done
      · obtain rfl := Except.ok.inj done
        exact each _ t kept

theorem Kept.step (kept : t.Kept) (c : Command) : (t.step c).Kept := by
  cases c with
  | add port d queueLimit now =>
    refine unlessRefused_of (P := Kept) kept fun t' done => ?_
    obtain ⟨answer, added, rfl⟩ := map_eq_ok.mp done
    exact kept.add added
  | delete port =>
    refine unlessRefused_of (P := Kept) kept fun t' done => ?_
    unfold PortTable.delete at done
    cases found : t.get? port with
    | none =>
      rw [found] at done
      cases done
    | some p =>
      rw [found] at done
      obtain rfl := Except.ok.inj done
      exact kept.erase port
  | configure port config mask => exact unlessRefused_of (P := Kept) kept fun t' => kept.configure
  | refresh => exact kept.refresh
  | send port f => exact unlessRefused_of (P := Kept) kept fun t' => kept.send
  | device port change =>
    have seen (p : SwitchPort) (seen : p.Seen) :
        { p with device := change p.device : SwitchPort }.Seen := seen.of_state rfl rfl
    exact kept.modify port seen

/-- Induction on the commands. -/
theorem Kept.run (kept : t.Kept) (cs : List Command) : (t.run cs).Kept := by
  induction cs generalizing t with
  | nil => exact kept
  | cons c cs ih => exact ih (kept.step c)

/-! ## What a refresh reports -/

/-- What is said of every port, in their order. -/
def descriptions (t : PortTable) : List PortDescription := t.entries.map fun e => e.2.describe e.1

theorem describe_any (t : PortTable) : t.describe PortNo.any = .ok t.descriptions :=
  if_pos (.inl rfl)

/-- What was said of each port before a refresh, and what is said after it. -/
def changes (t : PortTable) : List (PortDescription × PortDescription) :=
  t.descriptions.zip t.refresh.2.descriptions

theorem descriptions_refresh (t : PortTable) :
    t.refresh.2.descriptions = t.entries.map fun e => e.2.refresh.2.describe e.1 := by
  simp [descriptions, PortTable.refresh, Registry.map]

theorem changes_eq (t : PortTable) :
    t.changes = t.entries.map fun e => (e.2.describe e.1, e.2.refresh.2.describe e.1) := by
  rw [changes, descriptions_refresh, descriptions, List.zip_map']

theorem port_descriptions (t : PortTable) : t.descriptions.map (·.port) = t.keys := by
  simp [descriptions, Registry.keys, SwitchPort.describe]

/-- Ports that a refresh reports if more than the speeds of their links changes. -/
structure Reports (t : PortTable) : Prop where
  described : t.describe PortNo.any = .ok t.descriptions
  aligned : t.refresh.2.descriptions.map (·.port) = t.descriptions.map (·.port)
  told : t.refresh.1
    = (t.changes.filter fun c => c.1.withoutSpeeds ≠ c.2.withoutSpeeds).map (·.2)
  once : (t.refresh.1.map (·.port)).Nodup
  /-- Whether all changes are reported. -/
  complete_iff : t.refresh.1 = (t.changes.filter fun c => c.1 ≠ c.2).map (·.2) ↔
    ∀ c ∈ t.changes, c.1.withoutSpeeds = c.2.withoutSpeeds → c.1 = c.2
  current : ∀ e ∈ t.refresh.2.entries, e.2.status = e.2.device.status
  again : t.refresh.2.refresh = ([], t.refresh.2)
  live : ∀ e ∈ t.entries, e.2.state.live = !e.2.state.linkDown

theorem Kept.told (kept : t.Kept) : t.refresh.1
    = (t.changes.filter fun c => c.1.withoutSpeeds ≠ c.2.withoutSpeeds).map (·.2) := by
  rw [changes_eq, List.filter_map, List.map_map]
  have same : t.entries.filter (·.2.refresh.1) = t.entries.filter fun e =>
      decide ((e.2.describe e.1).withoutSpeeds ≠ (e.2.refresh.2.describe e.1).withoutSpeeds) := by
    refine List.filter_congr fun e inside => ?_
    have silent := (kept.seen e inside).silent_iff e.1
    rw [Bool.eq_iff_iff, decide_eq_true_iff, ne_eq, ← not_congr silent, Bool.not_eq_false]
  exact congrArg (List.map fun e => e.2.refresh.2.describe e.1) same

theorem ports_changes (t : PortTable) : t.changes.map (·.2.port) = t.keys := by
  simp [changes_eq, Registry.keys, SwitchPort.describe]

theorem Kept.complete_iff (kept : t.Kept) :
    t.refresh.1 = (t.changes.filter fun c => c.1 ≠ c.2).map (·.2) ↔
      ∀ c ∈ t.changes, c.1.withoutSpeeds = c.2.withoutSpeeds → c.1 = c.2 := by
  rw [kept.told]
  constructor
  · intro whole c inside slow
    by_contra differ
    have listed : c.2 ∈ (t.changes.filter fun c => c.1 ≠ c.2).map (·.2) :=
      List.mem_map.mpr ⟨c, List.mem_filter.mpr ⟨inside, decide_eq_true differ⟩, rfl⟩
    rw [← whole] at listed
    obtain ⟨c', among, same⟩ := List.mem_map.mp listed
    obtain ⟨inside', told⟩ := List.mem_filter.mp among
    have one : (t.changes.map (·.2.port)).Nodup := t.ports_changes ▸ kept.distinct
    obtain rfl : c' = c := List.inj_on_of_nodup_map one inside' inside (congrArg (·.port) same)
    exact of_decide_eq_true told slow
  · intro apart
    congr 1
    refine List.filter_congr fun c inside => decide_eq_decide.mpr (not_congr ?_)
    exact ⟨apart c inside, congrArg _⟩

theorem Kept.reports (kept : t.Kept) : t.Reports where
  described := t.describe_any
  aligned := by
    rw [port_descriptions, port_descriptions]
    exact t.keys_map _
  told := kept.told
  once := by
    have listed : (t.refresh.1.map (·.port)).Sublist t.keys := by
      rw [kept.told, ← ports_changes, List.map_map]
      exact List.filter_sublist.map _
    exact kept.distinct.sublist listed
  complete_iff := kept.complete_iff
  current := by
    intro e inside
    obtain ⟨x, -, rfl⟩ := List.mem_map.mp inside
    rfl
  again := by
    have silent : t.refresh.2.entries.filter (·.2.refresh.1) = [] := by
      refine List.filter_eq_nil_iff.mpr fun e inside => ?_
      obtain ⟨x, -, rfl⟩ := List.mem_map.mp inside
      rw [SwitchPort.refresh_refresh]
      exact Bool.false_ne_true
    have same : t.refresh.2.map (fun _ p => p.refresh.2) = t.refresh.2 := by
      simp [PortTable.refresh, Registry.map, SwitchPort.refresh_refresh]
    exact Prod.ext (congrArg (List.map _) silent) same
  live e inside := (kept.seen e inside).live

theorem kept_empty : Kept .empty := ⟨.nil, fun _ => List.not_mem_nil.elim⟩

/-- Whatever was done to ports and by their devices, a refresh reports, once each and as they are
described after it, those ports of which anything but the speeds is said otherwise than before.
Reports are complete exactly if no port has other speeds alone. The next refresh reports nothing,
and a port is live exactly if its link is not down. -/
theorem run_reports (cs : List Command) : (run .empty cs).Reports := (kept_empty.run cs).reports

/-- A link that goes on at half its speed, with the same features. -/
def slowed : List Command :=
  [.add 1 { name := "p1", address := 0 } 16 0,
    .device 1 fun d => { d with link := { d.link with currentSpeed := 500000 } }]

theorem not_complete_slowed :
    let t := run .empty slowed
    t.refresh.1 ≠ (t.changes.filter fun c => c.1 ≠ c.2).map (·.2) ∧ t.refresh.1 = [] ∧
      t.describe 1 ≠ t.refresh.2.describe 1 := by
  decide

end PortTable

end FlowSwitch
