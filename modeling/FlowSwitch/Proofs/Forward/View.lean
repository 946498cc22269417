import FlowSwitch.Proofs.Forward.Effect
import FlowSwitch.Proofs.Packet.View
import FlowSwitch.Switch.Command

/-!
# The view during a pass

As long as a pass is not refused, other than because a packet is dropped, the view of
its frame describes the bytes. Sending a frame leaves it alone, whatever happens to the
copies that are sent; the other actions change what the frame carries besides its bytes
only as they say. So every lookup of a pass is made with what the frame says at the time.
-/

namespace FlowSwitch

/-- Whether the lookup was made with the match of the frame's bytes and context. -/
def Lookup.Faithful (l : Lookup) : Prop :=
  ∃ h c, l.frame.view = some ⟨h, c⟩ ∧ Headers.parse l.frame.data = .ok h ∧
    l.packet = Match.ofPacket ⟨h, c⟩

namespace Run

/-- Whether a part of a pass ended well, or with the packet dropped. -/
def Spares (h : Option Halt) : Prop := h = none ∨ h = some (.refused .dropPacket)

/-- From a frame in order, lookups are faithful and the frame is in order again, unless
something failed. -/
def keepsView : Effect := fun p h q =>
  p.frame.Consistent →
    (Spares h → q.frame.Consistent) ∧
      ∃ made, q.lookups = p.lookups ++ made ∧ ∀ l ∈ made, l.Faithful

theorem keepsView_of_same {p q : Pass} (h : Option Halt)
    (frame : p.frame.Consistent → q.frame.Consistent)
    (lookups : q.lookups = p.lookups) : keepsView p h q :=
  fun consistent => ⟨fun _ => frame consistent, [], by simp [lookups], by simp⟩

theorem composes_keepsView : keepsView.Composes where
  halt p h := keepsView_of_same h id rfl
  trans := by
    intro p q r h first next consistent
    obtain ⟨kept, made, recorded, faithful⟩ := first consistent
    obtain ⟨kept', made', recorded', faithful'⟩ := next (kept (.inl rfl))
    refine ⟨kept', made ++ made', by simp [recorded', recorded], ?_⟩
    intro l inside
    rcases List.mem_append.mp inside with h | h
    · exact faithful l h
    · exact faithful' l h

theorem frame_packetIn (s : Setting) (reason : PacketInReason) (origin : Option EntryRef)
    (maxLength : UInt16) (p : Pass) :
    (p.packetIn s reason origin maxLength).frame = p.frame ∧
      (p.packetIn s reason origin maxLength).lookups = p.lookups := by
  obtain ⟨meters, requests, same⟩ := exists_packetIn s reason origin maxLength p
  rw [same]
  exact ⟨rfl, rfl⟩

theorem keepsView_police (s : Setting) (id : MeterId) : Obeys keepsView (police id s.now) := by
  intro p consistent
  rw [on_police]
  rcases p.tables.meters.police_cases consistent id s.now with kept | failed
  · exact ⟨fun _ => kept.1, [], by simp, by simp⟩
  · refine ⟨?_, [], by simp, by simp⟩
    simp [failed, halt?, Spares]

theorem keepsView_look (table : TableId) : Obeys keepsView (look table) := by
  intro p consistent
  obtain ⟨h, c, view, read⟩ := consistent.view
  rw [on_look, view]
  refine ⟨fun _ => consistent, [⟨table, _, p.frame⟩], rfl, ?_⟩
  intro l inside
  rw [List.mem_singleton] at inside
  exact inside ▸ ⟨h, c, view, read, rfl⟩

theorem keepsView_edit (a : Action) : Obeys keepsView (edit a.edit) := by
  intro p consistent
  rcases a.edit_cases consistent with ⟨g, edited, kept, -⟩ | ⟨e, g, failed, other⟩
  · rw [on_edit_ok edited]
    exact ⟨fun _ => kept, [], by simp, by simp⟩
  · rw [on_edit_error failed]
    refine ⟨?_, [], by simp, by simp⟩
    simp [halt?, Spares, other]

/-- The read of the headers before an action does nothing to a frame in order. -/
theorem on_parse_of_consistent {p : Pass} (consistent : p.frame.Consistent) :
    parse.on p = (.ok (), p) := by
  refine on_edit_ok ?_
  simp [Frame.ensureParsed_of_consistent consistent]

theorem steps_keepsView (s : Setting) : Steps s keepsView where
  composes := composes_keepsView
  restore kept consistent := ⟨fun _ => consistent, (kept consistent).2⟩
  parse p consistent := by
    rw [on_parse_of_consistent consistent]
    exact composes_keepsView.halt p none consistent
  edit := keepsView_edit
  packetIn p reason origin maxLength :=
    keepsView_of_same none ((frame_packetIn s reason origin maxLength p).1 ▸ id)
      (frame_packetIn s reason origin maxLength p).2
  send _ _ _ := keepsView_of_same none id rfl
  draw _ _ := keepsView_of_same none id rfl
  countGroup _ _ _ := keepsView_of_same none id rfl
  countBucket _ _ _ _ := keepsView_of_same none id rfl
  police := keepsView_police s
  look := keepsView_look
  countFrame _ _ := keepsView_of_same none id rfl
  writeMetadata _ _ := keepsView_of_same none (Frame.updateContext_consistent _) rfl

/-! ## Actions -/

def keepsFrame : Effect := fun p _ q => q.frame = p.frame

theorem composes_keepsFrame : keepsFrame.Composes where
  halt _ _ := rfl
  trans first next := next.trans first

theorem keepsFrame_onCopy {α : Type} (x : Run α) : Obeys keepsFrame (onCopy x) :=
  fun p => by rw [on_onCopy]; rfl

theorem keepsFrame_resubmit (s : Setting) (depth : Nat) : Obeys keepsFrame (resubmit s depth) := by
  cases depth with
  | zero => exact .throw composes_keepsFrame _
  | succ depth => exact keepsFrame_onCopy _

theorem keepsFrame_output {resubmit : Run Unit} (again : Obeys keepsFrame resubmit) (s : Setting)
    (origin : Option EntryRef) (port : PortNo) (maxLength : UInt16) :
    Obeys keepsFrame (output s resubmit origin port maxLength) :=
  .output (fun p reason origin maxLength => (frame_packetIn s reason origin maxLength p).1)
    composes_keepsFrame (fun _ _ _ => rfl) again origin port maxLength

/-- Whatever the buckets do, they do it to copies. -/
theorem keepsFrame_group (s : Setting) (resubmit : Run Unit) (origin : Option EntryRef)
    (chain : Nat) (id : GroupId) :
    Obeys keepsFrame (perform s resubmit origin chain (.group id)) := by
  cases chain with
  | zero =>
    refine .bind composes_keepsFrame (.get composes_keepsFrame) fun p => ?_
    split
    · exact .throw composes_keepsFrame _
    · exact .pure composes_keepsFrame _
  | succ chain =>
    refine .bind composes_keepsFrame
      (.enterGroup composes_keepsFrame s id (fun _ _ => rfl) fun _ _ => rfl) fun places => ?_
    refine .forM composes_keepsFrame places fun place _ => ?_
    exact .bind composes_keepsFrame (.enterBucket composes_keepsFrame id place fun _ _ => rfl)
      fun actions => keepsFrame_onCopy _

section Actions

variable (s : Setting) (depth : Nat) {p q : Pass} {r : Except Halt Unit}

/-- An action that changes the frame, on a frame in order. -/
theorem change_cases {origin : Option EntryRef} {a : Action} (consistent : p.frame.Consistent)
    (ran : (change s origin a).on p = (r, q)) (spares : Spares (halt? r)) :
    q.frame.Consistent ∧ q.frame.context? = p.frame.context?.map a.context := by
  -- the report of a spent TTL leaves the frame alone
  have reported : ∃ p' : Pass, p'.frame = p.frame ∧
      (change s origin a).on p = (edit a.edit).on p' := by
    simp only [change, on_bind, on_parse_of_consistent consistent, on_get]
    split
    · refine ⟨p.packetIn s .invalidTtl origin s.config.missSendLength, (frame_packetIn ..).1, ?_⟩
      simp only [on_bind, on_modify]
    · exact ⟨p, rfl, rfl⟩
  obtain ⟨p', same, here⟩ := reported
  rw [here] at ran
  rcases a.edit_cases consistent with ⟨g, edited, kept⟩ | ⟨e, g, failed, other⟩
  · rw [← same] at edited
    rw [on_edit_ok edited, Prod.mk.injEq] at ran
    obtain ⟨rfl, rfl⟩ := ran
    exact kept
  · rw [← same] at failed
    rw [on_edit_error failed, Prod.mk.injEq] at ran
    obtain ⟨rfl, rfl⟩ := ran
    simp [halt?, Spares, other] at spares

theorem execute_cases {origin : Option EntryRef} {a : Action} (consistent : p.frame.Consistent)
    (ran : (execute s (resubmit s depth) origin a).on p = (r, q)) (spares : Spares (halt? r)) :
    q.frame.Consistent ∧ q.frame.context? = p.frame.context?.map a.context := by
  have sent (same : keepsFrame p (halt? r) q) (plain : a.context = id) :
      q.frame.Consistent ∧ q.frame.context? = p.frame.context?.map a.context := by
    rw [plain, Option.map_id, same]
    exact ⟨consistent, rfl⟩
  rw [on_execute] at ran
  cases a with
  | group id =>
    have kept := keepsFrame_group s (resubmit s depth) origin (maxChain p.tables.groups) id p
    rw [ran] at kept
    exact sent kept rfl
  | output port maxLength =>
    have kept := keepsFrame_output (keepsFrame_resubmit s depth) s origin port maxLength p
    rw [perform_output] at ran
    rw [ran] at kept
    exact sent kept rfl
  | _ =>
    rw [perform_change] at ran
    · exact change_cases s consistent ran spares
    · rfl

/-- Actions in turn, each in the name of an entry of its own. Where they stop with the packet
dropped, some of them were carried out. -/
theorem forM_execute_cases {α : Type} {origin : α → Option EntryRef} {action : α → Action}
    {l : List α} (consistent : p.frame.Consistent)
    (ran : (l.forM fun a => execute s (resubmit s depth) (origin a) (action a)).on p = (r, q))
    (spares : Spares (halt? r)) :
    ∃ done, done <+: l.map action ∧ (halt? r = none → done = l.map action) ∧
      q.frame.Consistent ∧
      q.frame.context? = p.frame.context?.map (Action.contextAfter done) := by
  induction l generalizing p with
  | nil =>
    have none : Action.contextAfter [] = id := rfl
    obtain ⟨rfl, rfl⟩ := Prod.mk.inj ran
    exact ⟨[], by simp, by simp, consistent, by rw [none, Option.map_id]; rfl⟩
  | cons a l ih =>
    rw [forM_cons] at ran
    cases first : (execute s (resubmit s depth) (origin a) (action a)).on p with
    | mk r' p' =>
      cases r' with
      | error h =>
        rw [on_bind_error first] at ran
        obtain ⟨rfl, rfl⟩ := Prod.mk.inj ran
        obtain ⟨kept, context⟩ := execute_cases s depth consistent first spares
        exact ⟨[action a], ⟨l.map action, rfl⟩, by simp [halt?], kept, context⟩
      | ok _ =>
        rw [on_bind_ok first] at ran
        obtain ⟨kept, context⟩ := execute_cases s depth consistent first (.inl rfl)
        obtain ⟨done, within, all, kept', context'⟩ := ih kept ran
        refine ⟨action a :: done, ?_, ?_, kept', ?_⟩
        · simpa using within
        · exact fun h => by rw [all h, List.map_cons]
        · rw [context', context, Option.map_map]
          rfl

end Actions

/-! ## Instructions -/

/-- From a frame in order, the frame is in order again with the same metadata, unless something
failed. -/
def keepsMetadata : Effect := fun p h q =>
  p.frame.Consistent → Spares h →
    q.frame.Consistent ∧ q.frame.context?.map (·.metadata) = p.frame.context?.map (·.metadata)

theorem composes_keepsMetadata : keepsMetadata.Composes where
  halt _ _ consistent _ := ⟨consistent, rfl⟩
  trans := by
    intro p q r h first next consistent spares
    obtain ⟨kept, same⟩ := first consistent (.inl rfl)
    obtain ⟨kept', same'⟩ := next kept spares
    exact ⟨kept', same'.trans same⟩

theorem keepsMetadata_police (id : MeterId) (now : Time) : Obeys keepsMetadata (police id now) := by
  intro p consistent spares
  rw [on_police] at spares ⊢
  rcases p.tables.meters.police_cases consistent id now with ⟨kept, context⟩ | failed
  · exact ⟨kept, by rw [context]⟩
  · simp [failed, halt?, Spares] at spares

theorem keepsMetadata_execute (s : Setting) (depth : Nat) (origin : Option EntryRef) (a : Action) :
    Obeys keepsMetadata (execute s (resubmit s depth) origin a) := by
  refine .of_on fun p r q ran consistent spares => ?_
  obtain ⟨kept, context⟩ := execute_cases s depth consistent ran spares
  have carried := Frame.carries_of_contextAfter [a] (List.Subset.refl _) kept context
  exact ⟨kept, carried.metadata⟩

theorem keepsMetadata_follow (s : Setting) (depth : Nat) {e : FlowEntry}
    (none : e.instructions.writeMetadata = none) (gathered : ActionSet) :
    Obeys keepsMetadata (follow s (resubmit s depth) e gathered) := by
  have composes := composes_keepsMetadata
  refine .bind composes (.optionForM composes _ fun id => keepsMetadata_police id _) fun _ => ?_
  refine .bind composes (.forM composes _ fun a _ => keepsMetadata_execute s depth _ a) fun _ => ?_
  refine .bind composes ?_ fun written => ?_
  · cases e.instructions.writeActions with
    | none => exact .pure composes _
    | some l => exact .lift composes _
  · rw [none]
    exact .pure composes _

end Run

namespace Switch

/-- Every frame can be read when it is taken from a device, since short ones are padded. -/
theorem exists_prepare (f : Frame) (port : Option PortNo) :
    ∃ g, prepare (arriving f) port = .ok g := by
  have readable (d : Bytes) (long : Frame.minLength ≤ d.length) :
      ∃ h, Headers.parse d = .ok h := by
    have : ParseError.required ≤ Frame.minLength := by decide
    have : 0 < Frame.minLength := by decide
    unfold Headers.parse
    rw [if_neg (by omega), if_neg (by omega)]
    exact ⟨_, rfl⟩
  have parsed : ∃ g, (arriving f).ensureParsed = .ok g := by
    unfold arriving
    split
    · have long : Frame.minLength ≤ f.pad.data.length := by
        simp only [Frame.pad, Bytes.padTo, List.length_append, List.length_replicate]
        omega
      obtain ⟨h, read⟩ := readable f.pad.data long
      exact ⟨_, by simp only [Frame.ensureParsed, Frame.forget, Frame.parsed, read]; rfl⟩
    · rename_i long
      have long : Frame.minLength ≤ f.data.length := by
        simp only [Frame.isShort, decide_eq_true_eq, Nat.not_lt] at long
        exact long
      obtain ⟨h, read⟩ := readable f.data long
      unfold Frame.ensureParsed Frame.parsed
      rw [read]
      cases f.view <;> exact ⟨_, rfl⟩
  obtain ⟨g, parsed⟩ := parsed
  unfold prepare
  rw [parsed]
  exact ⟨_, rfl⟩

/-- A received frame with no view, or with one that describes its bytes, begins its pass with
such a view. -/
theorem consistent_of_prepare {f g : Frame} {port : Option PortNo}
    (known : f.view = none ∨ f.Consistent) (prepared : prepare (arriving f) port = .ok g) :
    g.Consistent := by
  have known : (arriving f).view = none ∨ (arriving f).Consistent := by
    unfold arriving
    split
    · exact .inl rfl
    · exact known
  unfold prepare at prepared
  cases parsed : (arriving f).ensureParsed with
  | error e => simp [parsed] at prepared
  | ok read =>
    have consistent := Frame.consistent_of_ensureParsed known parsed
    simp only [parsed, Except.ok.injEq] at prepared
    subst prepared
    cases port with
    | none => exact consistent
    | some port =>
      exact Frame.updateContext_consistent ({ · with inPort := port, inPhyPort := port }) consistent

open Run

/-- The view of a frame describes its bytes through every action, list and set of actions and
meter that ends well or drops the packet. What the frame carries besides is changed by set-queue,
by a set-field of the tunnel and by write-metadata only. Hence every lookup in the pass of a
received frame is made with the match of the bytes and the context at that time. -/
theorem view_describes_bytes (s : Setting) (depth : Nat) :
    (∀ (p q : Pass) (r : Except Halt Unit) (origin : Option EntryRef) (a : Action),
      p.frame.Consistent → (execute s (resubmit s depth) origin a).on p = (r, q) →
      Spares (halt? r) → Frame.Carries [a] p.frame q.frame) ∧
    (∀ (p q : Pass) (r : Except Halt Unit) (origin : Option EntryRef) (actions : List Action),
      p.frame.Consistent →
      (actions.forM fun a => execute s (resubmit s depth) origin a).on p = (r, q) →
      Spares (halt? r) → Frame.Carries actions p.frame q.frame) ∧
    (∀ (p q : Pass) (r : Except Halt Unit) (set : ActionSet), p.frame.Consistent →
      (set.ordered.forM fun a => execute s (resubmit s depth) a.origin a.action).on p = (r, q) →
      Spares (halt? r) → Frame.Carries (set.ordered.map (·.action)) p.frame q.frame) ∧
    (∀ (t : MeterTable) (meter : MeterId) (f : Frame) (now : Time), f.Consistent →
      (t.police meter f now).1 ≠ .error .failed →
      Frame.Carries [] f (t.police meter f now).2.1) ∧
    (∀ (p q : Pass) (r : Except Halt ActionSet) (e : FlowEntry) (gathered : ActionSet),
      p.frame.Consistent → e.instructions.writeMetadata = none →
      (follow s (resubmit s depth) e gathered).on p = (r, q) → Spares (halt? r) →
      q.frame.Consistent ∧
        q.frame.context?.map (·.metadata) = p.frame.context?.map (·.metadata)) ∧
    (∀ (sw : Switch) (port : PortNo) (f g : Frame) (now : Time), f.view = none ∨ f.Consistent →
      prepare (arriving f) (some port) = .ok g →
      ∀ l ∈ ((process (sw.setting now)).on (sw.start g)).2.lookups, l.Faithful) := by
  refine ⟨?single, ?list, ?set, ?meter, ?instructions, ?lookups⟩
  case single =>
    intro p q r origin a consistent ran spares
    obtain ⟨kept, context⟩ := execute_cases s depth consistent ran spares
    exact Frame.carries_of_contextAfter [a] (List.Subset.refl _) kept context
  case list =>
    intro p q r origin actions consistent ran spares
    obtain ⟨done, within, -, kept, context⟩ :=
      @forM_execute_cases s depth p q r Action (fun _ => origin) id actions consistent ran spares
    rw [List.map_id] at within
    exact Frame.carries_of_contextAfter done within.subset kept context
  case set =>
    intro p q r set consistent ran spares
    obtain ⟨done, within, -, kept, context⟩ := forM_execute_cases s depth consistent ran spares
    exact Frame.carries_of_contextAfter done within.subset kept context
  case meter =>
    intro t meter f now consistent spared
    obtain ⟨kept, context⟩ := (t.police_cases consistent meter now).resolve_right spared
    have none : Action.contextAfter [] = id := rfl
    refine Frame.carries_of_contextAfter [] (List.Subset.refl _) kept ?_
    rw [none, Option.map_id]
    exact context
  case instructions =>
    intro p q r e gathered consistent none ran spares
    have kept := keepsMetadata_follow s depth none gathered p consistent
    rw [ran] at kept
    exact kept spares
  case lookups =>
    intro sw port f g now known prepared l inside
    have consistent := consistent_of_prepare known prepared
    obtain ⟨-, made, recorded, faithful⟩ :=
      (steps_keepsView (sw.setting now)).process (sw.start g) consistent
    have whole : ((process (sw.setting now)).on (sw.start g)).2.lookups = made := by
      simpa [start] using recorded
    exact faithful l (whole ▸ inside)

/-- A switch without entries, and a frame of zeros that it gets. -/
def idle : Switch where
  config := {}
  selection := ⟨fun _ => 0, fun _ => 0⟩
  tables := .empty 1
  notifier := { buffers := { size := 0, timeout := 0 } }

def blank : Frame := ⟨List.replicate 60 0, none⟩

/-- An IPv4 packet of the first assured forwarding class. -/
def assured : Frame :=
  ⟨List.replicate 12 2 ++ [8, 0, 0x45, 0x28, 0, 46, 0, 0, 0, 0, 64, 253, 0, 0]
    ++ List.replicate 34 10, none⟩

/-- The packet at the beginning of its pass. -/
def begun : Frame := (prepare (arriving assured) (some 1)).toOption.getD assured

theorem prepare_assured : prepare (arriving assured) (some 1) = .ok begun := by
  obtain ⟨g, prepared⟩ := exists_prepare assured (some 1)
  rw [begun, prepared]
  rfl

def tag : List Action := [.pushVlan 0x8100, .setField (Match.any.set .vlanVid (.exact 0x1005))]

def gathered : ActionSet := (ActionSet.empty.put ⟨.setQueue 7, none⟩).put ⟨.pushVlan 0x88a8, none⟩

/-- Raises the drop precedence of packets and tags them. -/
def tagger : FlowEntry where
  priority := 1
  selector := Match.any
  instructions := { meter := some 1, applyActions := some ⟨tag, by decide⟩, gotoTable := some 1 }
  createdAt := 0
  lastSeen := 0

/-- Sends packets with the tag on without it. -/
def untagger : FlowEntry where
  ref := ⟨1, 0⟩
  priority := 1
  selector := Match.any.set .vlanVid (.exact 0x1005)
  instructions := { applyActions := some ⟨[.popVlan], by decide⟩, gotoTable := some 2 }
  createdAt := 0
  lastSeen := 0

def tagging : Switch :=
  idle.run [.addMeter 1 { packets := true, burst := true } [⟨.dscpRemark, 1, 0, 1⟩] 0,
    .addFlow tagger, .addFlow untagger]

/-- Actions and sets tag a packet, a meter remarks it, and each table gets to see the bytes that the
entry before has left. -/
theorem view_describes_bytes_tagging :
    prepare (arriving assured) (some 1) = .ok begun ∧ begun.Consistent ∧
    (∃ q, (execute (tagging.setting 0) (resubmit (tagging.setting 0) 8) none
        (.pushVlan 0x8100)).on (tagging.start begun) = (.ok (), q) ∧
      q.frame.data.length = 64 ∧ Frame.Carries [.pushVlan 0x8100] begun q.frame) ∧
    (∃ q, (tag.forM fun a => execute (tagging.setting 0) (resubmit (tagging.setting 0) 8) none
        a).on (tagging.start begun) = (.ok (), q) ∧
      q.frame.data.extract 12 16 = [0x81, 0, 0, 5] ∧ Frame.Carries tag begun q.frame) ∧
    (∃ q, (gathered.ordered.forM fun a => execute (tagging.setting 0)
        (resubmit (tagging.setting 0) 8) a.origin a.action).on (tagging.start begun) = (.ok (), q) ∧
      q.frame.data.length = 64 ∧ Frame.Carries [.pushVlan 0x88a8, .setQueue 7] begun q.frame) ∧
    ((tagging.tables.meters.police 1 begun 0).2.1.dscp = begun.dscp + 1 ∧
      Frame.Carries [] begun (tagging.tables.meters.police 1 begun 0).2.1) ∧
    (∃ set q, (follow (tagging.setting 0) (resubmit (tagging.setting 0) 8) tagger .empty).on
        (tagging.start begun) = (.ok set, q) ∧
      q.frame.Consistent ∧ q.frame.context?.map (·.metadata) = begun.context?.map (·.metadata)) ∧
    (((process (tagging.setting 0)).on (tagging.start begun)).2.lookups.map fun l =>
        (l.table, l.frame.data.length)) = [(0, 60), (1, 64), (2, 60)] ∧
    ∀ l ∈ ((process (tagging.setting 0)).on (tagging.start begun)).2.lookups, l.Faithful := by
  obtain ⟨single, list, set, meter, instructions, lookups⟩ :=
    view_describes_bytes (tagging.setting 0) 8
  have known : assured.view = none ∨ assured.Consistent := .inl rfl
  have consistent := consistent_of_prepare known prepare_assured
  refine ⟨prepare_assured, consistent, ?single, ?list, ?set, ?meter, ?instructions,
    by decide +kernel, lookups tagging 1 assured begun 0 known prepare_assured⟩
  case single =>
    obtain ⟨⟨⟩, ran⟩ := exists_ok_of_halt? (x := execute (tagging.setting 0)
      (resubmit (tagging.setting 0) 8) none (.pushVlan 0x8100)) (p := tagging.start begun)
      (by decide +kernel)
    have carried := single (tagging.start begun) _ _ none _ consistent ran (.inl rfl)
    exact ⟨_, ran, by decide +kernel, carried⟩
  case list =>
    obtain ⟨⟨⟩, ran⟩ := exists_ok_of_halt? (x := tag.forM fun a => execute (tagging.setting 0)
      (resubmit (tagging.setting 0) 8) none a) (p := tagging.start begun) (by decide +kernel)
    have carried := list (tagging.start begun) _ _ none tag consistent ran (.inl rfl)
    exact ⟨_, ran, by decide +kernel, carried⟩
  case set =>
    obtain ⟨⟨⟩, ran⟩ := exists_ok_of_halt? (x := gathered.ordered.forM fun a =>
      execute (tagging.setting 0) (resubmit (tagging.setting 0) 8) a.origin a.action)
      (p := tagging.start begun) (by decide +kernel)
    have carried := set (tagging.start begun) _ _ gathered consistent ran (.inl rfl)
    exact ⟨_, ran, by decide +kernel, carried⟩
  case meter =>
    refine ⟨by decide +kernel, meter _ _ _ _ consistent fun failed => ?_⟩
    have passed : (tagging.tables.meters.police 1 begun 0).1.toOption = some () := by
      decide +kernel
    rw [failed] at passed
    cases passed
  case instructions =>
    obtain ⟨set, ran⟩ := exists_ok_of_halt? (x := follow (tagging.setting 0)
      (resubmit (tagging.setting 0) 8) tagger .empty) (p := tagging.start begun) (by decide +kernel)
    have kept := instructions (tagging.start begun) _ _ tagger .empty consistent rfl ran (.inl rfl)
    exact ⟨set, _, ran, kept⟩

end Switch

end FlowSwitch
