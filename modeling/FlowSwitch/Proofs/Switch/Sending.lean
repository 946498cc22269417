import FlowSwitch.Proofs.Forward.Abreast
import FlowSwitch.Proofs.Forward.Settled
import FlowSwitch.Proofs.Forward.View
import FlowSwitch.Proofs.Port.Sending
import FlowSwitch.Proofs.Switch.References
import FlowSwitch.Proofs.Tables.Installed

/-!
# What a received frame sends

However actions, groups, tables and walks are nested, a pass knows by which port its
frame came in. So what it hands to devices is long enough, goes to open ports, and goes
back to that port only where it is sent to the number that asks for that. The record of a
pass tells to which number each frame was sent.
-/

namespace FlowSwitch

/-- What devices may be handed over some tables and ports, while a frame that came in by `source`
is processed. -/
structure Handout.Allowed (t : Tables) (ports : PortTable) (source : PortNo) (h : Handout) :
    Prop where
  long : 60 ≤ h.data.length
  gate : ∃ p, ports.get? h.port = some p ∧ p.config.down = false ∧ p.config.noForward = false
  apart : h.port = source → h.target = PortNo.inPort
  installed : t.OutputsTo h.target

namespace Run

/-- The tables keep all but their counters, no device is handed anything, and the frame, if it was
in order, is so again and came in where it did. -/
structure Quiet (p : Pass) (h : Option Halt) (q : Pass) : Prop where
  settled : q.tables.settled = p.tables.settled
  ports : q.ports = p.ports
  handouts : q.handouts = p.handouts
  frame : p.frame.Consistent → h = none →
    q.frame.Consistent ∧ q.frame.context?.map (·.inPort) = p.frame.context?.map (·.inPort)

theorem quiet_of_same {p q : Pass} (h : Option Halt)
    (settled : q.tables.settled = p.tables.settled) (ports : q.ports = p.ports)
    (handouts : q.handouts = p.handouts) (frame : q.frame = p.frame) : Quiet p h q :=
  ⟨settled, ports, handouts, fun consistent _ => ⟨frame ▸ consistent, by rw [frame]⟩⟩

theorem composes_quiet : Effect.Composes Quiet where
  halt _ h := quiet_of_same h rfl rfl rfl rfl
  trans first next := by
    refine ⟨next.settled.trans first.settled, next.ports.trans first.ports,
      next.handouts.trans first.handouts, ?_⟩
    intro consistent ended
    obtain ⟨kept, origin⟩ := first.frame consistent rfl
    obtain ⟨kept', origin'⟩ := next.frame kept ended
    exact ⟨kept', origin'.trans origin⟩

/-- No device is handed anything. -/
def keepsPorts : Effect := fun p _ q => q.ports = p.ports ∧ q.handouts = p.handouts

theorem composes_keepsPorts : keepsPorts.Composes where
  halt _ _ := ⟨rfl, rfl⟩
  trans first next := ⟨next.1.trans first.1, next.2.trans first.2⟩

theorem keepsPorts_packetIn (s : Setting) (p : Pass) (reason : PacketInReason)
    (origin : Option EntryRef) (maxLength : UInt16) :
    keepsPorts p none (p.packetIn s reason origin maxLength) := by
  obtain ⟨meters, requests, same⟩ := exists_packetIn s reason origin maxLength p
  rw [same]
  exact ⟨rfl, rfl⟩

theorem keepsPorts_toController (s : Setting) (origin : Option EntryRef) (maxLength : UInt16) :
    Obeys keepsPorts (modify fun p => p.toController s origin maxLength) :=
  .toController (keepsPorts_packetIn s) composes_keepsPorts origin maxLength

theorem keepsPorts_change (s : Setting) (origin : Option EntryRef) (a : Action) :
    Obeys keepsPorts (change s origin a) := by
  have edits (f : Frame → Except SwitchError Unit × Frame) : Obeys keepsPorts (edit f) :=
    fun p => by rw [on_edit]; exact ⟨rfl, rfl⟩
  exact .change (keepsPorts_packetIn s) composes_keepsPorts (edits _) (fun a => edits a.edit)
    origin a

/-- Apart from groups and from walks begun anew, an action hands frames only to the devices behind
the number that it outputs to, and they are recorded under that number. -/
theorem handouts_perform (s : Setting) (again : Run Unit) (origin : Option EntryRef) (chain : Nat)
    (a : Action) (p : Pass) (group : ∀ id, a ≠ .group id)
    (table : ∀ maxLength, a ≠ .output PortNo.table maxLength) :
    ∃ made, ((perform s again origin chain a).on p).2.handouts = p.handouts ++ made ∧
      ∀ h ∈ made, ∃ maxLength, a = .output h.target maxLength := by
  have quiet {x : Run Unit} (kept : Obeys keepsPorts x) :
      ∃ made, (x.on p).2.handouts = p.handouts ++ made ∧
        ∀ h ∈ made, ∃ maxLength, a = .output h.target maxLength :=
    ⟨[], by rw [(kept p).2, List.append_nil], by simp⟩
  cases a with
  | group id => exact absurd rfl (group id)
  | output port maxLength =>
    rw [perform_output, output]
    split
    · exact quiet (keepsPorts_toController s origin maxLength)
    · split
      · rename_i is
        exact absurd (by rw [is]) (table maxLength)
      · rw [on_sendOut]
        cases p.ports.send port p.frame with
        | error e => exact ⟨[], by simp, by simp⟩
        | ok ports =>
          refine ⟨_, rfl, fun h inside => ⟨maxLength, ?_⟩⟩
          rw [PortTable.target_of_mem_handouts inside]
  | _ =>
    rw [perform_change]
    · exact quiet (keepsPorts_change s origin _)
    · rfl

section Parts

variable (s : Setting)

theorem quiet_packetIn (reason : PacketInReason) (origin : Option EntryRef) (maxLength : UInt16)
    (p : Pass) : Quiet p none (p.packetIn s reason origin maxLength) :=
  quiet_of_same none ((steps_keepsSettled s).packetIn p reason origin maxLength)
    (keepsPorts_packetIn s p reason origin maxLength).1
    (keepsPorts_packetIn s p reason origin maxLength).2
    (frame_packetIn s reason origin maxLength p).1

theorem quiet_toController (origin : Option EntryRef) (maxLength : UInt16) :
    Obeys Quiet (modify fun p => p.toController s origin maxLength) :=
  .toController (fun p reason origin maxLength => quiet_packetIn s reason origin maxLength p)
    composes_quiet origin maxLength

theorem quiet_change (origin : Option EntryRef) (a : Action) : Obeys Quiet (change s origin a) := by
  refine .of_on fun p r q ran => ?_
  have settled := (steps_keepsSettled s).change origin a p
  have ports := keepsPorts_change s origin a p
  rw [ran] at settled ports
  refine ⟨settled, ports.1, ports.2, ?_⟩
  · intro consistent ended
    obtain ⟨kept, context⟩ := change_cases s consistent ran (.inl ended)
    have carried := Frame.carries_of_contextAfter [a] (List.Subset.refl _) kept context
    exact ⟨kept, carried.inPort⟩

theorem quiet_enterGroup (id : GroupId) : Obeys Quiet (enterGroup s id) :=
  .enterGroup composes_quiet s id
    (fun p length => quiet_of_same none ((steps_keepsSettled s).countGroup p id length) rfl rfl rfl)
    fun _ _ => quiet_of_same none rfl rfl rfl rfl

include s in
theorem quiet_enterBucket (id : GroupId) (place : Nat) : Obeys Quiet (enterBucket id place) :=
  .enterBucket composes_quiet id place fun p length =>
    quiet_of_same none ((steps_keepsSettled s).countBucket p id place length) rfl rfl rfl

theorem quiet_police (id : MeterId) : Obeys Quiet (police id s.now) := by
  intro p
  refine ⟨(steps_keepsSettled s).police id p, by rw [on_police], by rw [on_police],
    fun consistent ended => ?_⟩
  rw [on_police] at ended ⊢
  rcases p.tables.meters.police_cases consistent id s.now with ⟨kept, context⟩ | failed
  · exact ⟨kept, by rw [context]⟩
  · simp [failed, halt?] at ended

theorem quiet_look (table : TableId) : Obeys Quiet (look table) := by
  intro p
  rw [on_look]
  cases p.frame.view with
  | none => exact composes_quiet.halt p _
  | some v => exact quiet_of_same none (p.tables.settled_classify table _) rfl rfl rfl

theorem quiet_countFrame (e : FlowEntry) : Obeys Quiet (countFrame s e) :=
  fun p => quiet_of_same none ((steps_keepsSettled s).countFrame e p) rfl rfl rfl

theorem quiet_writeMetadata (f : UInt64 → UInt64) :
    Obeys Quiet (changeContext fun c => { c with metadata := f c.metadata }) := by
  refine fun p => ⟨rfl, rfl, rfl, fun consistent _ =>
    ⟨Frame.updateContext_consistent _ consistent, ?_⟩⟩
  show (p.frame.updateContext _).context?.map _ = _
  rw [Frame.context?_updateContext, Option.map_map]
  rfl

end Parts

/-- What a pass to the ports `before` has handed out, for a frame that came in by `source`: the
record is complete, and all of it is allowed. -/
structure HandsOut (t : Tables) (source : PortNo) (before : PortTable) (p : Pass) : Prop where
  handed : before.Handed p.handouts p.ports
  allowed : ∀ h ∈ p.handouts, h.Allowed t before source

/-- Such a pass that still goes on: the frame is in order and says where it came from. -/
structure Gated (t : Tables) (source : PortNo) (before : PortTable) (p : Pass) : Prop
    extends HandsOut t source before p where
  settled : p.tables.settled = t.settled
  consistent : p.frame.Consistent
  origin : p.frame.context?.map (·.inPort) = some source

section Gates

variable (t : Tables) (source : PortNo) (before : PortTable)

/-- A pass that is gated while it goes on, and that handed out what is allowed when it ends. -/
abbrev gates : Bond := .alone (Gated t source before) fun _ => HandsOut t source before

/-- Every output is one that is installed. -/
abbrev Installs (m n : Nat) (a : Action) : Prop :=
  m = n ∧ ∀ port maxLength, a = .output port maxLength → t.OutputsTo port

variable {t source before}

theorem HandsOut.quiet {p q : Pass} {h : Option Halt} (made : HandsOut t source before p)
    (quiet : Quiet p h q) : HandsOut t source before q where
  handed := by
    rw [quiet.handouts, quiet.ports]
    exact made.handed
  allowed := by
    rw [quiet.handouts]
    exact made.allowed

theorem Gated.quiet {p q : Pass} (gated : Gated t source before p) (quiet : Quiet p none q) :
    Gated t source before q := by
  obtain ⟨consistent, origin⟩ := quiet.frame gated.consistent rfl
  exact {
    toHandsOut := gated.toHandsOut.quiet quiet
    settled := quiet.settled.trans gated.settled
    consistent
    origin := origin.trans gated.origin }

/-- A pass that sends the frame to a number that some entry or bucket outputs to. -/
theorem Gated.send {p : Pass} {port : PortNo} {ports : PortTable}
    (gated : Gated t source before p) (installed : t.OutputsTo port)
    (sent : p.ports.send port p.frame = .ok ports) :
    Gated t source before
      { p with ports, handouts := p.handouts ++ p.ports.handouts port p.frame } := by
  refine { gated with handed := gated.handed.trans (PortTable.handed_send sent), allowed := ?_ }
  intro h inside
  rcases List.mem_append.mp inside with early | late
  · exact gated.allowed h early
  · obtain ⟨long, open_, apart⟩ := PortTable.of_mem_handouts gated.origin late
    rw [gated.handed.forwards] at open_
    exact {
      long
      gate := PortTable.exists_of_forwards open_
      apart
      installed := PortTable.target_of_mem_handouts late ▸ installed }

theorem keeps_of_quiet {α : Type} {x : Run α} {answers : α → Prop} (quiet : Obeys Quiet x)
    (answer : ∀ p a q, Gated t source before p → x.on p = (.ok a, q) → answers a) :
    (gates t source before).Keeps x x answers := by
  refine Bond.keeps_alone (fun p a q gated ran => ?_) fun p h q gated ran => ?_
  · have kept := quiet p
    rw [ran] at kept
    exact ⟨answer p a q gated ran, gated.quiet kept⟩
  · have kept := quiet p
    rw [ran] at kept
    exact gated.toHandsOut.quiet kept

theorem keeps_sendOut {port : PortNo} (installed : t.OutputsTo port) :
    (gates t source before).Keeps (sendOut port) (sendOut port) := by
  refine Bond.keeps_alone (fun p a q gated ran => ⟨trivial, ?_⟩) fun p h q gated ran => ?_
  · rw [on_sendOut] at ran
    cases sent : p.ports.send port p.frame with
    | error e =>
      rw [sent] at ran
      cases ran
    | ok ports =>
      rw [sent] at ran
      obtain ⟨-, rfl⟩ := Prod.mk.inj ran
      exact gated.send installed sent
  · rw [on_sendOut] at ran
    cases sent : p.ports.send port p.frame with
    | error e =>
      rw [sent] at ran
      obtain ⟨-, rfl⟩ := Prod.mk.inj ran
      exact gated.toHandsOut
    | ok ports =>
      rw [sent] at ran
      cases ran

theorem installs_of_mem_bucketLists {id : GroupId} {l : ActionList} (inside : l ∈ t.bucketLists id)
    {a : Action} (among : a ∈ l.actions) (n : Nat) : Installs t n n a := by
  refine ⟨rfl, ?_⟩
  rintro port maxLength rfl
  exact .inr ⟨id, l, inside, ActionList.outputsTo_of_mem among⟩

theorem admits_of_mem_entries {e : FlowEntry} (inside : e ∈ t.entries) :
    (gates t source before).Admits (Installs t) e := by
  rintro l among a within p _ ⟨rfl, -⟩
  refine ⟨rfl, ?_⟩
  rintro port maxLength rfl
  have here : e.instructions.outputsTo port = true :=
    List.any_eq_true.mpr ⟨l, among, ActionList.outputsTo_of_mem within⟩
  exact .inl ⟨e, inside, here⟩

theorem lockstep_gates (s : Setting) :
    Lockstep .idle s (gates t source before) (Installs t)
      fun _ e => ∃ e₀ ∈ t.entries, e₀.instructions = e.instructions where
  heed _ _ := rfl
  refuse := by
    rintro p _ ⟨rfl, gated⟩
    exact ⟨rfl, rfl, gated.toHandsOut⟩
  restore := by
    rintro p _ p' _ ⟨rfl, gated⟩ ⟨rfl, after⟩
    exact ⟨rfl, { after with consistent := gated.consistent, origin := gated.origin }⟩
  restoreEnd := by
    rintro p _ h _ p' _ ⟨rfl, -⟩ ⟨rfl, rfl, made⟩
    exact ⟨rfl, rfl, made.handed, made.allowed⟩
  plain := by
    rintro a sends p _ ⟨rfl, -⟩
    refine ⟨rfl, ?_⟩
    rintro port maxLength rfl
    cases sends
  change origin a _ := keeps_of_quiet (quiet_change s origin a) fun _ _ _ _ _ => trivial
  toController origin maxLength :=
    keeps_of_quiet (quiet_toController s origin maxLength) fun _ _ _ _ _ => trivial
  send allowed := keeps_sendOut (allowed.2 _ _ rfl)
  enterGroup id := keeps_of_quiet (quiet_enterGroup s id) fun _ _ _ _ _ => trivial
  enterBucket {m n id} place allowed := by
    obtain rfl : m = n := Nat.succ.inj allowed.1
    refine keeps_of_quiet (quiet_enterBucket s id place) fun p actions q gated ran a inside => ?_
    obtain ⟨l, there, among⟩ := mem_of_enterBucket ran inside
    rw [Tables.bucketLists_of_settled gated.settled] at there
    exact installs_of_mem_bucketLists there among m
  endless allowed := Bond.alone_endless (fun _ gated => gated.toHandsOut) allowed.1
  look table := by
    refine keeps_of_quiet (quiet_look table) fun p hit q gated ran e here => ?_
    subst here
    exact exists_mem_entries_of_look gated.settled ran
  admits := by
    rintro table e ⟨e₀, among, same⟩
    have admits := @admits_of_mem_entries t source before e₀ among
    unfold Bond.Admits at admits ⊢
    rwa [same] at admits
  countFrame e := keeps_of_quiet (quiet_countFrame s e) fun _ _ _ _ _ => trivial
  police _ _ := keeps_of_quiet (quiet_police s _) fun _ _ _ _ _ => trivial
  writeMetadata f := keeps_of_quiet (quiet_writeMetadata f) fun _ _ _ _ _ => trivial

end Gates

end Run

namespace Switch

open Run

variable {sw : Switch} {port : PortNo} {f g : Frame}

theorem origin_of_prepare (prepared : prepare f (some port) = .ok g) (consistent : g.Consistent) :
    g.context?.map (·.inPort) = some port := by
  unfold prepare at prepared
  cases parsed : f.ensureParsed with
  | error e => simp [parsed] at prepared
  | ok f' =>
    simp only [parsed, Option.elim_some, Except.ok.injEq] at prepared
    subst prepared
    obtain ⟨h, c, view, -⟩ := consistent.view
    have held : (f'.updateContext ({ · with inPort := port, inPhyPort := port })).context?
        = some c := by simp [Frame.context?, view]
    rw [Frame.context?_updateContext] at held ⊢
    obtain ⟨c', there, -⟩ := Option.map_eq_some_iff.mp held
    simp [there]

/-- What devices are handed while a received frame is processed, oldest first. -/
def handouts (sw : Switch) (port : PortNo) (f : Frame) (now : Time) (busy : Bool := false) :
    List Handout :=
  if !sw.ports.accepts port || busy then []
  else
    match prepare (arriving f) (some port) with
    | .error _ => []
    | .ok g => ((process (sw.setting now)).on (sw.start g)).2.handouts

/-- The devices are handed what is allowed, however the pass of a frame ends. -/
theorem handsOut_process (sw : Switch) (now : Time) (consistent : g.Consistent)
    (origin : g.context?.map (·.inPort) = some port) :
    HandsOut sw.tables port sw.ports ((process (sw.setting now)).on (sw.start g)).2 := by
  have begun : Gated sw.tables port sw.ports (sw.start g) := {
    handed := PortTable.handed_nil _
    allowed := by simp [start]
    settled := rfl
    consistent
    origin }
  have steps := @lockstep_gates sw.tables port sw.ports (sw.setting now)
  have kept := steps.process (sw.start g) (sw.start g) ⟨rfl, begun⟩
  generalize (process (sw.setting now)).on (sw.start g) = done at kept
  cases kept with
  | ok _ here => exact here.2.toHandsOut
  | error here => exact here.2.2

theorem handed_receive (sw : Switch) (port : PortNo) (f : Frame) (now : Time) (busy : Bool)
    (known : f.view = none ∨ f.Consistent) :
    sw.ports.Handed (sw.handouts port f now busy) (sw.receive port f now busy).2.ports ∧
      ∀ h ∈ sw.handouts port f now busy, h.Allowed sw.tables sw.ports port := by
  have none : sw.ports.Handed [] sw.ports ∧
      ∀ h ∈ ([] : List Handout), h.Allowed sw.tables sw.ports port :=
    ⟨PortTable.handed_nil _, by simp⟩
  unfold handouts receive
  cases sw.ports.accepts port with
  | false => exact none
  | true =>
    unfold handle
    cases prepared : prepare (arriving f) (some port) with
    | error e => cases busy <;> exact none
    | ok g =>
      cases busy with
      | true => exact none
      | false =>
        have consistent := consistent_of_prepare known prepared
        have made := sw.handsOut_process now consistent (origin_of_prepare prepared consistent)
        exact ⟨made.handed, made.allowed⟩

/-- Outputs record what they hand to devices under the number that they name, and the record of a
received frame tells all that its processing does to the ports. It holds frames of at least 60
bytes, handed to ports that are up and forward, and back to the port that the frame came in by only
where an output named `PortNo.inPort`. Without such an output that port stays as it is. A port that
is not there, is down or does not receive leaves the whole switch as it is. -/
theorem receive_sends (sw : Switch) (port : PortNo) (f : Frame) (now : Time) (busy : Bool)
    (known : f.view = none ∨ f.Consistent) :
    (∀ s again origin chain a p, (∀ id, a ≠ .group id) →
      (∀ maxLength, a ≠ .output PortNo.table maxLength) →
        ∃ made, ((perform s again origin chain a).on p).2.handouts = p.handouts ++ made ∧
          ∀ h ∈ made, ∃ maxLength, a = .output h.target maxLength) ∧
      sw.ports.Handed (sw.handouts port f now busy) (sw.receive port f now busy).2.ports ∧
      (∀ h ∈ sw.handouts port f now busy, h.Allowed sw.tables sw.ports port) ∧
      (¬ sw.tables.OutputsTo PortNo.inPort →
        (∀ h ∈ sw.handouts port f now busy, h.port ≠ port) ∧
          (sw.receive port f now busy).2.ports.get? port = sw.ports.get? port) ∧
      ((∀ p, sw.ports.get? port = some p → p.config.down = true ∨ p.config.noReceive = true) →
        sw.receive port f now busy = (.ok (), sw) ∧ sw.handouts port f now busy = []) := by
  obtain ⟨handed, allowed⟩ := sw.handed_receive port f now busy known
  refine ⟨handouts_perform, handed, allowed, fun none => ?_, fun closed => ?_⟩
  · have apart (h : Handout) (inside : h ∈ sw.handouts port f now busy) : h.port ≠ port := by
      intro back
      have fine := allowed h inside
      exact none (fine.apart back ▸ fine.installed)
    exact ⟨apart, handed.get?_of_forall_ne apart⟩
  · have refused : sw.ports.accepts port = false := by
      unfold PortTable.accepts
      cases there : sw.ports.get? port with
      | none => rfl
      | some p => rcases closed p there with h | h <;> simp [SwitchPort.receives, h]
    exact ⟨by simp [receive, refused], by simp [handouts, refused]⟩

/-- A switch with some ports, after some commands. -/
def wired (ports : List PortNo) (cs : List Command) : Switch :=
  idle.run (ports.map (.addPort · { name := "wire", address := 0 } 0) ++ cs)

/-- A switch of two ports that floods every frame. -/
def flooding : Switch :=
  wired [1, 2] [.addFlow { groupEntry 0 0 with
    instructions.applyActions := some ⟨[.output PortNo.flood 0], by decide⟩ }]

/-- A switch that floods every frame, and sends it back by a group. Its third port drops what is
forwarded to it. -/
def reflecting : Switch :=
  wired [1, 2, 3] [.configurePort 3 0x20 0x20,
    .addGroup 1 .indirect [{ actions := ⟨[.output PortNo.inPort 0], by decide⟩ }] 0,
    .addFlow { groupEntry 0 0 with
      instructions.applyActions := some ⟨[.output PortNo.flood 0, .group 1], by decide⟩ }]

theorem not_outputsTo_flooding : ¬ flooding.tables.OutputsTo PortNo.inPort := by
  have entries : ∀ e ∈ flooding.tables.entries, e.instructions.outputsTo PortNo.inPort = false := by
    decide +kernel
  have groups : flooding.tables.groups.entries = [] := by decide +kernel
  rintro (⟨e, inside, out⟩ | ⟨id, l, inside, -⟩)
  · simp [entries e inside] at out
  · simp [Tables.bucketLists, Registry.get?, groups] at inside

/-- The flooded copy does not go back, the one that the group sends does. -/
theorem receive_sends_reflecting :
    (blank.view = none ∨ blank.Consistent) ∧
      (∃ made, ((perform (flooding.setting 0) (refuse .failed) none 0
          (.output PortNo.flood 0)).on (flooding.start blank)).2.handouts = [] ++ made ∧
        ∀ h ∈ made, ∃ maxLength, Action.output PortNo.flood 0 = .output h.target maxLength) ∧
      reflecting.handouts 1 blank 0
        = [⟨PortNo.flood, 2, blank.data⟩, ⟨PortNo.inPort, 1, blank.data⟩] ∧
      reflecting.ports.Handed (reflecting.handouts 1 blank 0)
        (reflecting.receive 1 blank 0).2.ports ∧
      (∀ h ∈ reflecting.handouts 1 blank 0, h.Allowed reflecting.tables reflecting.ports 1) ∧
      ¬ flooding.tables.OutputsTo PortNo.inPort ∧
      (flooding.handouts 1 blank 0).map (·.port) = [2] ∧
      (flooding.receive 1 blank 0).2.ports.get? 1 = flooding.ports.get? 1 ∧
      reflecting.receive 4 blank 0 = (.ok (), reflecting) := by
  have known : blank.view = none ∨ blank.Consistent := .inl rfl
  obtain ⟨named, handed, allowed, -⟩ := receive_sends reflecting 1 blank 0 false known
  obtain ⟨-, -, -, spared, -⟩ := receive_sends flooding 1 blank 0 false known
  obtain ⟨-, -, -, -, ignored⟩ := receive_sends reflecting 4 blank 0 false known
  have absent : reflecting.ports.get? 4 = none := by decide +kernel
  refine ⟨known, ?_, by decide +kernel, handed, allowed, not_outputsTo_flooding, by decide +kernel,
    (spared not_outputsTo_flooding).2, (ignored (by simp [absent])).1⟩
  exact named (flooding.setting 0) (refuse .failed) none 0 (.output PortNo.flood 0)
    (flooding.start blank) (by simp) fun _ same => absurd (Action.output.inj same).1 (by decide)

end Switch

end FlowSwitch
