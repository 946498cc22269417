import FlowSwitch.Forward.Execute

/-!
# Views that describe the bytes

An edit that succeeds on a frame whose view holds the headers of its bytes leaves such a
frame, since the headers are read again after every change of the bytes. What is known
besides the bytes stays, apart from the queue and the tunnel, which have actions of
their own.
-/

namespace FlowSwitch

namespace Frame

theorem Consistent.view {f : Frame} (consistent : f.Consistent) :
    ∃ h c, f.view = some ⟨h, c⟩ ∧ Headers.parse f.data = .ok h := by
  obtain ⟨h, held, read⟩ := consistent
  obtain ⟨v, view, rfl⟩ := Option.map_eq_some_iff.mp held
  exact ⟨v.headers, v.context, view, read⟩

theorem consistent_mk {d : Bytes} {h : Headers} (c : PacketContext)
    (read : Headers.parse d = .ok h) : Consistent ⟨d, some ⟨h, c⟩⟩ := ⟨h, rfl, read⟩

theorem ensureParsed_of_consistent {f : Frame} (consistent : f.Consistent) :
    f.ensureParsed = .ok f := by
  obtain ⟨h, c, view, -⟩ := consistent.view
  simp [ensureParsed, view]

theorem consistent_of_ensureParsed {f g : Frame} (known : f.view = none ∨ f.Consistent)
    (parsed : f.ensureParsed = .ok g) : g.Consistent := by
  rcases known with none | consistent
  · simp only [ensureParsed, none, Frame.parsed] at parsed
    cases read : Headers.parse f.data with
    | error e => simp [read, Except.map] at parsed
    | ok h =>
      simp only [read, Except.map, Except.ok.injEq] at parsed
      exact parsed ▸ consistent_mk {} read
  · rw [ensureParsed_of_consistent consistent] at parsed
    exact Except.ok.inj parsed ▸ consistent

theorem updateContext_consistent {f : Frame} (change : PacketContext → PacketContext)
    (consistent : f.Consistent) : (f.updateContext change).Consistent := by
  obtain ⟨h, c, view, read⟩ := consistent.view
  exact ⟨h, by simp [updateContext, headers?, view], read⟩

theorem context?_updateContext (f : Frame) (change : PacketContext → PacketContext) :
    (f.updateContext change).context? = f.context?.map change := by
  simp [updateContext, context?, Function.comp_def]

/-- An edit keeps the context and leaves a view of the new bytes, or it fails. -/
theorem edit_cases {f : Frame} (consistent : f.Consistent)
    (change : Headers → Bytes → Except SpliceError (Option Bytes)) :
    (∃ g, f.edit change = (.ok (), g) ∧ g.Consistent ∧ g.context? = f.context?) ∨
      ∃ g, f.edit change = (.error .failed, g) := by
  obtain ⟨h, c, view, read⟩ := consistent.view
  have held : f.headers? = some h := by simp [headers?, view]
  simp only [edit, ensureParsed_of_consistent consistent, held]
  cases change h f.data with
  | error e => exact .inr ⟨f, rfl⟩
  | ok changed =>
    cases changed with
    | none => exact .inl ⟨f, rfl, consistent, rfl⟩
    | some d =>
      cases again : Headers.parse d with
      | error e => exact .inr ⟨_, by simp only [reparse, again]; rfl⟩
      | ok h' =>
        refine .inl ⟨⟨d, some ⟨h', c⟩⟩, ?_, consistent_mk c again, ?_⟩
        · simp [reparse, again, view]
        · simp [context?, view]

theorem alter_cases {f : Frame} (consistent : f.Consistent) (change : Headers → Bytes → Bytes) :
    (∃ g, f.alter change = (.ok (), g) ∧ g.Consistent ∧ g.context? = f.context?) ∨
      ∃ g, f.alter change = (.error .failed, g) :=
  edit_cases consistent _

/-- A frame that can be read can still be read when bytes of it change. -/
theorem parse_of_length {d d' : Bytes} {h : Headers} (read : Headers.parse d = .ok h)
    (length : d'.length = d.length) : ∃ h', Headers.parse d' = .ok h' := by
  unfold Headers.parse at read ⊢
  rw [length]
  split at read
  · cases read
  · rename_i filled
    rw [if_neg filled]
    split at read
    · cases read
    · rename_i long
      rw [if_neg long]
      exact ⟨_, rfl⟩

/-- A change that keeps the length succeeds and leaves a view of the new bytes. -/
theorem alter_data {f : Frame} {h : Headers} (held : f.headers? = some h)
    (read : Headers.parse f.data = .ok h) (change : Headers → Bytes → Bytes)
    (length : (change h f.data).length = f.data.length) :
    ∃ g, f.alter change = (.ok (), g) ∧ g.data = change h f.data ∧ g.Consistent ∧
      g.context? = f.context? := by
  have consistent : f.Consistent := ⟨h, held, read⟩
  obtain ⟨h', again⟩ := parse_of_length read length
  obtain ⟨h₀, c, view, -⟩ := consistent.view
  have same : h₀ = h := by simpa [headers?, view] using held
  refine ⟨⟨change h f.data, some ⟨h', c⟩⟩, ?_, rfl, consistent_mk c again, ?_⟩
  · simp [alter, edit, ensureParsed_of_consistent consistent, held, reparse, again, view]
  · simp [context?, view]

theorem setFields_cases {f : Frame} (consistent : f.Consistent) (fields : Match) :
    (∃ g, f.setFields fields = (.ok (), g) ∧ g.Consistent ∧
      g.context? = f.context?.map fun c =>
        if (fields.get .tunnelId).valid then { c with tunnelId := ⟨(fields.get .tunnelId).value⟩ }
        else c) ∨
      ∃ g, f.setFields fields = (.error .failed, g) := by
  rcases alter_cases consistent fun h d => FieldWrite.setFields h fields d with
    ⟨g, altered, consistent, kept⟩ | ⟨g, failed⟩
  · simp only [setFields, altered]
    cases tunnel : (fields.get .tunnelId).valid with
    | false => exact .inl ⟨g, by simp, consistent, by simp [kept]⟩
    | true =>
      refine .inl ⟨_, by simp [Except.isOk, Except.toBool]; rfl,
        updateContext_consistent _ consistent, ?_⟩
      simp [context?_updateContext, kept]
  · simp only [setFields, failed]
    exact .inr ⟨g, by simp [Except.isOk, Except.toBool]⟩

end Frame

namespace Action

/-- What an action does to what is known about a packet besides its bytes. -/
def context (a : Action) (c : PacketContext) : PacketContext :=
  match a with
  | setQueue queueId => { c with queueId }
  | setField fields =>
    if (fields.get .tunnelId).valid then { c with tunnelId := ⟨(fields.get .tunnelId).value⟩ }
    else c
  | _ => c

/-- What actions in turn do to what is known about a packet besides its bytes. -/
def contextAfter (actions : List Action) (c : PacketContext) : PacketContext :=
  actions.foldl (fun c a => a.context c) c

theorem contextAfter_inPort (actions : List Action) (c : PacketContext) :
    (contextAfter actions c).inPort = c.inPort ∧
      (contextAfter actions c).inPhyPort = c.inPhyPort ∧
      (contextAfter actions c).metadata = c.metadata := by
  induction actions generalizing c with
  | nil => exact ⟨rfl, rfl, rfl⟩
  | cons a actions ih =>
    have one : (a.context c).inPort = c.inPort ∧ (a.context c).inPhyPort = c.inPhyPort ∧
        (a.context c).metadata = c.metadata := by
      unfold context
      split
      · exact ⟨rfl, rfl, rfl⟩
      · split <;> exact ⟨rfl, rfl, rfl⟩
      · exact ⟨rfl, rfl, rfl⟩
    have rest := ih (a.context c)
    rw [one.1, one.2.1, one.2.2] at rest
    exact rest

theorem contextAfter_queueId {actions : List Action} (none : ∀ q, setQueue q ∉ actions)
    (c : PacketContext) : (contextAfter actions c).queueId = c.queueId := by
  induction actions generalizing c with
  | nil => rfl
  | cons a actions ih =>
    have one : (a.context c).queueId = c.queueId := by
      unfold context
      split
      · exact absurd (List.mem_cons_self ..) (none _)
      · split <;> rfl
      · rfl
    rw [← one]
    exact ih (fun q inside => none q (List.mem_cons_of_mem _ inside)) (a.context c)

theorem contextAfter_tunnelId {actions : List Action}
    (none : ∀ fields, setField fields ∈ actions → (fields.get .tunnelId).valid = false)
    (c : PacketContext) : (contextAfter actions c).tunnelId = c.tunnelId := by
  induction actions generalizing c with
  | nil => rfl
  | cons a actions ih =>
    have one : (a.context c).tunnelId = c.tunnelId := by
      unfold context
      split
      · rfl
      · rw [if_neg (by simp [none _ (List.mem_cons_self ..)])]
      · rfl
    rw [← one]
    exact ih (fun f inside => none f (List.mem_cons_of_mem _ inside)) (a.context c)

/-- An action that fails by itself does not ask to drop the packet. -/
theorem edit_cases {f : Frame} (consistent : f.Consistent) (a : Action) :
    (∃ g, a.edit f = (.ok (), g) ∧ g.Consistent ∧ g.context? = f.context?.map a.context) ∨
      ∃ e g, a.edit f = (.error e, g) ∧ e ≠ .dropPacket := by
  have same : f.context? = f.context?.map id := by simp
  have byBytes (change : Headers → Bytes → Except SpliceError (Option Bytes)) :
      (∃ g, f.edit change = (.ok (), g) ∧ g.Consistent ∧ g.context? = f.context?.map id) ∨
        ∃ e g, f.edit change = (.error e, g) ∧ e ≠ .dropPacket := by
    rw [← same]
    rcases Frame.edit_cases consistent change with kept | ⟨g, failed⟩
    · exact .inl kept
    · exact .inr ⟨_, g, failed, by decide⟩
  have byChange (change : Headers → Bytes → Bytes) := byBytes fun h d => .ok (some (change h d))
  have alone : ∃ g, ((.ok (), f) : Except SwitchError Unit × Frame) = (.ok (), g) ∧
      g.Consistent ∧ g.context? = f.context?.map id := ⟨f, rfl, consistent, same⟩
  cases a with
  | setQueue queueId =>
    exact .inl ⟨_, rfl, Frame.updateContext_consistent _ consistent,
      Frame.context?_updateContext ..⟩
  | setField fields =>
    rcases Frame.setFields_cases consistent fields with kept | ⟨g, failed⟩
    · exact .inl kept
    · exact .inr ⟨_, g, failed, by decide⟩
  | decMplsTtl =>
    simp only [edit]
    split
    · split
      · exact .inl alone
      · exact byChange fun h d => FieldWrite.setMplsTtl h _ d
    · exact .inl alone
  | decNwTtl =>
    simp only [edit]
    split
    · split
      · exact .inl alone
      · exact byChange fun h d => FieldWrite.setIpTtl h _ d
    · exact .inl alone
  | setNwTtl ttl =>
    simp only [edit]
    split
    · exact byChange fun h d => FieldWrite.setIpTtl h ttl d
    · exact .inl alone
  | setMplsTtl ttl => exact byChange fun h d => FieldWrite.setMplsTtl h ttl d
  | experimenter id => exact .inr ⟨_, f, rfl, by decide⟩
  | output port maxLength => exact .inl alone
  | group id => exact .inl alone
  | _ => exact byBytes _

end Action

/-- The frame `g` is in order and carries what `f` did besides the bytes, where of `actions` only
a set-queue changes the queue, and only a set-field of the tunnel the tunnel. -/
structure Frame.Carries (actions : List Action) (f g : Frame) : Prop where
  consistent : g.Consistent
  inPort : g.context?.map (·.inPort) = f.context?.map (·.inPort)
  inPhyPort : g.context?.map (·.inPhyPort) = f.context?.map (·.inPhyPort)
  metadata : g.context?.map (·.metadata) = f.context?.map (·.metadata)
  queueId : (∀ q, Action.setQueue q ∉ actions) →
    g.context?.map (·.queueId) = f.context?.map (·.queueId)
  tunnelId : (∀ fields, Action.setField fields ∈ actions → (fields.get .tunnelId).valid = false) →
    g.context?.map (·.tunnelId) = f.context?.map (·.tunnelId)

theorem Frame.carries_of_contextAfter (done : List Action) {actions : List Action} {f g : Frame}
    (within : done ⊆ actions) (consistent : g.Consistent)
    (context : g.context? = f.context?.map (Action.contextAfter done)) :
    Frame.Carries actions f g where
  consistent := consistent
  inPort := by
    simp [context, Function.comp_def, (Action.contextAfter_inPort done _).1]
  inPhyPort := by
    simp [context, Function.comp_def, (Action.contextAfter_inPort done _).2.1]
  metadata := by
    simp [context, Function.comp_def, (Action.contextAfter_inPort done _).2.2]
  queueId none := by
    have none : ∀ q, Action.setQueue q ∉ done := fun q inside => none q (within inside)
    simp [context, Function.comp_def, Action.contextAfter_queueId none]
  tunnelId none := by
    have none : ∀ fields, Action.setField fields ∈ done → (fields.get .tunnelId).valid = false :=
      fun fields inside => none fields (within inside)
    simp [context, Function.comp_def, Action.contextAfter_tunnelId none]

namespace MeterTable

/-- A meter keeps the context and leaves a view of the bytes, unless it fails to remark them. -/
theorem police_cases {f : Frame} (consistent : f.Consistent) (t : MeterTable) (id : MeterId)
    (now : Time) :
    ((t.police id f now).2.1.Consistent ∧ (t.police id f now).2.1.context? = f.context?) ∨
      (t.police id f now).1 = .error .failed := by
  have alone : f.Consistent ∧ f.context? = f.context? := ⟨consistent, rfl⟩
  unfold police
  split
  · exact .inl alone
  · simp only
    split
    · exact .inl alone
    · split
      · exact .inl alone
      · exact .inl alone
      · split
        · simp only [Frame.setDscp]
          rcases Frame.alter_cases consistent fun h d =>
              FieldWrite.setDscp h (raisePrecedence f.dscp _) d with
            ⟨g, altered, kept⟩ | ⟨g, failed⟩
          · exact .inl (by rw [altered]; exact kept)
          · exact .inr (by rw [failed])
        · exact .inl alone

end MeterTable

end FlowSwitch
