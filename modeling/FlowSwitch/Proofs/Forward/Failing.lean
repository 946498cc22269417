import FlowSwitch.Proofs.Forward.Abreast

/-!
# How parts of a pass fail

Only a meter drops a packet, and only chained groups go on without end. Every other part of a pass
that ends it early is refused for a cause of its own.
-/

namespace FlowSwitch

/-! ## Results of edits, of sending and of choosing -/

theorem Frame.edit_ne_dropPacket (change : Headers → Bytes → Except SpliceError (Option Bytes))
    (f : Frame) : (f.edit change).1 ≠ .error .dropPacket := by
  unfold Frame.edit
  repeat' split
  all_goals simp

theorem Frame.setFields_ne_dropPacket (fields : Match) (f : Frame) :
    (f.setFields fields).1 ≠ .error .dropPacket := by
  unfold Frame.setFields
  dsimp only
  split
  · exact f.edit_ne_dropPacket _
  · exact f.edit_ne_dropPacket _

theorem Action.edit_ne_dropPacket (a : Action) (f : Frame) :
    (a.edit f).1 ≠ .error .dropPacket := by
  have idle : (.ok () : Except SwitchError Unit) ≠ .error .dropPacket := by simp
  cases a with
  | setField fields => exact f.setFields_ne_dropPacket fields
  | experimenter id => simp [Action.edit]
  | decMplsTtl =>
    simp only [Action.edit]
    repeat' split
    · exact idle
    · exact f.edit_ne_dropPacket _
    · exact idle
  | decNwTtl =>
    simp only [Action.edit]
    repeat' split
    · exact idle
    · exact f.edit_ne_dropPacket _
    · exact idle
  | setNwTtl ttl =>
    simp only [Action.edit]
    split
    · exact f.edit_ne_dropPacket _
    · exact idle
  | setQueue | output | group => exact idle
  | _ => exact f.edit_ne_dropPacket _

theorem PortTable.send_ne_dropPacket (t : PortTable) (port : PortNo) (f : Frame) :
    t.send port f ≠ .error .dropPacket := by
  unfold PortTable.send
  dsimp only [throw, throwThe, MonadExceptOf.throw]
  split
  · intro failed
    cases failed
  · cases f.context? with
    | none =>
      intro failed
      cases failed
    | some c =>
      dsimp only
      split
      all_goals
        intro failed
        cases failed

theorem Group.choose_ne_dropPacket (g : Group) (livePort : PortNo → Bool) (pick : UInt64) :
    g.choose livePort pick ≠ .error .dropPacket := by
  unfold Group.choose
  repeat' split
  all_goals simp

namespace Run

variable {α β : Type}

/-- Whether a part of a pass that ends it early is refused, other than for a packet dropped. -/
def Fails (x : Run α) : Prop :=
  ∀ p h q, x.on p = (.error h, q) → ∃ e, h = .refused e ∧ e ≠ .dropPacket

theorem Fails.pure (a : α) : Fails (Pure.pure a : Run α) := by
  intro p h q ran
  cases ran

theorem Fails.lift {x : Except SwitchError α} (keeps : x ≠ .error .dropPacket) :
    Fails (Run.lift x) := by
  intro p h q ran
  cases x with
  | ok a => cases ran
  | error e =>
    obtain rfl := Except.error.inj (Prod.mk.inj ran).1
    exact ⟨e, rfl, fun drop => keeps (drop ▸ rfl)⟩

theorem Fails.modify (change : Pass → Pass) : Fails (modify change : Run Unit) := by
  intro p h q ran
  cases ran

theorem Fails.get : Fails (get : Run Pass) := by
  intro p h q ran
  cases ran

theorem Fails.bind {x : Run α} {f : α → Run β} (first : Fails x) (next : ∀ a, Fails (f a)) :
    Fails (x >>= f) := by
  intro p h q ran
  rw [on_bind] at ran
  cases begun : x.on p with
  | mk r p' =>
    rw [begun] at ran
    cases r with
    | ok a => exact next a p' h q ran
    | error h' =>
      obtain rfl := Except.error.inj (Prod.mk.inj ran).1
      exact first p h' p' begun

theorem fails_edit {change : Frame → Except SwitchError Unit × Frame}
    (keeps : ∀ f, (change f).1 ≠ .error .dropPacket) : Fails (edit change) := by
  refine .bind .get fun p => ?_
  exact .bind (.modify _) fun _ => .lift (keeps p.frame)

theorem fails_parse : Fails parse := by
  refine fails_edit fun f => ?_
  cases f.ensureParsed <;> simp

section Parts

variable (s : Setting)

theorem fails_change (origin : Option EntryRef) (a : Action) : Fails (change s origin a) := by
  refine .bind fails_parse fun _ => .bind .get fun p => ?_
  have edited : Fails (edit a.edit) := fails_edit a.edit_ne_dropPacket
  dsimp only
  split
  · exact .bind (.modify _) fun _ => edited
  · exact edited

theorem fails_sendOut (port : PortNo) : Fails (sendOut port) :=
  .bind .get fun p => .bind (.lift (p.ports.send_ne_dropPacket port p.frame)) fun _ => .modify _

theorem fails_enterGroup (id : GroupId) : Fails (enterGroup s id) := by
  refine .bind .get fun p => ?_
  split
  · rename_i g _
    have chosen (pick : UInt64) : Fails (Run.lift (g.choose p.ports.isLive pick)) :=
      .lift (g.choose_ne_dropPacket _ _)
    refine .bind (.modify _) fun _ => ?_
    dsimp only
    split
    · exact .bind (.modify _) fun _ => .bind (.pure _) fun _ => chosen _
    · exact .bind (.pure _) fun _ => chosen _
  · exact .pure _

theorem fails_enterBucket (id : GroupId) (place : Nat) : Fails (enterBucket id place) :=
  .bind .get fun _ => .bind (.modify _) fun _ => .pure _

theorem fails_look (table : TableId) : Fails (look table) := by
  intro p h q ran
  rw [on_look] at ran
  cases view : p.frame.view with
  | none =>
    rw [view] at ran
    obtain rfl := Except.error.inj (Prod.mk.inj ran).1
    exact ⟨.failed, rfl, by decide⟩
  | some v =>
    rw [view] at ran
    cases ran

end Parts

end Run

end FlowSwitch
