import FlowSwitch.Port.Table

/-!
# What ports are handed

Sending changes nothing of a port but its device, which is handed frames one after the
other and may drop each of them. What is recorded of a sending are just these frames.
-/

namespace FlowSwitch

/-- The frames among some that are for the device of a port. -/
def Handout.framesFor (made : List Handout) (port : PortNo) : List Bytes :=
  (made.filter (·.port == port)).map (·.data)

namespace SwitchPort

/-- The port after its device was handed frames. -/
def handed (p : SwitchPort) (frames : List Bytes) : SwitchPort :=
  { p with device := frames.foldl (fun d frame => (d.send frame).2) p.device }

@[simp]
theorem map_handed_nil (p : Option SwitchPort) : p.map (·.handed []) = p := by
  cases p <;> rfl

theorem handed_append (p : SwitchPort) (l m : List Bytes) :
    p.handed (l ++ m) = (p.handed l).handed m := by
  simp [handed]

end SwitchPort

namespace PortTable

open Handout (framesFor)

/-- Whether the ports changed by nothing but the frames that their devices were handed. -/
structure Handed (made : List Handout) (t t' : PortTable) : Prop where
  keys : t'.keys = t.keys
  get? : ∀ q, t'.get? q = (t.get? q).map (·.handed (framesFor made q))

variable {t t' t'' : PortTable} {made more : List Handout}

theorem handed_nil (t : PortTable) : t.Handed [] t := ⟨rfl, fun q => by simp [framesFor]⟩

theorem Handed.trans (first : t.Handed made t') (next : t'.Handed more t'') :
    t.Handed (made ++ more) t'' := by
  refine ⟨next.keys.trans first.keys, fun q => ?_⟩
  rw [next.get?, first.get?, Option.map_map]
  simp only [framesFor, List.filter_append, List.map_append, SwitchPort.handed_append]
  rfl

/-- A device that was handed nothing is as it was. -/
theorem Handed.get?_of_forall_ne (handed : t.Handed made t') {q : PortNo}
    (none : ∀ h ∈ made, h.port ≠ q) : t'.get? q = t.get? q := by
  have apart : made.filter (·.port == q) = [] :=
    List.filter_eq_nil_iff.mpr fun h inside => by simpa using none h inside
  rw [handed.get?, framesFor, apart, List.map_nil, SwitchPort.map_handed_nil]

/-- Ports keep their settings. -/
theorem Handed.config (handed : t.Handed made t') (q : PortNo) :
    (t'.get? q).map (·.config) = (t.get? q).map (·.config) := by
  rw [handed.get?, Option.map_map]
  rfl

theorem forwards_eq (t : PortTable) (q : PortNo) :
    t.forwards q = ((t.get? q).map (·.config)).any fun c => !(c.down || c.noForward) := by
  rw [forwards, Option.any_map]
  rfl

theorem Handed.forwards (handed : t.Handed made t') (q : PortNo) :
    t'.forwards q = t.forwards q := by
  rw [forwards_eq, forwards_eq, handed.config]

/-- A port that frames get to is up and does not drop what is forwarded to it. -/
theorem exists_of_forwards {q : PortNo} (open_ : t.forwards q = true) :
    ∃ p, t.get? q = some p ∧ p.config.down = false ∧ p.config.noForward = false := by
  unfold PortTable.forwards at open_
  cases found : t.get? q with
  | none => simp [found] at open_
  | some p =>
    have open_ : p.forwards = true := by simpa [found] using open_
    have shut : (p.config.down || p.config.noForward) = false := by
      simpa [SwitchPort.forwards] using open_
    exact ⟨p, rfl, Bool.or_eq_false_iff.mp shut⟩

theorem handed_deliver (t : PortTable) (target : PortNo) (d : Bytes) (q : PortNo) :
    t.Handed (if t.forwards q then [⟨target, q, d⟩] else []) (t.deliver d q) := by
  refine ⟨t.keys_modify q _, fun other => ?_⟩
  rw [deliver, Registry.get?_modify, PortTable.forwards]
  by_cases here : other = q
  · subst here
    cases found : t.get? other with
    | none => simp
    | some p =>
      by_cases open_ : p.forwards = true
      · simp [open_, framesFor, SwitchPort.handed]
      · simp [open_, framesFor, SwitchPort.handed]
  · have apart : ¬ q = other := fun there => here there.symm
    rw [if_neg here]
    split
    · simp [framesFor, apart]
    · simp [framesFor]

/-- Induction on the ports to deliver to, which deliveries leave open or shut. -/
theorem handed_deliverAll (t : PortTable) (target : PortNo) (d : Bytes) (l : List PortNo) :
    t.Handed ((l.filter t.forwards).map fun port => { target, port, data := d })
      (l.foldl (·.deliver d ·) t) := by
  induction l generalizing t with
  | nil => exact t.handed_nil
  | cons q l ih =>
    have first := t.handed_deliver target d q
    have rest := first.trans (ih (t.deliver d q))
    have gates : (t.deliver d q).forwards = t.forwards := funext first.forwards
    rw [gates] at rest
    cases open_ : t.forwards q with
    | true => simpa [open_] using rest
    | false => simpa [open_] using rest

/-- What is recorded of a sending is what the devices were handed. -/
theorem handed_send {target : PortNo} {f : Frame} (sent : t.send target f = .ok t') :
    t.Handed (t.handouts target f) t' := by
  unfold send at sent
  unfold handouts
  dsimp only [throw, throwThe, MonadExceptOf.throw] at sent
  split at sent
  · cases sent
  · cases context : f.context? with
    | none =>
      rw [context] at sent
      cases sent
    | some c =>
      rw [context] at sent
      dsimp only at sent
      split at sent
      · cases sent
      · obtain rfl := Except.ok.inj sent
        exact t.handed_deliverAll target f.pad.data _

/-- Only a number that asks for it leads back to where a frame came from. -/
theorem eq_inPort_of_mem_destinations {target source : PortNo}
    (back : source ∈ t.destinations target source) : target = PortNo.inPort := by
  unfold destinations at back
  split at back
  · assumption
  · split at back
    · simp at back
    · split at back
      · cases back
      · split at back
        · cases back
        · rename_i apart
          have same : source = target := by simpa using (List.mem_filter.mp back).2
          exact absurd same.symm apart

theorem long_pad (f : Frame) : 60 ≤ f.pad.data.length := by
  have least : Frame.minLength = 60 := rfl
  simp only [Frame.pad, Bytes.padTo, List.length_append, List.length_replicate]
  omega

theorem target_of_mem_handouts {target : PortNo} {f : Frame} {h : Handout}
    (inside : h ∈ t.handouts target f) : h.target = target := by
  obtain ⟨q, -, rfl⟩ := List.mem_map.mp inside
  rfl

/-- Devices are handed frames that are long enough, through ports that these get to, and back to
where a frame came from only under the number that asks for that. -/
theorem of_mem_handouts {target source : PortNo} {f : Frame} {h : Handout}
    (origin : f.context?.map (·.inPort) = some source) (inside : h ∈ t.handouts target f) :
    60 ≤ h.data.length ∧ t.forwards h.port = true ∧
      (h.port = source → h.target = PortNo.inPort) := by
  unfold handouts at inside
  rw [origin] at inside
  obtain ⟨q, among, rfl⟩ := List.mem_map.mp inside
  obtain ⟨there, open_⟩ := List.mem_filter.mp among
  refine ⟨long_pad f, open_, fun back => ?_⟩
  subst back
  exact eq_inPort_of_mem_destinations there

end PortTable

end FlowSwitch
