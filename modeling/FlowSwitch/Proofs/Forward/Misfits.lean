import FlowSwitch.Proofs.Forward.View
import FlowSwitch.Proofs.Packet.Splices

/-!
# Actions that fail

An action that changes headers fails for the length of the frame alone: a tag is not pushed if
the frame would get too long, and what is left behind an I-TAG has to hold an Ethernet header.
Every other tag has such a header before it, so a frame can still be read without the tag.
-/

namespace FlowSwitch

namespace Bytes

variable {d s : Bytes} {o n : Nat}

theorem insert_of_long (inside : o ≤ d.length) (long : maxFrame < d.length + s.length) :
    d.insert o s = .error (.tooLong (d.length + s.length)) := by
  rw [insert, checkInsert, if_neg (Nat.not_lt.mpr inside), if_pos long]
  rfl

theorem length_removeAt (inside : o + n ≤ d.length) : (d.removeAt o n).length = d.length - n := by
  rw [removeAt, List.length_append, List.length_take, List.length_drop]
  omega

end Bytes

namespace Frame

variable {f : Frame} {h : Headers} (held : f.headers? = some h)
  {change : Headers → Bytes → Except SpliceError (Option Bytes)} {d : Bytes}

include held

theorem ensureParsed_of_headers? : f.ensureParsed = .ok f := by
  obtain ⟨v, view, -⟩ := Option.map_eq_some_iff.mp held
  rw [ensureParsed, view]

theorem edit_of_error {e : SpliceError} (refused : change h f.data = .error e) :
    f.edit change = (.error .failed, f) := by
  simp only [edit, ensureParsed_of_headers? held, held, refused]

theorem edit_of_none (idle : change h f.data = .ok none) : f.edit change = (.ok (), f) := by
  simp only [edit, ensureParsed_of_headers? held, held, idle]

/-- What an edit comes to is told by the length of the new bytes. -/
theorem edit_of_some (changed : change h f.data = .ok (some d)) :
    (14 ≤ d.length → (f.edit change).1 = .ok ()) ∧
      (d.length < 14 → (f.edit change).1 = .error .failed) := by
  simp only [edit, ensureParsed_of_headers? held, held, changed, reparse]
  obtain ⟨rfl, read⟩ | ⟨⟨-, short⟩, read⟩ | ⟨long, h', read⟩ := Headers.parse_cases d
  · rw [read]
    exact ⟨fun long => absurd long (by decide), fun _ => rfl⟩
  · rw [read]
    exact ⟨fun long => absurd long (by omega), fun _ => rfl⟩
  · rw [read]
    exact ⟨fun _ => rfl, fun short => absurd long (Nat.not_le.mpr short)⟩

theorem edit_ok_of_length {changed : Option Bytes} (is : change h f.data = .ok changed)
    (long : 14 ≤ f.data.length) (kept : ∀ d, changed = some d → d.length = f.data.length) :
    (f.edit change).1 = .ok () := by
  cases changed with
  | none => exact congrArg Prod.fst (edit_of_none held is)
  | some d => exact (edit_of_some held is).1 (kept d rfl ▸ long)

/-- A push fails if the frame gets too long, and then leaves it alone. -/
theorem edit_of_insert {o : Nat} {s : Bytes} {finish : Bytes → Bytes}
    (pushes : change h f.data = (f.data.insert o s).map fun d => some (finish d))
    (inside : o ≤ f.data.length) (long : 14 ≤ f.data.length)
    (kept : ∀ d, (finish d).length = d.length) :
    (f.length + s.length ≤ Bytes.maxFrame → (f.edit change).1 = .ok ()) ∧
      (Bytes.maxFrame < f.length + s.length → f.edit change = (.error .failed, f)) := by
  constructor
  · intro room
    rw [Bytes.insert_of_room inside room] at pushes
    refine (edit_of_some held pushes).1 ?_
    rw [kept, Bytes.length_insertAt]
    omega
  · intro tooLong
    rw [Bytes.insert_of_long inside tooLong] at pushes
    exact edit_of_error held pushes

/-- A pop fails if what is left holds no Ethernet header. -/
theorem edit_of_remove {o n : Nat} {finish : Bytes → Bytes}
    (pops : change h f.data = (f.data.remove o n).map fun d => some (finish d))
    (inside : o + n ≤ f.data.length) (kept : ∀ d, (finish d).length = d.length) :
    (14 + n ≤ f.length → (f.edit change).1 = .ok ()) ∧
      (f.length < 14 + n → (f.edit change).1 = .error .failed) := by
  rw [Bytes.remove_of_inside inside] at pops
  have told := edit_of_some held pops
  have length : f.data.length = f.length := rfl
  rw [kept, Bytes.length_removeAt inside] at told
  exact ⟨fun _ => told.1 (by omega), fun _ => told.2 (by omega)⟩

end Frame

namespace Tagging

theorem copyTtlOut_keeps (h : Headers) (d : Bytes) :
    ∃ changed, copyTtlOut h d = .ok changed ∧ ∀ d', changed = some d' → d'.length = d.length := by
  unfold copyTtlOut
  split
  · exact ⟨none, rfl, fun _ is => by cases is⟩
  · refine ⟨_, rfl, fun d' is => ?_⟩
    obtain ⟨ttl, -, rfl⟩ := Option.map_eq_some_iff.mp is
    exact FieldWrite.length_setMplsTtl h ttl d

theorem copyTtlIn_keeps (h : Headers) (d : Bytes) :
    ∃ changed, copyTtlIn h d = .ok changed ∧ ∀ d', changed = some d' → d'.length = d.length := by
  unfold copyTtlIn
  split
  · exact ⟨none, rfl, fun _ is => by cases is⟩
  · split
    · refine ⟨_, rfl, fun d' is => ?_⟩
      obtain rfl := Option.some.inj is
      exact Bytes.length_overwrite ..
    · refine ⟨_, rfl, fun d' is => ?_⟩
      obtain ⟨ip, -, rfl⟩ := Option.map_eq_some_iff.mp is
      exact FieldWrite.length_setIpTtl h _ d

end Tagging

namespace Action

/-- Whether an action changes the headers of a frame, or its queue, and does nothing else. -/
def changes (a : Action) : Bool := !a.sends && !a.isExperimenter

def pushes : Action → Bool
  | pushVlan _ | pushMpls _ | pushPbb _ => true
  | _ => false

/-- Whether a frame with the headers `h` has not the length that an action needs. -/
def Misfits (a : Action) (h : Headers) (length : Nat) : Prop :=
  match a with
  | pushVlan _ | pushMpls _ => Bytes.maxFrame < length + 4
  | pushPbb _ => Bytes.maxFrame < length + 18
  | popPbb => ∃ tag, h.pbb = some tag ∧ length < tag.offset + 4 + 14
  | _ => False

section

variable {f : Frame} {h : Headers} (held : f.headers? = some h)
  (read : Headers.parse f.data = .ok h)

include held read

theorem edit_of_pushes {a : Action} (pushes : a.pushes = true) :
    (¬ a.Misfits h f.length → (a.edit f).1 = .ok ()) ∧
      (a.Misfits h f.length → a.edit f = (.error .failed, f)) := by
  have laid := Headers.laid_of_parse read
  have long := laid.reaches.ethernet
  have twelve : 12 ≤ f.data.length := by omega
  have pushed {change : Headers → Bytes → Except SpliceError (Option Bytes)} {o n : Nat} {s : Bytes}
      {finish : Bytes → Bytes}
      (is : change h f.data = (f.data.insert o s).map fun d => some (finish d))
      (inside : o ≤ f.data.length) (size : s.length = n)
      (kept : ∀ d, (finish d).length = d.length) :
      (¬ Bytes.maxFrame < f.length + n → (f.edit change).1 = .ok ()) ∧
        (Bytes.maxFrame < f.length + n → f.edit change = (.error .failed, f)) := by
    have told := Frame.edit_of_insert held is inside long kept
    rw [size] at told
    exact ⟨fun room => told.1 (Nat.not_lt.mp room), told.2⟩
  cases a with
  | pushVlan tpid =>
    have is : Tagging.pushVlan tpid h f.data
        = (f.data.insert 12 _).map fun d => some (id d) := rfl
    exact pushed is twelve rfl fun _ => rfl
  | pushMpls etherType =>
    exact pushed rfl (Strict.newLabel_inside laid).2 rfl fun _ => Bytes.length_overwrite ..
  | pushPbb etherType =>
    have is : Tagging.pushPbb etherType h f.data
        = (f.data.insert 12 _).map fun d => some (id d) := rfl
    have size : (f.data.take 12).length = 12 := List.length_take_of_le twelve
    refine pushed is twelve ?_ fun _ => rfl
    rw [List.length_append, size]
    rfl
  | _ => cases pushes

/-- Popping a tag leaves an Ethernet header. -/
theorem edit_popVlan_ok : (popVlan.edit f).1 = .ok () := by
  have reaches := (Headers.laid_of_parse read).reaches
  cases is : h.vlan with
  | none =>
    have idle : Tagging.popVlan h f.data = .ok none := by rw [Tagging.popVlan, is]
    exact congrArg Prod.fst (Frame.edit_of_none held idle)
  | some tag =>
    have pops : Tagging.popVlan h f.data
        = (f.data.remove tag.offset 4).map fun d => some (id d) := by
      rw [Tagging.popVlan, is]
      rfl
    obtain ⟨behind, fits⟩ := reaches.vlan tag is
    have length : f.data.length = f.length := rfl
    exact (Frame.edit_of_remove held pops (by omega) fun _ => rfl).1 (by omega)

theorem edit_popMpls_ok (etherType : BitVec 16) : ((popMpls etherType).edit f).1 = .ok () := by
  have reaches := (Headers.laid_of_parse read).reaches
  cases is : h.mpls with
  | none =>
    have idle : Tagging.popMpls etherType h f.data = .ok none := by rw [Tagging.popMpls, is]
    exact congrArg Prod.fst (Frame.edit_of_none held idle)
  | some top =>
    have pops : Tagging.popMpls etherType h f.data
        = (f.data.remove top.offset 4).map fun d =>
          some (d.overwrite (top.offset - 2) (Bytes.ofWord 2 etherType)) := by
      rw [Tagging.popMpls, is]
    obtain ⟨behind, fits⟩ := reaches.mpls top is
    have length : f.data.length = f.length := rfl
    exact (Frame.edit_of_remove held pops (by omega) fun _ => Bytes.length_overwrite ..).1
      (by omega)

theorem edit_popPbb_iff :
    (¬ popPbb.Misfits h f.length → (popPbb.edit f).1 = .ok ()) ∧
      (popPbb.Misfits h f.length → (popPbb.edit f).1 = .error .failed) := by
  have reaches := (Headers.laid_of_parse read).reaches
  cases is : h.pbb with
  | none =>
    have idle : Tagging.popPbb h f.data = .ok none := by rw [Tagging.popPbb, is]
    refine ⟨fun _ => congrArg Prod.fst (Frame.edit_of_none held idle), ?_⟩
    rintro ⟨tag, there, -⟩
    rw [is] at there
    cases there
  | some tag =>
    have pops : Tagging.popPbb h f.data
        = (f.data.remove 0 (tag.offset + 4)).map fun d => some (id d) := by
      rw [Tagging.popPbb, is]
      rfl
    have fits := reaches.pbb tag is
    have told := Frame.edit_of_remove held pops (by omega) fun _ => rfl
    constructor
    · intro room
      refine told.1 ?_
      have room : ¬ f.length < tag.offset + 4 + 14 := fun short => room ⟨tag, is, short⟩
      omega
    · rintro ⟨tag', there, short⟩
      obtain rfl := Option.some.inj (is.symm.trans there)
      exact told.2 (by omega)

/-- Writing a TTL keeps the length, so it succeeds. -/
theorem setMplsTtl_ok (ttl : BitVec 8) : (f.setMplsTtl ttl).1 = .ok () := by
  have long := (Headers.laid_of_parse read).reaches.ethernet
  refine Frame.edit_ok_of_length held rfl long fun d is => ?_
  cases is
  exact FieldWrite.length_setMplsTtl h ttl f.data

theorem setIpTtl_ok (ttl : BitVec 8) : (f.setIpTtl ttl).1 = .ok () := by
  have long := (Headers.laid_of_parse read).reaches.ethernet
  refine Frame.edit_ok_of_length held rfl long fun d is => ?_
  cases is
  exact FieldWrite.length_setIpTtl h ttl f.data

theorem edit_decMplsTtl_ok : (decMplsTtl.edit f).1 = .ok () := by
  simp only [edit]
  split
  · split
    · rfl
    · exact setMplsTtl_ok held read _
  · rfl

theorem edit_setNwTtl_ok (ttl : BitVec 8) : ((setNwTtl ttl).edit f).1 = .ok () := by
  simp only [edit]
  split
  · exact setIpTtl_ok held read ttl
  · rfl

theorem edit_decNwTtl_ok : (decNwTtl.edit f).1 = .ok () := by
  simp only [edit]
  split
  · split
    · rfl
    · exact setIpTtl_ok held read _
  · rfl

/-- An action that fits succeeds, and one that does not fails. Only a push and the pop of an I-TAG
may not fit. -/
theorem edit_iff {a : Action} (changes : a.changes = true) :
    (¬ a.Misfits h f.length → (a.edit f).1 = .ok ()) ∧
      (a.Misfits h f.length → (a.edit f).1 = .error .failed) := by
  have always (ok : (a.edit f).1 = .ok ()) (fits : ¬ a.Misfits h f.length) :
      (¬ a.Misfits h f.length → (a.edit f).1 = .ok ()) ∧
        (a.Misfits h f.length → (a.edit f).1 = .error .failed) :=
    ⟨fun _ => ok, fun misfits => absurd misfits fits⟩
  have pushed (pushes : a.pushes = true) :
      (¬ a.Misfits h f.length → (a.edit f).1 = .ok ()) ∧
        (a.Misfits h f.length → (a.edit f).1 = .error .failed) := by
    obtain ⟨room, tooLong⟩ := edit_of_pushes held read pushes
    exact ⟨room, fun misfits => congrArg Prod.fst (tooLong misfits)⟩
  have long := (Headers.laid_of_parse read).reaches.ethernet
  cases a with
  | pushVlan _ | pushMpls _ | pushPbb _ => exact pushed rfl
  | popPbb => exact edit_popPbb_iff held read
  | popVlan => exact always (edit_popVlan_ok held read) id
  | popMpls etherType => exact always (edit_popMpls_ok held read etherType) id
  | copyTtlOut =>
    obtain ⟨changed, is, kept⟩ := Tagging.copyTtlOut_keeps h f.data
    exact always (Frame.edit_ok_of_length held is long kept) id
  | copyTtlIn =>
    obtain ⟨changed, is, kept⟩ := Tagging.copyTtlIn_keeps h f.data
    exact always (Frame.edit_ok_of_length held is long kept) id
  | setMplsTtl ttl => exact always (setMplsTtl_ok held read ttl) id
  | decMplsTtl => exact always (edit_decMplsTtl_ok held read) id
  | setNwTtl ttl => exact always (edit_setNwTtl_ok held read ttl) id
  | decNwTtl => exact always (edit_decNwTtl_ok held read) id
  | setQueue queueId => exact always rfl id
  | setField fields =>
    obtain ⟨g, set, -⟩ := Frame.setFields_ok held read fields
    exact always (congrArg Prod.fst set) id
  | output _ _ | group _ | experimenter _ => cases changes

end

end Action

namespace Run

/-- The report of a spent TTL comes before the change, and leaves the frame alone. -/
theorem execute_change {p : Pass} (consistent : p.frame.Consistent) (s : Setting)
    (resubmit : Run Unit) (origin : Option EntryRef) {a : Action} (changes : a.changes = true) :
    ∃ q, (execute s resubmit origin a).on p = (edit a.edit).on q ∧ q.frame = p.frame ∧
      (a.spendsTtl p.frame = false → q = p) := by
  have plain : a.sends = false := by
    rw [Action.changes, Bool.and_eq_true, Bool.not_eq_true'] at changes
    exact changes.1
  rw [on_execute, perform_change _ _ _ _ plain]
  simp only [change, on_bind, on_parse_of_consistent consistent, on_get]
  cases a.spendsTtl p.frame with
  | true => exact ⟨_, rfl, (frame_packetIn ..).1, Bool.noConfusion⟩
  | false => exact ⟨p, rfl, rfl, fun _ => rfl⟩

/-- An action that changes headers fails just if the frame has not the length for it, and a push
that fails leaves the whole pass as it was. What the action comes to is what it comes to when no
place out of range is read or written. -/
theorem execute_fails_iff {p : Pass} {h : Headers} (held : p.frame.headers? = some h)
    (read : Headers.parse p.frame.data = .ok h) (s : Setting) (resubmit : Run Unit)
    (origin : Option EntryRef) {a : Action} (changes : a.changes = true) :
    (¬ a.Misfits h p.frame.length → ((execute s resubmit origin a).on p).1 = .ok ()) ∧
      (a.Misfits h p.frame.length →
        ((execute s resubmit origin a).on p).1 = .error (.refused .failed)) ∧
      (a.Misfits h p.frame.length → a.pushes = true →
        (execute s resubmit origin a).on p = (.error (.refused .failed), p)) ∧
      ∃ result g, Strict.action a p.frame = some (result, g) ∧
        ((execute s resubmit origin a).on p).1 = result.mapError .refused ∧
        ((execute s resubmit origin a).on p).2.frame = g := by
  have consistent : p.frame.Consistent := ⟨h, held, read⟩
  obtain ⟨q, is, same, silent⟩ := execute_change consistent s resubmit origin changes
  obtain ⟨fits, misfits⟩ := Action.edit_iff held read changes
  rw [is, on_edit, same]
  refine ⟨fun room => ?_, fun short => ?_, fun short pushes => ?_, ?_⟩
  · rw [fits room]
    rfl
  · rw [misfits short]
    rfl
  · -- A push lowers no TTL, so nothing is reported before it.
    have quiet : a.spendsTtl p.frame = false := by
      cases a with
      | pushVlan _ | pushMpls _ | pushPbb _ => rfl
      | _ => cases pushes
    rw [(Action.edit_of_pushes held read pushes).2 short, silent quiet]
    rfl
  · exact ⟨_, _, Strict.action_eq consistent a, rfl, rfl⟩

/-- A frame with an I-TAG and less than an Ethernet header behind it. -/
def shortCarrier : Bytes :=
  List.replicate 12 0 ++ Bytes.ofWord 2 EtherType.pbb ++ List.replicate 17 0

theorem execute_fails_iff_shortCarrier :
    ∃ h, Headers.parse shortCarrier = .ok h ∧
      let p := Switch.idle.start ⟨shortCarrier, some ⟨h, {}⟩⟩
      let s := Switch.idle.setting 0
      ((execute s (resubmit s 0) none .popPbb).on p).1 = .error (.refused .failed) ∧
        ((execute s (resubmit s 0) none (.pushVlan 0x8100)).on p).1 = .ok () := by
  have read : ∃ h, Headers.parse shortCarrier = .ok h ∧ h.pbb = some ⟨14, 0⟩ := ⟨_, rfl, rfl⟩
  obtain ⟨h, read, tag⟩ := read
  have short : shortCarrier.length < 14 + 4 + 14 := by decide
  have room : ¬ Bytes.maxFrame < shortCarrier.length + 4 := by decide
  refine ⟨h, read, ?_, ?_⟩
  · exact (execute_fails_iff rfl read _ _ none rfl).2.1 ⟨⟨14, 0⟩, tag, short⟩
  · exact (execute_fails_iff rfl read _ _ none rfl).1 room

end Run

end FlowSwitch
