import FlowSwitch.Switch.Packet
import Mathlib.Data.List.Induction

/-!
# Packets that are kept for the controller

A run of packets to the controller and of takes is recorded in the order in which things happen.
A place of the ring always holds the packet that its last record speaks of, so what a take gives
back is told by the records alone.
-/

namespace FlowSwitch

/-- What is asked of the buffers of a notifier. -/
inductive BufferCommand
  | notify (request : PacketInRequest) (now : Time)
  | take (id : UInt32)

/-- What a command came to: the events that were delivered, or the frame that was taken. -/
inductive BufferRecord
  | notified (request : PacketInRequest) (now : Time) (events : List Event)
  | taken (id : UInt32) (frame : Option Frame)

/-- The buffer that an event tells the controller of. -/
def Event.buffer? : Event → Option UInt32
  | packetIn e => if e.buffer = noBuffer then none else some e.buffer
  | _ => none

def BufferCommand.time? : BufferCommand → Option Time
  | notify _ now => some now
  | take _ => none

namespace BufferRecord

def carries (id : UInt32) : BufferRecord → Bool
  | notified _ _ events => events.any fun e => e.buffer? = some id
  | taken .. => false

def takes (id : UInt32) : BufferRecord → Bool
  | notified .. => false
  | taken other _ => other = id

def concerns (id : UInt32) (r : BufferRecord) : Bool := r.carries id || r.takes id

def saved? : BufferRecord → Option SavedPacket
  | notified request now _ => some ⟨request.frame, now⟩
  | taken .. => none

def time? : BufferRecord → Option Time
  | notified _ now _ => some now
  | taken .. => none

end BufferRecord

namespace Notifier

def step (n : Notifier) : BufferCommand → BufferRecord × Notifier
  | .notify request now =>
    let after := n.notifyPacket request now
    (.notified request now (after.delivered.drop n.delivered.length), after)
  | .take id =>
    match n.takePacket id with
    | some (frame, after) => (.taken id (some frame), after)
    | none => (.taken id none, n)

/-- Carries out commands and records what they came to. -/
def run (n : Notifier) : List BufferCommand → List BufferRecord × Notifier
  | [] => ([], n)
  | command :: more =>
    let (record, after) := n.step command
    let (log, last) := after.run more
    (record :: log, last)

end Notifier

/-- What records say about buffers of `size` places that are kept for `timeout`. -/
structure Faithful (size : UInt32) (timeout : Time) (log : List BufferRecord) : Prop where
  /-- A packet is told once. It is cut if it is kept, and not kept where no buffer is wanted. -/
  told : ∀ request now events, .notified request now events ∈ log →
    ∃ e, events = [.packetIn e] ∧ (e.buffer = noBuffer ∨ e.buffer < size) ∧
      (e.buffer ≠ noBuffer →
        e.data = request.frame.data.take (min request.maxLength.toNat request.frame.length)) ∧
      (e.buffer = noBuffer → e.data = request.frame.data) ∧
      (request.maxLength = wholePacket ∨ size = 0 → e.buffer = noBuffer)
  /-- A take gives back the whole frame of the last packet that was told with this buffer, unless
  it was taken since. -/
  taken : ∀ before id result after, log = before ++ .taken id result :: after →
    ∀ frame, result = some frame ↔ ∃ front request now events back,
      before = front ++ .notified request now events :: back ∧
        (BufferRecord.notified request now events).carries id = true ∧
          (∀ record ∈ back, record.concerns id = false) ∧ request.frame = frame
  /-- A place is not used again before the timeout, unless its packet was taken. -/
  apart : ∀ front request now events back request' now' events' after id,
    log = front ++ .notified request now events :: back ++
        .notified request' now' events' :: after →
      (BufferRecord.notified request now events).carries id = true →
        (BufferRecord.notified request' now' events').carries id = true →
          (∀ record ∈ back, record.takes id = false) → now + timeout ≤ now'

/-! ## The packet in a place -/

/-- The packet that should be in a place after some records. -/
def kept (id : UInt32) (log : List BufferRecord) : Option SavedPacket :=
  (log.reverse.find? (·.concerns id)).bind BufferRecord.saved?

theorem kept_concat (id : UInt32) (log : List BufferRecord) (r : BufferRecord) :
    kept id (log ++ [r]) = if r.concerns id then r.saved? else kept id log := by
  rw [kept, List.reverse_concat, List.find?_cons]
  cases concerns : r.concerns id <;> simp [kept]

theorem kept_eq_some {id : UInt32} {log : List BufferRecord} {p : SavedPacket} :
    kept id log = some p ↔ ∃ front request now events back,
      log = front ++ .notified request now events :: back ∧
        (BufferRecord.notified request now events).carries id = true ∧
          (∀ record ∈ back, record.concerns id = false) ∧ p = ⟨request.frame, now⟩ := by
  rw [kept, Option.bind_eq_some_iff]
  constructor
  · rintro ⟨record, found, saved⟩
    obtain ⟨concerns, later, earlier, listed, apart⟩ := List.find?_eq_some_iff_append.mp found
    cases record with
    | taken => cases saved
    | notified request now events =>
      refine ⟨earlier.reverse, request, now, events, later.reverse, ?_, ?_, ?_, ?_⟩
      · rw [← List.reverse_reverse log, listed]
        simp
      · simpa [BufferRecord.concerns, BufferRecord.takes] using concerns
      · intro record member
        simpa using apart record (List.mem_reverse.mp member)
      · exact (Option.some.inj saved).symm
  · rintro ⟨front, request, now, events, back, rfl, carries, apart, rfl⟩
    refine ⟨.notified request now events, List.find?_eq_some_iff_append.mpr ⟨?_, back.reverse,
      front.reverse, by simp, ?_⟩, rfl⟩
    · rw [BufferRecord.concerns, carries, Bool.true_or]
    · intro record member
      simpa using apart record (List.mem_reverse.mp member)

/-- No packet is told with the number that stands for no buffer. -/
theorem carries_noBuffer (r : BufferRecord) : r.carries noBuffer = false := by
  cases r with
  | taken => rfl
  | notified request now events =>
    rw [BufferRecord.carries, List.any_eq_false]
    intro e _
    cases e with
    | packetIn e => by_cases none : e.buffer = noBuffer <;> simp [Event.buffer?, none]
    | flowRemoved => simp [Event.buffer?]
    | portStatus => simp [Event.buffer?]

theorem kept_noBuffer (log : List BufferRecord) : kept noBuffer log = none := by
  rw [Option.eq_none_iff_forall_ne_some]
  intro p found
  obtain ⟨_, _, _, _, _, _, carries, _⟩ := kept_eq_some.mp found
  rw [carries_noBuffer] at carries
  cases carries

/-! ## Each record follows from those before it -/

/-- What a record says when others came before it. -/
def Recorded (size : UInt32) (timeout : Time) (before : List BufferRecord) : BufferRecord → Prop
  | .notified request now events => ∃ e, events = [.packetIn e] ∧
      (e.buffer = noBuffer ∨ e.buffer < size) ∧
      (e.buffer ≠ noBuffer →
        e.data = request.frame.data.take (min request.maxLength.toNat request.frame.length)) ∧
      (e.buffer = noBuffer → e.data = request.frame.data) ∧
      (request.maxLength = wholePacket ∨ size = 0 → e.buffer = noBuffer) ∧
      ∀ p, kept e.buffer before = some p → timeout ≤ now - p.savedAt
  | .taken id result => result = (kept id before).map (·.frame)

namespace Notifier

/-- The buffers of a notifier hold what its records say. -/
structure Keeps (size : UInt32) (timeout : Time) (log : List BufferRecord) (n : Notifier) :
    Prop where
  listens : n.listens .packetIn = true
  places : n.buffers.size = size
  waits : n.buffers.timeout = timeout
  saved : ∀ id : UInt32, n.buffers.saved.get? id.toNat = kept id log
  recorded : ∀ before r after, log = before ++ r :: after → Recorded size timeout before r

variable {size : UInt32} {timeout : Time} {log : List BufferRecord} {n : Notifier}

/-- A record is added to those of a notifier. -/
theorem Keeps.recorded_concat (keeps : n.Keeps size timeout log) {r : BufferRecord}
    (follows : Recorded size timeout log r) :
    ∀ before r' after, log ++ [r] = before ++ r' :: after → Recorded size timeout before r' := by
  intro before r' after split
  rcases List.eq_nil_or_concat after with rfl | ⟨after, last, rfl⟩
  · obtain ⟨rfl, same⟩ := List.append_inj' split rfl
    obtain rfl := List.singleton_inj.mp same
    exact follows
  · rw [List.concat_eq_append, ← List.cons_append, ← List.append_assoc] at split
    exact keeps.recorded before r' after (List.append_inj' split rfl).1

/-- A packet is told whole, or it is told in part and kept in the next place. -/
theorem notifyPacket_cases (listens : n.listens .packetIn = true) (r : PacketInRequest)
    (now : Time) : ∃ e, (n.notifyPacket r now).delivered = n.delivered ++ [.packetIn e] ∧
      (n.notifyPacket r now).listened = n.listened ∧
      (e.buffer = noBuffer ∧ e.data = r.frame.data ∧ (n.notifyPacket r now).buffers = n.buffers ∨
        r.maxLength ≠ wholePacket ∧ n.buffers.isReady now = true ∧ e.buffer ≠ noBuffer ∧
          e.buffer.toNat = n.buffers.next ∧ e.data = r.frame.data.take r.maxLength.toNat ∧
          (n.notifyPacket r now).buffers = { n.buffers with
            next := (n.buffers.next + 1) % n.buffers.size.toNat
            saved := n.buffers.saved.insert n.buffers.next ⟨r.frame, now⟩ }) := by
  have told (buffers : PacketBuffers) (e : PacketIn) :
      { n with buffers }.notify (.packetIn e) =
        { n with buffers, delivered := n.delivered ++ [.packetIn e] } := if_pos listens
  have delivers : ¬ (!n.listens .packetIn) = true := by simp [listens]
  unfold notifyPacket
  rw [if_neg delivers]
  by_cases whole : r.maxLength = wholePacket
  · rw [if_pos whole]
    dsimp only
    rw [told]
    exact ⟨_, rfl, rfl, .inl ⟨rfl, rfl, rfl⟩⟩
  · rw [if_neg whole, PacketBuffers.save]
    by_cases ready : n.buffers.isReady now = true
    · have inside : n.buffers.next < n.buffers.size.toNat := by
        have both := (Bool.and_eq_true_iff.mp ready).1
        exact of_decide_eq_true both
      have small := n.buffers.size.toNat_lt
      have place : n.buffers.next.toUInt32.toNat = n.buffers.next := by
        rw [Nat.toUInt32_eq, UInt32.toNat_ofNat']
        omega
      rw [if_pos ready]
      dsimp only
      rw [told]
      refine ⟨_, rfl, rfl, .inr ⟨whole, ready, ?_, place, rfl, rfl⟩⟩
      intro none
      have last : noBuffer.toNat = 2 ^ 32 - 1 := rfl
      have same := congrArg UInt32.toNat none
      simp only [Option.map_some, Option.getD_some] at same
      omega
    · rw [if_neg ready]
      dsimp only
      rw [told]
      exact ⟨_, rfl, rfl, .inl ⟨rfl, rfl, rfl⟩⟩

theorem concerns_notified (r : PacketInRequest) (now : Time) (e : PacketIn) (id : UInt32) :
    (BufferRecord.notified r now [.packetIn e]).concerns id =
      decide (e.buffer ≠ noBuffer ∧ e.buffer = id) := by
  by_cases unbuffered : e.buffer = noBuffer <;>
    simp [BufferRecord.concerns, BufferRecord.carries, BufferRecord.takes, Event.buffer?,
      unbuffered]

/-- After a packet was told the places hold what the records say. -/
theorem Keeps.notify (keeps : n.Keeps size timeout log) (r : PacketInRequest) (now : Time) :
    (n.step (.notify r now)).2.Keeps size timeout (log ++ [(n.step (.notify r now)).1]) := by
  obtain ⟨e, delivered, listened, outcome⟩ := notifyPacket_cases keeps.listens r now
  have record : (n.step (.notify r now)).1 = .notified r now [.packetIn e] := by
    rw [step, delivered, List.drop_left]
  have listens : (n.notifyPacket r now).listens .packetIn = true := by
    rw [Notifier.listens, listened]
    exact keeps.listens
  rw [record]
  show (n.notifyPacket r now).Keeps size timeout _
  obtain ⟨unbuffered, data, same⟩ | ⟨partly, ready, buffered, place, data, kept'⟩ := outcome
  · have follows : Recorded size timeout log (.notified r now [.packetIn e]) := by
      refine ⟨e, rfl, .inl unbuffered, fun buffered => absurd unbuffered buffered, fun _ => data,
        fun _ => unbuffered, fun p found => ?_⟩
      rw [unbuffered, kept_noBuffer] at found
      cases found
    refine ⟨listens, by rw [same, keeps.places], by rw [same, keeps.waits], fun id => ?_,
      keeps.recorded_concat follows⟩
    rw [same, keeps.saved, kept_concat, concerns_notified,
      decide_eq_false fun told => told.1 unbuffered]
    rfl
  · obtain ⟨inside, free⟩ := Bool.and_eq_true_iff.mp ready
    have inside : n.buffers.next < n.buffers.size.toNat := of_decide_eq_true inside
    rw [keeps.places] at inside
    have follows : Recorded size timeout log (.notified r now [.packetIn e]) := by
      refine ⟨e, rfl, .inr ?_, fun _ => ?_, fun unbuffered => absurd unbuffered buffered,
        fun unwanted => ?_, fun p found => ?_⟩
      · rw [UInt32.lt_iff_toNat_lt, place]
        exact inside
      · rw [data, Frame.length, ← List.take_eq_take_min]
      · rcases unwanted with whole | empty
        · exact absurd whole partly
        · rw [empty] at inside
          exact absurd inside (Nat.not_lt_zero _)
      · rw [← keeps.saved, place] at found
        rw [found, keeps.waits] at free
        simpa using free
    refine ⟨listens, by rw [kept', keeps.places], by rw [kept', keeps.waits], fun id => ?_,
      keeps.recorded_concat follows⟩
    rw [kept', kept_concat, concerns_notified, Registry.get?_insert, keeps.saved, ← place]
    by_cases here : e.buffer = id
    · have told : decide (e.buffer ≠ noBuffer ∧ e.buffer = id) = true :=
        decide_eq_true ⟨buffered, here⟩
      rw [told, here, if_pos rfl, if_pos rfl, BufferRecord.saved?]
    · have apart : ¬ id.toNat = e.buffer.toNat := fun same =>
        here (UInt32.toNat_inj.mp same.symm)
      rw [if_neg apart, if_neg (by simp [here])]

/-- A take empties its place and leaves all others. -/
theorem step_take (n : Notifier) (id : UInt32) :
    (n.step (.take id)).1 =
        .taken id (if id = noBuffer then none else (n.buffers.saved.get? id.toNat).map (·.frame)) ∧
      (n.step (.take id)).2.listened = n.listened ∧
      (n.step (.take id)).2.buffers.size = n.buffers.size ∧
      (n.step (.take id)).2.buffers.timeout = n.buffers.timeout ∧
      (id ≠ noBuffer → (n.step (.take id)).2.buffers.saved.get? id.toNat = none) ∧
      ∀ k, k ≠ id.toNat ∨ id = noBuffer →
        (n.step (.take id)).2.buffers.saved.get? k = n.buffers.saved.get? k := by
  by_cases unbuffered : id = noBuffer
  · simp [step, takePacket, PacketBuffers.take, unbuffered]
  · cases found : n.buffers.saved.get? id.toNat with
    | none => simp [step, takePacket, PacketBuffers.take, unbuffered, found]
    | some p =>
      have taken : n.step (.take id) = (.taken id (some p.frame),
          { n with buffers := { n.buffers with saved := n.buffers.saved.erase id.toNat } }) := by
        simp [step, takePacket, PacketBuffers.take, unbuffered, found]
      rw [taken, if_neg unbuffered]
      refine ⟨rfl, rfl, rfl, rfl, fun _ => ?_, fun k apart => ?_⟩
      · rw [Registry.get?_erase, if_pos rfl]
      · rw [Registry.get?_erase, if_neg (apart.resolve_right unbuffered)]

/-- After a take the places hold what the records say. -/
theorem Keeps.take (keeps : n.Keeps size timeout log) (id : UInt32) :
    (n.step (.take id)).2.Keeps size timeout (log ++ [(n.step (.take id)).1]) := by
  obtain ⟨record, listened, places, waits, emptied, others⟩ := step_take n id
  have result : (if id = noBuffer then none else (n.buffers.saved.get? id.toNat).map (·.frame)) =
      (kept id log).map (·.frame) := by
    rw [keeps.saved]
    split
    · rename_i unbuffered
      rw [unbuffered, kept_noBuffer]
      rfl
    · rfl
  have follows : Recorded size timeout log (n.step (.take id)).1 := by
    rw [record, result]
    rfl
  refine ⟨?_, by rw [places, keeps.places], by rw [waits, keeps.waits], fun other => ?_,
    keeps.recorded_concat follows⟩
  · rw [Notifier.listens, listened]
    exact keeps.listens
  · rw [kept_concat, record]
    have concerns (frame : Option Frame) :
        (BufferRecord.taken id frame).concerns other = decide (id = other) := rfl
    rw [concerns]
    by_cases same : id = other
    · subst same
      rw [decide_eq_true rfl, if_pos rfl]
      by_cases unbuffered : id = noBuffer
      · rw [others _ (.inr unbuffered), keeps.saved, unbuffered, kept_noBuffer]
        rfl
      · rw [emptied unbuffered]
        rfl
    · have apart : other.toNat ≠ id.toNat := fun equal => same (UInt32.toNat_inj.mp equal.symm)
      rw [others _ (.inl apart), keeps.saved, if_neg (by simp [same])]

theorem Keeps.step (keeps : n.Keeps size timeout log) (c : BufferCommand) :
    (n.step c).2.Keeps size timeout (log ++ [(n.step c).1]) := by
  cases c with
  | notify r now => exact keeps.notify r now
  | take id => exact keeps.take id

/-- The records of a whole run are what the places are filled by. -/
theorem Keeps.run (keeps : n.Keeps size timeout log) (commands : List BufferCommand) :
    (n.run commands).2.Keeps size timeout (log ++ (n.run commands).1) := by
  induction commands generalizing n log with
  | nil => simpa [Notifier.run] using keeps
  | cons c more ih =>
    have next := ih (keeps.step c)
    rwa [List.append_assoc] at next

/-! ## Whole runs -/

/-- A packet stays in its place, or a later one does, until it is taken. -/
theorem kept_since {id : UInt32} {front back : List BufferRecord} {r : PacketInRequest} {now : Time}
    {events : List Event} (carries : (BufferRecord.notified r now events).carries id = true)
    (untaken : ∀ record ∈ back, record.takes id = false)
    (later : ∀ t ∈ back.filterMap BufferRecord.time?, now ≤ t) :
    ∃ p, kept id (front ++ .notified r now events :: back) = some p ∧ now ≤ p.savedAt := by
  induction back using List.reverseRecOn with
  | nil =>
    refine ⟨⟨r.frame, now⟩, ?_, Nat.le_refl _⟩
    rw [kept_concat, BufferRecord.concerns, carries]
    rfl
  | append_singleton back last ih =>
    rw [← List.cons_append, ← List.append_assoc, kept_concat]
    split
    · rename_i concerns
      have kept := untaken last (by simp)
      cases last with
      | taken other frame =>
        rw [BufferRecord.concerns, kept] at concerns
        cases concerns
      | notified r' now' events' =>
        exact ⟨_, rfl, later now' (by simp [BufferRecord.time?])⟩
    · refine ih (fun record member => untaken record (List.mem_append_left _ member)) ?_
      intro t member
      refine later t ?_
      rw [List.filterMap_append]
      exact List.mem_append_left _ member

theorem after_waiting {now saved now' wait : Nat} (waited : wait ≤ now' - saved)
    (since : now ≤ saved) (inOrder : now ≤ now') : now + wait ≤ now' := by
  omega

theorem Keeps.faithful (keeps : n.Keeps size timeout log)
    (ordered : (log.filterMap BufferRecord.time?).Pairwise (· ≤ ·)) :
    Faithful size timeout log := by
  constructor
  case told =>
    intro r now events member
    obtain ⟨before, after, split⟩ := List.append_of_mem member
    obtain ⟨e, events, place, cut, whole, unwanted, -⟩ := keeps.recorded _ _ _ split
    exact ⟨e, events, place, cut, whole, unwanted⟩
  case taken =>
    intro before id result after split frame
    have follows : result = (kept id before).map (·.frame) := keeps.recorded _ _ _ split
    rw [follows, Option.map_eq_some_iff]
    constructor
    · rintro ⟨p, found, rfl⟩
      obtain ⟨front, r, now, events, back, listed, carries, apart, rfl⟩ := kept_eq_some.mp found
      exact ⟨front, r, now, events, back, listed, carries, apart, rfl⟩
    · rintro ⟨front, r, now, events, back, listed, carries, apart, rfl⟩
      exact ⟨_, kept_eq_some.mpr ⟨front, r, now, events, back, listed, carries, apart, rfl⟩, rfl⟩
  case apart =>
    intro front r now events back r' now' events' after id split carries carries' untaken
    obtain ⟨e, rfl, -, -, -, -, waited⟩ := keeps.recorded _ _ _ split
    have place : e.buffer = id := by
      by_cases unbuffered : e.buffer = noBuffer
      · simp [BufferRecord.carries, Event.buffer?, unbuffered] at carries'
      · simpa [BufferRecord.carries, Event.buffer?, unbuffered] using carries'
    rw [split] at ordered
    simp only [List.filterMap_append, List.filterMap_cons, BufferRecord.time?,
      List.pairwise_append, List.pairwise_cons] at ordered
    obtain ⟨⟨-, ⟨later, -⟩, -⟩, -, across⟩ := ordered
    have inOrder : now ≤ now' := across now (by simp) now' (by simp)
    obtain ⟨p, found, since⟩ := kept_since carries untaken later
    exact after_waiting (waited p (place ▸ found)) since inOrder

theorem time_step (n : Notifier) (c : BufferCommand) : (n.step c).1.time? = c.time? := by
  cases c with
  | notify => rfl
  | take id =>
    rw [(step_take n id).1]
    rfl

theorem times_run (n : Notifier) (commands : List BufferCommand) :
    (n.run commands).1.filterMap BufferRecord.time? =
      commands.filterMap BufferCommand.time? := by
  induction commands generalizing n with
  | nil => rfl
  | cons c more ih =>
    rw [run, List.filterMap_cons, List.filterMap_cons, time_step, ih]

end Notifier

namespace Switch

/-- Telling packets one after the other is a run. -/
theorem run_requests (n : Notifier) (requests : List PacketInRequest) (now : Time) :
    (n.run (requests.map (.notify · now))).2 =
      requests.foldl (fun n r => n.notifyPacket r now) n := by
  induction requests generalizing n with
  | nil => rfl
  | cons r more ih => exact ih _

/-- What a pass tells the controller is told at the end of it. -/
theorem notifier_pass (sw : Switch) (now : Time) (f : Frame) (work : Setting → Run Unit) :
    ∃ requests : List PacketInRequest, (sw.pass now f work).2.notifier =
      (sw.notifier.run (requests.map (.notify · now))).2 := by
  refine ⟨((work (sw.setting now)).on (sw.start f)).2.requests, ?_⟩
  rw [run_requests]
  rfl

/-- A packet of the controller is carried out by telling packets to it. -/
theorem notifier_packetOut (sw : Switch) (port : PortNo) (actions : ActionList) (f : Option Frame)
    (now : Time) : ∃ requests : List PacketInRequest,
      (sw.packetOut noBuffer port actions f now).2.notifier =
        (sw.notifier.run (requests.map (.notify · now))).2 := by
  unfold packetOut packetFor
  rw [if_pos rfl]
  cases f with
  | none => exact ⟨[], rfl⟩
  | some f =>
    dsimp only
    split
    · exact ⟨[], rfl⟩
    · exact notifier_pass sw now _ _

/-- What is sent out of a buffer is what a take gives back. -/
theorem packetOut_buffer (sw : Switch) {buffer : UInt32} (buffered : buffer ≠ noBuffer)
    (port : PortNo) (actions : ActionList) (f : Option Frame) (now : Time) :
    sw.packetOut buffer port actions f now =
      match sw.notifier.takePacket buffer with
      | none => (.error (.refused (.badRequest .bufferUnknown)), sw)
      | some (frame, notifier) =>
        { sw with notifier }.packetOut noBuffer port actions (some frame) now := by
  unfold packetOut packetFor
  rw [if_neg buffered]
  cases sw.notifier.takePacket buffer with
  | none => rfl
  | some taken => rfl

/-- Sending a packet out is a take of its buffer, if it names one, before packets are told. -/
theorem packetOut_run (sw : Switch) (buffer : UInt32) (port : PortNo) (actions : ActionList)
    (f : Option Frame) (now : Time) : ∃ requests : List PacketInRequest,
      (sw.packetOut buffer port actions f now).2.notifier =
        (sw.notifier.run ((if buffer = noBuffer then [] else [.take buffer]) ++
          requests.map (.notify · now))).2 := by
  by_cases unbuffered : buffer = noBuffer
  · rw [unbuffered, if_pos rfl]
    exact sw.notifier_packetOut port actions f now
  · rw [if_neg unbuffered, sw.packetOut_buffer unbuffered]
    cases taken : sw.notifier.takePacket buffer with
    | none =>
      refine ⟨[], ?_⟩
      show sw.notifier = (sw.notifier.step (.take buffer)).2
      rw [Notifier.step, taken]
    | some found =>
      obtain ⟨frame, notifier⟩ := found
      obtain ⟨requests, told⟩ :=
        { sw with notifier }.notifier_packetOut port actions (some frame) now
      have emptied : (sw.notifier.step (.take buffer)).2 = notifier := by
        rw [Notifier.step, taken]
      refine ⟨requests, told.trans ?_⟩
      rw [← emptied]
      rfl

end Switch

namespace Notifier

/-- Packets that are kept for the controller are neither lost nor mixed up, and a packet-out takes
the packet that it sends from the same places. -/
theorem packets_faithful {listened : List EventKind} (listening : .packetIn ∈ listened)
    (size : UInt32) (timeout : Time) {commands : List BufferCommand}
    (ordered : (commands.filterMap BufferCommand.time?).Pairwise (· ≤ ·)) :
    Faithful size timeout (run { listened, buffers := { size, timeout } } commands).1 ∧
      ∀ (sw : Switch) (buffer : UInt32) (port : PortNo) (actions : ActionList) (f : Option Frame)
        (now : Time),
        (∃ requests : List PacketInRequest, (sw.packetOut buffer port actions f now).2.notifier =
          (sw.notifier.run ((if buffer = noBuffer then [] else [.take buffer]) ++
            requests.map (.notify · now))).2) ∧
        (buffer ≠ noBuffer → sw.packetOut buffer port actions f now =
          match sw.notifier.takePacket buffer with
          | none => (.error (.refused (.badRequest .bufferUnknown)), sw)
          | some (frame, notifier) =>
            { sw with notifier }.packetOut noBuffer port actions (some frame) now) := by
  have empty : Keeps size timeout [] { listened, buffers := { size, timeout } } := by
    refine ⟨List.contains_iff_mem.mpr listening, rfl, rfl, fun id => rfl, ?_⟩
    intro before r after split
    cases before <;> cases split
  have keeps := empty.run commands
  refine ⟨keeps.faithful ?_, fun sw buffer port actions f now =>
    ⟨sw.packetOut_run buffer port actions f now, fun buffered =>
      sw.packetOut_buffer buffered port actions f now⟩⟩
  rw [List.nil_append, times_run]
  exact ordered

/-- Two places are filled, the third packet finds none, and the fourth is kept where the first was
kept a second ago. -/
theorem packets_faithful_reused :
    let request (n : Nat) : PacketInRequest := ⟨.action, 3, 7, .any, ⟨List.replicate n 0, none⟩, 10⟩
    let commands : List BufferCommand :=
      [.notify (request 80) 0, .notify (request 80) 0, .notify (request 80) 500000,
        .notify (request 90) 1000000, .take 0]
    let log := (run { listened := [.packetIn], buffers := { size := 2, timeout := 1000000 } }
      commands).1
    Faithful 2 1000000 log ∧ log.map (·.carries 0) = [true, false, false, true, false] ∧
      (log.getLast?.any fun
        | .taken 0 (some frame) => frame.length == 90
        | _ => false) = true := by
  intro request commands log
  exact ⟨(packets_faithful (List.mem_singleton_self _) 2 1000000 (by decide)).1, by decide +kernel,
    by decide +kernel⟩

end Notifier

end FlowSwitch
