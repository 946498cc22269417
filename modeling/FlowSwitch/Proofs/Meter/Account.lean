import FlowSwitch.Proofs.Flow.Instruction
import FlowSwitch.Proofs.Meter.Reckoning
import FlowSwitch.Tables.Command

/-!
# The books of a meter

Over any run of changes to meters and of frames sent through them the bands of a meter count no
more packets than the meter does, and the bands that drop count one packet for each frame that
was dropped. That holds whatever the comparisons of rates come to, as long as the packets of the
meter can be counted.
-/

namespace FlowSwitch

theorem Counter.packets_add {c : Counter} (room : c.packets.toNat + 1 < UInt64.size)
    (length : Nat) : (c.add length).packets.toNat = c.packets.toNat + 1 := by
  rw [Counter.add, UInt64.toNat_add]
  exact Nat.mod_eq_of_lt room

namespace Ledger

/-- The packets of a band, if it is of one of some types. -/
def share (counts : BandType → Bool) (b : BandConfig × Counter) : Nat :=
  if counts b.1.type then b.2.packets.toNat else 0

/-- The packets counted in the bands of some types. -/
def total (l : Ledger) (counts : BandType → Bool) : Nat := (l.bands.map (share counts)).sum

/-- The bands count no more packets than the meter. -/
def Sound (l : Ledger) : Prop := l.total (fun _ => true) ≤ l.own.packets.toNat

/-- The bands have counted nothing. -/
def Fresh (l : Ledger) : Prop := ∀ b ∈ l.bands, b.2 = {}

variable {l : Ledger} {counts : BandType → Bool}

theorem Fresh.total (fresh : l.Fresh) (counts : BandType → Bool) : l.total counts = 0 := by
  refine List.sum_eq_zero fun n listed => ?_
  obtain ⟨b, inside, rfl⟩ := List.mem_map.mp listed
  rw [share, fresh b inside]
  split <;> rfl

theorem Fresh.sound (fresh : l.Fresh) : l.Sound := by
  rw [Sound, fresh.total]
  exact Nat.zero_le _

/-- What is counted in one band adds to the totals that this band is a part of. Induction on the
bands. -/
theorem sum_modify {bands : List (BandConfig × Counter)} {i : Nat} {b : BandConfig × Counter}
    (there : bands[i]? = some b) (room : b.2.packets.toNat + 1 < UInt64.size) (length : Nat) :
    ((bands.modify i (Prod.map id (·.add length))).map (share counts)).sum =
      (bands.map (share counts)).sum + if counts b.1.type then 1 else 0 := by
  induction bands generalizing i with
  | nil => cases there
  | cons c bands ih =>
    cases i with
    | zero =>
      obtain rfl := Option.some.inj there
      have more : share counts (Prod.map id (·.add length) c) =
          share counts c + if counts c.1.type then 1 else 0 := by
        simp only [share, Prod.map, id]
        split
        · exact Counter.packets_add room length
        · rfl
      rw [List.modify_zero_cons, List.map_cons, List.map_cons, List.sum_cons, List.sum_cons, more]
      omega
    | succ i =>
      rw [List.modify_succ_cons, List.map_cons, List.map_cons, List.sum_cons, List.sum_cons,
        ih there]
      omega

variable {place : Option Nat}

/-- Each band of a sound ledger can count if the meter can. -/
theorem total_charge (sound : l.Sound) (room : l.own.packets.toNat + 1 < UInt64.size)
    (inside : ∀ i, place = some i → i < l.bands.length) (length : Nat) :
    (l.charge place length).total counts =
      l.total counts + if (l.type? place).any counts then 1 else 0 := by
  cases place with
  | none => rfl
  | some i =>
    have inside := inside i rfl
    have there := List.getElem?_eq_getElem inside
    have atMost : l.bands[i].2.packets.toNat ≤ l.total fun _ => true :=
      List.le_sum_of_mem (List.mem_map.mpr ⟨_, List.mem_of_getElem? there, rfl⟩)
    have type : l.type? (some i) = some l.bands[i].1.type := by
      rw [type?, Option.bind_some, there, Option.map_some]
    rw [type, Option.any_some]
    exact sum_modify there (by unfold Sound at sound; omega) length

theorem Sound.charge (sound : l.Sound) (room : l.own.packets.toNat + 1 < UInt64.size)
    (inside : ∀ i, place = some i → i < l.bands.length) (length : Nat) :
    (l.charge place length).Sound := by
  have own : (l.charge place length).own.packets.toNat = l.own.packets.toNat + 1 :=
    Counter.packets_add room length
  rw [Sound, total_charge sound room inside, own]
  unfold Sound at sound
  split <;> omega

end Ledger

/-- What can be done to meters: frames are sent through them, each with an arithmetic of its own,
and they change. -/
inductive MeterCommand
  | police (r : Reckoning) (id : MeterId) (f : Frame) (now : Time)
  | add (id : MeterId) (flags : MeterFlags) (bands : List BandConfig) (now : Time)
  | replace (id : MeterId) (flags : MeterFlags) (bands : List BandConfig)
  | remove (id : MeterId)
  | reference (id : MeterId)
  | unreference (id : MeterId)

namespace MeterTable

def ledger? (t : MeterTable) (id : MeterId) : Option Ledger := (t.get? id).map Meter.ledger

def step (t : MeterTable) : MeterCommand → MeterTable
  | .police r id f now => (t.policeBy r id f now).2.2
  | .add id flags bands now => unlessRefused t (t.add id flags bands now)
  | .replace id flags bands => unlessRefused t (t.replace id flags bands)
  | .remove id => unlessRefused t (t.remove id)
  | .reference id => t.reference id
  | .unreference id => t.unreference id

def run (t : MeterTable) (commands : List MeterCommand) : MeterTable := commands.foldl step t

/-- The frames that a command has a meter drop: one or none. -/
def drops (t : MeterTable) (id : MeterId) : MeterCommand → Nat
  | .police r j f now =>
    if j = id ∧ (t.policeBy r j f now).1 = .error .dropPacket then 1 else 0
  | _ => 0

/-- How many frames a meter drops while commands are carried out. -/
def dropped (t : MeterTable) (id : MeterId) : List MeterCommand → Nat
  | [] => 0
  | c :: cs => t.drops id c + (t.step c).dropped id cs

/-- A meter that a frame is sent through can count it. -/
def Counts (id : MeterId) (t : MeterTable) : MeterCommand → Prop
  | .police _ j _ _ => j = id → ∀ m ∈ t.get? id, m.counter.packets.toNat + 1 < UInt64.size
  | _ => True

/-- A command gives a meter other bands, or takes it away. -/
def Renews (id : MeterId) (t : MeterTable) : MeterCommand → Prop
  | .add j flags bands now => j = id ∧ (t.add j flags bands now).isOk
  | .replace j flags bands => j = id ∧ (t.replace j flags bands).isOk
  | .remove j => j = id ∨ j = MeterId.all ∧ id.isOrdinary = true
  | _ => False

instance (id : MeterId) (t : MeterTable) : DecidablePred (Counts id t)
  | .police _ j _ _ =>
    inferInstanceAs
      (Decidable (j = id → ∀ m ∈ t.get? id, m.counter.packets.toNat + 1 < UInt64.size))
  | .add .. | .replace .. | .remove _ | .reference _ | .unreference _ => isTrue trivial

instance (id : MeterId) (t : MeterTable) : DecidablePred (Renews id t)
  | .add j flags bands now => inferInstanceAs (Decidable (j = id ∧ (t.add j flags bands now).isOk))
  | .replace j flags bands => inferInstanceAs (Decidable (j = id ∧ (t.replace j flags bands).isOk))
  | .remove j => inferInstanceAs (Decidable (j = id ∨ j = MeterId.all ∧ id.isOrdinary = true))
  | .police .. | .reference _ | .unreference _ => isFalse not_false

/-- What a command does to the books of a meter, with the frames that it has dropped. -/
inductive Posting (renews : Prop) : Option Ledger → Nat → Option Ledger → Prop
  | keep (l : Option Ledger) : Posting renews l 0 l
  | charge {l : Ledger} {place : Option Nat} (length : Nat)
      (inside : ∀ i, place = some i → i < l.bands.length)
      (room : l.own.packets.toNat + 1 < UInt64.size) :
      Posting renews (some l) (if l.type? place = some .drop then 1 else 0)
        (some (l.charge place length))
  | renew {l l' : Option Ledger} (renewed : renews) (fresh : ∀ m ∈ l', m.Fresh) :
      Posting renews l 0 l'

theorem Posting.of_same {renews : Prop} {l l' : Option Ledger} (same : l' = l) :
    Posting renews l 0 l' := by
  rw [same]
  exact .keep l

theorem Posting.sound {renews : Prop} {l l' : Option Ledger} {n : Nat}
    (posting : Posting renews l n l') (sound : ∀ m ∈ l, m.Sound) : ∀ m ∈ l', m.Sound := by
  cases posting with
  | keep => exact sound
  | charge length inside room =>
    intro m is
    obtain rfl := Option.some.inj is
    exact (sound _ rfl).charge room inside length
  | renew renewed fresh => exact fun m is => (fresh m is).sound

/-- Unless a command gives the meter other bands, those that drop count what is dropped. -/
theorem Posting.total {renews : Prop} {l l' : Option Ledger} {n : Nat}
    (posting : Posting renews l n l') (same : ¬ renews) (sound : ∀ m ∈ l, m.Sound) :
    ∀ m ∈ l, ∃ m' ∈ l', m'.total (· == .drop) = m.total (· == .drop) + n := by
  cases posting with
  | keep => exact fun m is => ⟨m, is, rfl⟩
  | @charge m place length inside room =>
    intro m' is
    obtain rfl := Option.some.inj is
    refine ⟨_, rfl, ?_⟩
    rw [Ledger.total_charge (sound _ rfl) room inside]
    cases m.type? place with
    | none => rfl
    | some type => simp
  | renew renewed => exact absurd renewed same

variable {t : MeterTable} {id : MeterId}

theorem ledger?_modify (t : MeterTable) (j id : MeterId) (change : Meter → Meter) :
    ledger? (t.modify j change) id =
      if id = j then (t.get? id).map fun m => (change m).ledger else t.ledger? id := by
  rw [ledger?, Registry.get?_modify]
  split
  · rw [Option.map_map]
    rfl
  · rfl

theorem ledger?_insert (t : MeterTable) (j id : MeterId) (m : Meter) :
    ledger? (t.insert j m) id = if id = j then some m.ledger else t.ledger? id := by
  rw [ledger?, Registry.get?_insert]
  split <;> rfl

theorem ledger?_erase (t : MeterTable) (j id : MeterId) :
    ledger? (t.erase j) id = if id = j then none else t.ledger? id := by
  rw [ledger?, Registry.get?_erase]
  split <;> rfl

theorem ledger?_filterKeys (t : MeterTable) (p : MeterId → Bool) (id : MeterId) :
    ledger? (t.filterKeys p) id = if p id then t.ledger? id else none := by
  rw [ledger?, Registry.get?_filterKeys]
  split <;> rfl

theorem ledger?_of_kept (t : MeterTable) (j id : MeterId) {change : Meter → Meter}
    (kept : ∀ m, (change m).ledger = m.ledger) :
    ledger? (t.modify j change) id = t.ledger? id := by
  rw [ledger?_modify]
  split
  · rw [ledger?]
    exact congrArg (t.get? id).map (funext kept)
  · rfl

theorem setDscp_result (f : Frame) (dscp : BitVec 8) :
    (f.setDscp dscp).1 ≠ .error .dropPacket := by
  unfold Frame.setDscp Frame.alter Frame.edit
  repeat' split
  all_goals simp

theorem posting_police (r : Reckoning) (j : MeterId) (f : Frame) (now : Time)
    (counts : Counts id t (.police r j f now)) (renews : Prop) :
    Posting renews (t.ledger? id)
      (if j = id ∧ (t.policeBy r j f now).1 = .error .dropPacket then 1 else 0)
      ((t.policeBy r j f now).2.2.ledger? id) := by
  cases held : t.get? j with
  | none =>
    have refused : t.policeBy r j f now = (.error .notFound, f, t) := by rw [policeBy, held]
    rw [refused, if_neg (by simp)]
    exact .keep _
  | some m =>
    obtain ⟨place, change, inside, ledger, done⟩ := policeBy_cases r held f now
    -- Whatever becomes of the frame, it is dropped if and only if the band drops.
    have told : (t.policeBy r j f now).2.2 = t.modify j change ∧
        ((t.policeBy r j f now).1 = .error .dropPacket ↔
          m.ledger.type? place = some .drop) := by
      rcases done with plain | ⟨type, -, by_, remarked⟩
      · rw [plain]
        refine ⟨rfl, ?_⟩
        dsimp only
        split
        · simp [*]
        · simp [*]
      · rw [remarked, type]
        exact ⟨rfl, iff_of_false (setDscp_result f _) (by simp)⟩
    simp only [told.1, told.2, ledger?_modify]
    by_cases same : id = j
    · subst same
      have books : t.ledger? id = some m.ledger := by rw [ledger?, held, Option.map_some]
      rw [if_pos rfl, held, Option.map_some, ledger, books]
      simp only [true_and]
      exact .charge f.length (by simpa [Meter.ledger] using inside) (counts rfl m held)
    · rw [if_neg same, if_neg fun both => same both.1.symm]
      exact .keep _

theorem fresh_of_bands {m : Meter} {bands : List BandConfig}
    (made : m.bands = bands.map ({ config := · })) : m.ledger.Fresh := by
  intro b listed
  rw [Meter.ledger, made, List.map_map] at listed
  obtain ⟨config, -, rfl⟩ := List.mem_map.mp listed
  rfl

theorem posting_add (j : MeterId) (flags : MeterFlags) (bands : List BandConfig) (now : Time) :
    Posting (Renews id t (.add j flags bands now)) (t.ledger? id) 0
      ((unlessRefused t (t.add j flags bands now)).ledger? id) := by
  cases added : t.add j flags bands now with
  | error e => exact .keep _
  | ok t' =>
    have inserted : t' = t.insert j
        { flags, bands := bands.map ({ config := · }), createdAt := now, measuredAt := now } := by
      unfold add at added
      dsimp only [throw, throwThe, MonadExceptOf.throw] at added
      split at added
      · cases added
      · split at added
        · cases added
        · obtain ⟨_, -, done⟩ := bind_eq_ok.mp added
          exact (Except.ok.inj done).symm
    subst inserted
    rw [unlessRefused, ledger?_insert]
    split
    · rename_i same
      refine .renew ⟨same.symm, by rw [added]; rfl⟩ fun l is => ?_
      obtain rfl := Option.some.inj is
      exact fresh_of_bands rfl
    · exact .keep _

theorem posting_replace (j : MeterId) (flags : MeterFlags) (bands : List BandConfig) :
    Posting (Renews id t (.replace j flags bands)) (t.ledger? id) 0
      ((unlessRefused t (t.replace j flags bands)).ledger? id) := by
  cases replaced : t.replace j flags bands with
  | error e => exact .keep _
  | ok t' =>
    have modified : t' = t.modify j fun m =>
        { m with flags, bands := bands.map ({ config := · }) } := by
      unfold replace at replaced
      dsimp only [throw, throwThe, MonadExceptOf.throw] at replaced
      split at replaced
      · cases replaced
      · obtain ⟨_, -, done⟩ := bind_eq_ok.mp replaced
        exact (Except.ok.inj done).symm
    subst modified
    rw [unlessRefused, ledger?_modify]
    split
    · rename_i same
      refine .renew ⟨same.symm, by rw [replaced]; rfl⟩ fun l is => ?_
      obtain ⟨m, -, rfl⟩ := Option.map_eq_some_iff.mp is
      exact fresh_of_bands rfl
    · exact .keep _

theorem posting_remove (j : MeterId) :
    Posting (Renews id t (.remove j)) (t.ledger? id) 0
      ((unlessRefused t (t.remove j)).ledger? id) := by
  have gone {renews : Prop} (renewed : renews) : Posting renews (t.ledger? id) 0 none :=
    .renew renewed fun l is => by cases is
  unfold remove
  split
  · rename_i all
    rw [unlessRefused, ledger?_filterKeys]
    split
    · exact .keep _
    · rename_i ordinary
      exact gone (.inr ⟨all, by simpa using ordinary⟩)
  · split
    · rw [unlessRefused, ledger?_erase]
      split
      · rename_i same
        exact gone (.inl same.symm)
      · exact .keep _
    · exact .keep _

theorem posting (c : MeterCommand) (counts : Counts id t c) :
    Posting (Renews id t c) (t.ledger? id) (t.drops id c) ((t.step c).ledger? id) := by
  cases c with
  | police r j f now => exact posting_police r j f now counts _
  | add j flags bands now => exact posting_add j flags bands now
  | replace j flags bands => exact posting_replace j flags bands
  | remove j => exact posting_remove j
  | reference j => exact .of_same (ledger?_of_kept t j id fun _ => rfl)
  | unreference j => exact .of_same (ledger?_of_kept t j id fun _ => rfl)

/-- Something holds of each command and of the meters that it comes to. -/
def Throughout (p : MeterTable → MeterCommand → Prop) : MeterTable → List MeterCommand → Prop
  | _, [] => True
  | t, c :: cs => p t c ∧ Throughout p (t.step c) cs

instance Throughout.decidable (p : MeterTable → MeterCommand → Prop) [∀ t, DecidablePred (p t)] :
    ∀ t, DecidablePred (Throughout p t)
  | _, [] => isTrue trivial
  | t, c :: cs =>
    have := Throughout.decidable p (t.step c) cs
    inferInstanceAs (Decidable (p t c ∧ Throughout p (t.step c) cs))

theorem throughout_append {p : MeterTable → MeterCommand → Prop} {cs ds : List MeterCommand} :
    Throughout p t (cs ++ ds) ↔ Throughout p t cs ∧ Throughout p (t.run cs) ds := by
  induction cs generalizing t with
  | nil => exact ⟨fun rest => ⟨trivial, rest⟩, fun both => both.2⟩
  | cons c cs ih =>
    rw [List.cons_append, Throughout, ih, Throughout, and_assoc]
    rfl

theorem sound_run {cs : List MeterCommand} (counts : Throughout (Counts id) t cs)
    (sound : ∀ l ∈ t.ledger? id, l.Sound) : ∀ l ∈ (t.run cs).ledger? id, l.Sound := by
  induction cs generalizing t with
  | nil => exact sound
  | cons c cs ih => exact ih counts.2 ((posting c counts.1).sound sound)

theorem total_run {cs : List MeterCommand} (counts : Throughout (Counts id) t cs)
    (same : Throughout (fun t c => ¬ Renews id t c) t cs) (sound : ∀ l ∈ t.ledger? id, l.Sound) :
    ∀ l ∈ t.ledger? id, ∃ l' ∈ (t.run cs).ledger? id,
      l'.total (· == .drop) = l.total (· == .drop) + t.dropped id cs := by
  induction cs generalizing t with
  | nil => exact fun l is => ⟨l, is, rfl⟩
  | cons c cs ih =>
    intro l is
    have step := posting c counts.1
    obtain ⟨m, next, first⟩ := step.total same.1 sound l is
    obtain ⟨l', last, rest⟩ := ih counts.2 same.2 (step.sound sound) m next
    refine ⟨l', last, ?_⟩
    rw [rest, first, dropped, Nat.add_assoc]

/-- What the books of a meter tell after some commands and after some more. -/
structure Balanced (id : MeterId) (before after : List MeterCommand) : Prop where
  bands : ∀ l ∈ (run .empty before).ledger? id, l.total (fun _ => true) ≤ l.own.packets.toNat
  dropped : Throughout (fun t c => ¬ Renews id t c) (run .empty before) after →
    ∀ l ∈ (run .empty before).ledger? id, ∃ l' ∈ (run .empty (before ++ after)).ledger? id,
      l'.total (· == .drop) = l.total (· == .drop) + (run .empty before).dropped id after

/-- Meters account for every frame that is sent through them, whatever the comparisons of rates
come to, those of the meters' own arithmetic included. So their books balance in every run in
which their packets can be counted. -/
theorem accounts_balanced {id : MeterId} {before after : List MeterCommand}
    (counts : Throughout (Counts id) .empty (before ++ after)) {f : Frame}
    (known : f.view = none ∨ f.Consistent) (r : Reckoning) (t : MeterTable) (now : Time) :
    t.Accounts id f (t.policeBy r id f now) ∧ t.Accounts id f (t.police id f now) ∧
      Balanced id before after := by
  obtain ⟨first, later⟩ := throughout_append.mp counts
  have sound : ∀ l ∈ (run .empty before).ledger? id, l.Sound :=
    sound_run first fun l is => by cases is
  refine ⟨policeBy_accounts known r t id now, ?_, sound, fun same => ?_⟩
  · rw [police_eq]
    exact policeBy_accounts known .floating t id now
  · have joined : run .empty (before ++ after) = (run .empty before).run after :=
      List.foldl_append
    rw [joined]
    exact total_run later same sound

/-- Every rate is exceeded and no bucket overflows. -/
def crowded : Reckoning where
  drained _ _ _ := 0
  overflows _ _ _ := false
  exceeds _ _ _ _ := true
  estimate m _ _ _ := m.estimate

/-- A segment of an assured forwarding class. -/
def assured : Frame := (Frame.setDscp 10 ⟨Frame.segment, some ⟨Frame.segmentHeaders, {}⟩⟩).2

def remarkOnly : List BandConfig := [⟨.dscpRemark, 1, 0, 1⟩]

/-- A meter remarks a frame, and with other bands it drops one. -/
def busyMeter : List MeterCommand :=
  [.add 1 {} remarkOnly 0, .police crowded 1 assured 0,
    .replace 1 {} (⟨.drop, 2, 0, 0⟩ :: remarkOnly), .police crowded 1 assured 0]

theorem accounts_balanced_busyMeter :
    Throughout (Counts 1) .empty (busyMeter ++ [.police crowded 1 assured 0]) ∧
      assured.Consistent ∧
      (run .empty (busyMeter.take 1)).Accounts 1 assured
        ((run .empty (busyMeter.take 1)).policeBy crowded 1 assured 0) ∧
      Balanced 1 busyMeter [.police crowded 1 assured 0] ∧
      ((run .empty (busyMeter.take 1)).policeBy crowded 1 assured 0).2.1.dscp = 11 ∧
      (run .empty busyMeter).dropped 1 [.police crowded 1 assured 0] = 1 ∧
      ((run .empty busyMeter).ledger? 1).map (fun l => (l.own.packets, l.total fun _ => true)) =
        some (2, 1) := by
  have counts : Throughout (Counts 1) .empty (busyMeter ++ [.police crowded 1 assured 0]) := by
    decide +kernel
  have read : Headers.parse Frame.segment = .ok Frame.segmentHeaders := by decide +kernel
  have consistent : assured.Consistent := by
    obtain ⟨g, set, recoded⟩ := Frame.setDscp_recoded
      (f := ⟨Frame.segment, some ⟨Frame.segmentHeaders, {}⟩⟩) rfl read rfl 10
    rw [assured, set]
    exact recoded.consistent
  obtain ⟨accounts, -, balanced⟩ := accounts_balanced counts (.inr consistent) crowded
    (run .empty (busyMeter.take 1)) 0
  exact ⟨counts, consistent, accounts, balanced, by decide +kernel, by decide +kernel,
    by decide +kernel⟩

end MeterTable

end FlowSwitch
