import FlowSwitch.Proofs.Packet.Commute

/-!
# Datagrams without a checksum

Once the checksum of a UDP datagram is zero it stays zero. Apart from that word a datagram with a
checksum is written like one without, so what setting fields leaves of a frame is known from two
runs that do not look at the checksum in between: one that always keeps it up and one that never
does.
-/

namespace FlowSwitch

namespace FieldWrite

/-- A checksum that is overwritten need not have followed anything. -/
theorem setWord_adjust {sums : List Nat} {c : Nat} (only : ∀ p ∈ sums, p = c)
    (old new w : BitVec 16) (d : Bytes) : (adjust sums old new d).setWord c w = d.setWord c w := by
  rw [adjust_eq]
  induction sums generalizing d with
  | nil => rfl
  | cons p sums ih =>
    obtain ⟨rfl, only⟩ := List.forall_mem_cons.mp only
    rw [List.foldl_cons, ih only, follow]
    split
    · exact Bytes.setWord_setWord ..
    · rfl

end FieldWrite

namespace Edit

theorem setWord_apply_more (e : Edit) {more : List Nat} {c : Nat} (only : ∀ p ∈ more, p = c)
    (w : BitVec 16) (d : Bytes) :
    (apply d { e with sums := e.sums ++ more }).setWord c w = (apply d e).setWord c w := by
  unfold apply
  dsimp only
  split
  · rename_i v there
    have same : becomes { e with sums := e.sums ++ more } v = e.becomes v := rfl
    rw [same]
    split
    · rfl
    · rw [FieldWrite.adjust_eq, List.foldl_append, ← FieldWrite.adjust_eq,
        ← FieldWrite.adjust_eq, FieldWrite.setWord_adjust only]
  · rfl

end Edit

namespace Headers

variable {h : Headers} {d₀ d : Bytes} {live : Bool}

/-- Leaves a UDP datagram without a checksum. -/
def silence (h : Headers) (d : Bytes) : Bytes :=
  match h.transport with
  | some ⟨o, .udp .., _⟩ => d.setWord (o + 6) 0
  | _ => d

@[simp]
theorem length_silence (h : Headers) (d : Bytes) : (h.silence d).length = d.length := by
  unfold silence
  split
  · exact Bytes.length_setWord ..
  · rfl

theorem silence_of_dead (dead : h.live d = false) : h.silence d = d := by
  unfold live at dead
  unfold silence
  split
  · rename_i o a b p is
    rw [is] at dead
    have zero : d.word 2 (o + 6) = 0 := by simpa using dead
    cases there : d.word? 2 (o + 6) with
    | none => exact Bytes.setWord_of_short (Bytes.word?_eq_none.mp there)
    | some w =>
      rw [Bytes.word_of_word? there] at zero
      exact Bytes.setWord_self (zero ▸ there)
  · rfl

theorem live_of_other (other : ∀ o a b p, h.transport ≠ some ⟨o, .udp a b, p⟩) (d : Bytes) :
    h.live d = true := by
  unfold live
  split
  · rename_i o a b p is
    exact absurd is (other o a b p)
  · rfl

theorem live_silence (dead : h.live d₀ = false) (d : Bytes) : h.live (h.silence d) = false := by
  unfold live at dead ⊢
  cases is : h.transport with
  | none =>
    rw [is] at dead
    cases dead
  | some t =>
    obtain ⟨o, header, p⟩ := t
    cases header with
    | udp a b =>
      have silent : h.silence d = d.setWord (o + 6) 0 := by rw [silence, is]
      show ((h.silence d).word 2 (o + 6) != 0) = false
      rw [silent, bne_eq_false_iff_eq, Bytes.word]
      by_cases fits : o + 6 + 2 ≤ d.length
      · rw [Bytes.word?_setWord_self fits]
        rfl
      · rw [Bytes.setWord_of_short (by omega), Bytes.word?_eq_none.mpr (by omega)]
        rfl
    | _ =>
      rw [is] at dead
      cases dead

/-- With a checksum in use a word may be covered by that one more. -/
theorem covering_live (h : Headers) (live : Bool) (s : Spot) :
    ∃ more, h.covering live s = h.covering false s ++ more ∧
      ∀ t ∈ more, t = (.udp, 3) ∧ ∃ o a b p, h.transport = some ⟨o, .udp a b, p⟩ := by
  have pseudo : ∃ more, h.pseudoSum live = h.pseudoSum false ++ more ∧
      ∀ t ∈ more, t = (.udp, 3) ∧ ∃ o a b p, h.transport = some ⟨o, .udp a b, p⟩ := by
    unfold pseudoSum
    split
    · exact ⟨[], rfl, nofun⟩
    · rename_i o a b p is
      cases live with
      | false => exact ⟨[], rfl, nofun⟩
      | true =>
        exact ⟨[(.udp, 3)], rfl, fun t only => ⟨List.mem_singleton.mp only, o, a, b, p, is⟩⟩
    · exact ⟨[], rfl, nofun⟩
    · exact ⟨[], rfl, nofun⟩
  obtain ⟨l, k⟩ := s
  cases l with
  | ipv4 =>
    rw [covering, covering]
    by_cases address : 6 ≤ k
    · obtain ⟨more, same, udp⟩ := pseudo
      exact ⟨more, by rw [if_pos address, if_pos address, same, List.cons_append], udp⟩
    · exact ⟨[], by rw [if_neg address, if_neg address, List.append_nil], nofun⟩
  | ipv6 =>
    rw [covering, covering]
    by_cases address : 4 ≤ k
    · rwa [if_pos address, if_pos address]
    · exact ⟨[], by rw [if_neg address, if_neg address, List.append_nil], nofun⟩
  | tcp => exact pseudo
  | udp => exact pseudo
  | _ => exact ⟨[], rfl, nofun⟩

theorem udp_not_mem_covering (h : Headers) (s : Spot) : (.udp, 3) ∉ h.covering false s := by
  have pseudo : (.udp, 3) ∉ h.pseudoSum false := by
    unfold pseudoSum
    split
    · decide
    · exact List.not_mem_nil
    · decide
    · exact List.not_mem_nil
  obtain ⟨l, k⟩ := s
  cases l with
  | ipv4 =>
    rw [covering]
    split
    · exact List.not_mem_cons_of_ne_of_not_mem (by decide) pseudo
    · decide
  | ipv6 =>
    rw [covering]
    split
    · exact pseudo
    · exact List.not_mem_nil
  | tcp => exact pseudo
  | udp => exact pseudo
  | icmpv4 => exact show (Layer.udp, 3) ∉ [(Layer.icmpv4, 1)] by decide
  | icmpv6 | target | sourceLink | targetLink =>
    exact show (Layer.udp, 3) ∉ [(Layer.icmpv6, 1)] by decide
  | _ => exact List.not_mem_nil

/-- A word that is written with a checksum, and without one. -/
theorem setWord_apply_covered (laid : h.Laid d₀) {o : Nat} {a b : BitVec 16} {p : Option Nat}
    (is : h.transport = some ⟨o, .udp a b, p⟩) {s : Spot} {i : Nat}
    (there : h.place? d₀ s = some i) (outside : s ∉ checksums) (live : Bool)
    (mask value : BitVec 16) (d : Bytes) :
    (Edit.apply d ⟨i, mask, value, (h.covering live s).filterMap (h.place? d₀)⟩).setWord (o + 6) 0 =
      Edit.apply (d.setWord (o + 6) 0)
        ⟨i, mask, value, (h.covering false s).filterMap (h.place? d₀)⟩ := by
  have sum : h.place? d₀ (.udp, 3) = some (o + 6) :=
    place?_of_transport is 3 (show 3 < Layer.udp.words by decide)
  have isSum : (Layer.udp, 3) ∈ checksums := by decide
  have apart {t : Spot} {j : Nat} (there : h.place? d₀ t = some j) (other : t ≠ (.udp, 3)) :
      j + 2 ≤ o + 6 ∨ o + 6 + (Bytes.ofWord 2 0).length ≤ j :=
    apart_of_ne laid there sum other
  obtain ⟨more, split, only⟩ := h.covering_live live s
  rw [split, List.filterMap_append]
  rw [Edit.setWord_apply_more ⟨i, mask, value, (h.covering false s).filterMap (h.place? d₀)⟩]
  · have other : s ≠ (.udp, 3) := by
      rintro rfl
      exact outside isSum
    refine (Edit.apply_overwrite (apart there other) ?_).symm
    intro q inside
    obtain ⟨t, covers, at_⟩ := List.mem_filterMap.mp inside
    exact apart at_ fun same => h.udp_not_mem_covering s (same ▸ covers)
  · intro q inside
    obtain ⟨t, listed, at_⟩ := List.mem_filterMap.mp inside
    rw [(only t listed).1, sum] at at_
    exact (Option.some.inj at_).symm

theorem silence_script (laid : h.Laid d₀) {spots : List (Spot × BitVec 16)}
    (outside : ∀ s ∈ spots, s.1 ∉ checksums) (live : Bool) (ws : List (BitVec 16)) (d : Bytes) :
    h.silence ((h.script live d₀ spots ws).foldl Edit.apply d) =
      (h.script false d₀ spots ws).foldl Edit.apply (h.silence d) := by
  by_cases udp : ∃ o a b p, h.transport = some ⟨o, .udp a b, p⟩
  · obtain ⟨o, a, b, p, is⟩ := udp
    have silent (d : Bytes) : h.silence d = d.setWord (o + 6) 0 := by rw [silence, is]
    have inside : ∀ write ∈ spots.zip ws, write.1.1 ∉ checksums := fun write paired =>
      outside write.1 (List.of_mem_zip paired).1
    unfold script
    generalize spots.zip ws = writes at inside
    induction writes generalizing d with
    | nil => rfl
    | cons write writes ih =>
      obtain ⟨plain, inside⟩ := List.forall_mem_cons.mp inside
      rw [List.filterMap_cons, List.filterMap_cons, edit?, edit?]
      cases there : h.place? d₀ write.1.1 with
      | none => exact ih d inside
      | some i =>
        simp only [Option.map_some, List.foldl_cons]
        rw [ih _ inside, silent, silent, setWord_apply_covered laid is there plain]
  · have idle (d : Bytes) : h.silence d = d := by
      unfold silence
      split
      · rename_i o a b p is
        exact absurd ⟨o, a, b, p, is⟩ udp
      · rfl
    have same (s : Spot) : h.covering live s = h.covering false s := by
      obtain ⟨more, split, only⟩ := h.covering_live live s
      cases more with
      | nil => rw [split, List.append_nil]
      | cons t more => exact absurd (only t List.mem_cons_self).2 udp
    have edits : h.edit? live d₀ = h.edit? false d₀ := by
      funext write
      rw [edit?, edit?, same]
    rw [idle, idle, script, script, edits]

theorem silence_reseal (h : Headers) (d : Bytes) :
    h.silence (h.reseal d) = h.reseal (h.silence d) := by
  cases is : h.transport with
  | none => simp only [silence, reseal, is]
  | some t =>
    obtain ⟨o, header, p⟩ := t
    cases header with
    | _ => simp only [silence, reseal, is]

theorem silence_put (laid : h.Laid d₀) (live : Bool) (f : Field) (v : BitVec f.width) (d : Bytes) :
    h.silence (h.put live d₀ f v d) = h.put false d₀ f v (h.silence d) := by
  have scripted := silence_script laid (fun s listed => (f.spots_outside s listed).1) live
    (h.spell f v) d
  unfold put resealIf
  split
  · rw [silence_reseal, edits, scripted]
    rfl
  · exact scripted

/-- Without a checksum a datagram stays without one. -/
theorem live_put (laid : h.Laid d₀) (dead : h.live d = false) (f : Field) (v : BitVec f.width) :
    h.live (h.put false d₀ f v d) = false := by
  have same := silence_put laid false f v d
  rw [silence_of_dead dead] at same
  rw [← same]
  exact live_silence dead _

/-! ## Setting the fields of a match -/

/-- Puts the value of a field, if the match gives one. -/
def putFrom (h : Headers) (live : Bool) (d₀ : Bytes) (m : Match) (d : Bytes) (f : Field) : Bytes :=
  if (m.get f).valid then h.put live d₀ f (m.get f).value d else d

/-- Puts the fields of a match without a look at the checksum in between. -/
def putAll (h : Headers) (live : Bool) (d₀ : Bytes) (m : Match) (d : Bytes) : Bytes :=
  Field.all.foldl (h.putFrom live d₀ m) d

/-- What setting fields leaves, with the checksum in use at the end and without. -/
theorem setFields_eq (laid : h.Laid d₀) (steady : h.Steady d₀ d) {m : Match}
    (plain : (m.get .ipProto).valid = false) :
    (h.live (FieldWrite.setFields h m d) = true →
      h.live d = true ∧ FieldWrite.setFields h m d = h.putAll true d₀ m d) ∧
    h.silence (FieldWrite.setFields h m d) = h.putAll false d₀ m (h.silence d) := by
  unfold FieldWrite.setFields putAll
  generalize Field.all = fields
  induction fields generalizing d with
  | nil => exact ⟨fun live => ⟨live, rfl⟩, rfl⟩
  | cons f fields ih =>
    rw [List.foldl_cons, List.foldl_cons, List.foldl_cons, putFrom, putFrom]
    cases valid : (m.get f).valid with
    | false => exact ih steady
    | true =>
      have other : f ≠ .ipProto := by
        rintro rfl
        rw [plain] at valid
        cases valid
      have set : FieldWrite.setField h d f (m.get f).value =
          h.put (h.live d) d₀ f (m.get f).value d := setField_eq laid steady other _
      obtain ⟨lives, silent⟩ := ih (steady.setField laid f (m.get f).value)
      simp only [if_true] at lives silent ⊢
      refine ⟨fun live => ?_, ?_⟩
      · obtain ⟨first, rest⟩ := lives live
        cases now : h.live d with
        | true =>
          rw [set, now] at rest ⊢
          exact ⟨rfl, rest⟩
        | false =>
          rw [set, now, live_put laid now] at first
          cases first
      · rw [silent, set, silence_put laid]

/-- A checksum that is not in use does not come into use. -/
theorem live_setFields (laid : h.Laid d₀) (steady : h.Steady d₀ d) {m : Match}
    (plain : (m.get .ipProto).valid = false) (dead : h.live d = false) :
    h.live (FieldWrite.setFields h m d) = false := by
  cases alive : h.live (FieldWrite.setFields h m d) with
  | false => rfl
  | true =>
    rw [((setFields_eq laid steady plain).1 alive).1] at dead
    cases dead

end Headers

end FlowSwitch
