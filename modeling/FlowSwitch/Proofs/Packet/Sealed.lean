import FlowSwitch.Proofs.Packet.Commute

/-!
# Packets with a code

The code of an SCTP packet is computed again right after a port is set, in the midst of the other
fields. It stays right because all of them are written before the packet; and a packet whose ports
are not set is left as it is.
-/

namespace FlowSwitch

namespace Bytes

variable {d d' s : Bytes} {o i n : Nat}

/-- Writing what is there already is the only writing that changes nothing. -/
theorem overwrite_eq_self_iff (fits : o + s.length ≤ d.length) :
    d.overwrite o s = d ↔ d.slice? o s.length = some s := by
  have parts : d = d.take o ++ (d.drop o).take s.length ++ d.drop (o + s.length) := by
    rw [List.append_assoc, ← List.drop_drop, List.take_append_drop, List.take_append_drop]
  have spelled : d.overwrite o s = d.take o ++ s ++ d.drop (o + s.length) := by
    rw [overwrite, overwrite?, if_pos fits, Option.getD_some]
  rw [slice?, if_pos fits, Option.some.injEq, spelled]
  constructor
  · intro same
    rw [eq_comm] at same
    have front := List.append_cancel_right (parts.symm.trans same)
    exact List.append_cancel_left front
  · intro here
    rw [here] at parts
    exact parts.symm

theorem slice?_of_drop (same : d'.drop o = d.drop o) (length : d'.length = d.length)
    (behind : o ≤ i) : d'.slice? i n = d.slice? i n := by
  have rest : d'.drop i = d.drop i := by
    rw [← Nat.add_sub_cancel' behind, ← List.drop_drop, ← List.drop_drop, same]
  rw [slice?, slice?, length, rest]

end Bytes

namespace Headers

variable {h : Headers} {d₀ d : Bytes} {o : Nat} {a b : BitVec 16} {p : Option Nat}

/-- The four bytes in the packet at `o` that its code belongs to hold the code. -/
def Sealed (h : Headers) (o : Nat) (d : Bytes) : Prop :=
  ∃ packet, d.slice? o (h.networkStop - o) = some packet ∧
    d.slice? (o + 8) 4 = some (Crc32c.sctp packet)

theorem Sealed.of_drop {d' : Bytes} (hold : h.Sealed o d) (same : d'.drop o = d.drop o)
    (length : d'.length = d.length) : h.Sealed o d' := by
  obtain ⟨packet, whole, code⟩ := hold
  refine ⟨packet, ?_, ?_⟩
  · rw [Bytes.slice?_of_drop same length (Nat.le_refl o), whole]
  · rw [Bytes.slice?_of_drop same length (Nat.le_add_right o 8), code]

section

variable (laid : h.Laid d₀) (is : h.transport = some ⟨o, .sctp a b, p⟩)
include laid is

theorem sealed_iff (length : d.length = d₀.length) : h.Sealed o d ↔ h.reseal d = d := by
  obtain ⟨header, inside⟩ := packet_inside laid is
  have four := length_sctp ((d.drop o).take (h.networkStop - o))
  have whole : d.slice? o (h.networkStop - o) = some ((d.drop o).take (h.networkStop - o)) :=
    if_pos (by omega)
  rw [reseal_eq laid is length, Bytes.overwrite_eq_self_iff (by rw [four]; omega), four, Sealed,
    whole]
  constructor
  · rintro ⟨packet, same, code⟩
    cases same
    exact code
  · exact fun code => ⟨_, rfl, code⟩

theorem sealed_reseal (length : d.length = d₀.length) : h.Sealed o (h.reseal d) := by
  have twice := reseal_foldl_reseal laid is (List.forall_mem_nil _) (List.forall_mem_nil _) length
  exact (sealed_iff laid is ((length_reseal h d).trans length)).mpr twice

/-- Every other field is written before the packet. -/
theorem drop_setField (steady : h.Steady d₀ d) {f : Field}
    (other : ¬(f = .sctpSrc ∨ f = .sctpDst)) (v : BitVec f.width) :
    (FieldWrite.setField h d f v).drop o = d.drop o := by
  have apart : ∀ t ∈ checksums ++ protocolSpots, t.1 ≠ .sctp := by decide
  have sums : ∀ t ∈ checksums, ∀ i, h.place? d₀ t = some i → i + 2 ≤ o := fun t listed i there =>
    place?_before laid is there (apart t (List.mem_append_left _ listed))
  by_cases proto : f = .ipProto
  · subst proto
    exact drop_setProtocol sums laid (fun s listed i there =>
      place?_before laid is there (apart s (List.mem_append_right _ listed))) v
  · rw [setField_eq laid steady proto, resealIf, if_neg other]
    exact drop_script sums (fun s listed i there =>
      place?_before laid is there (f.spots_unsealed other s listed)) _

theorem sealed_setPort (steady : h.Steady d₀ d) {f : Field} (port : f = .sctpSrc ∨ f = .sctpDst)
    (v : BitVec f.width) : h.Sealed o (FieldWrite.setField h d f v) := by
  have plain : f ≠ .ipProto := by rcases port with rfl | rfl <;> decide
  rw [setField_eq laid steady plain, resealIf, if_pos port]
  exact sealed_reseal laid is ((Edit.length_foldl ..).trans steady.length)

theorem Sealed.setField (hold : h.Sealed o d) (steady : h.Steady d₀ d) (f : Field)
    (v : BitVec f.width) : h.Sealed o (FieldWrite.setField h d f v) := by
  by_cases port : f = .sctpSrc ∨ f = .sctpDst
  · exact sealed_setPort laid is steady port v
  · exact hold.of_drop (drop_setField laid is steady port v)
      (inside_setField laid steady f v).length

/-! ## The fields of a match -/

variable (steady : h.Steady d₀ d) (m : Match) (fields : List Field)
include steady

theorem Sealed.foldl (hold : h.Sealed o d) : h.Sealed o (fields.foldl (h.setFrom m) d) := by
  induction fields generalizing d with
  | nil => exact hold
  | cons f fields ih =>
    refine ih (steady.setFrom laid m f) ?_
    unfold setFrom
    split
    · exact hold.setField laid is steady f _
    · exact hold

/-- From the first port that is set on, the code is right. -/
theorem sealed_foldl {f : Field} (port : f = .sctpSrc ∨ f = .sctpDst) (listed : f ∈ fields)
    (valid : (m.get f).valid = true) : h.Sealed o (fields.foldl (h.setFrom m) d) := by
  induction fields generalizing d with
  | nil => cases listed
  | cons g fields ih =>
    have next := steady.setFrom laid m g
    rcases List.mem_cons.mp listed with rfl | later
    · refine Sealed.foldl laid is next m fields ?_
      rw [setFrom, if_pos valid]
      exact sealed_setPort laid is steady port _
    · exact ih next later

theorem drop_foldl
    (others : ∀ f, f = .sctpSrc ∨ f = .sctpDst → (m.get f).valid = false) :
    (fields.foldl (h.setFrom m) d).drop o = d.drop o := by
  induction fields generalizing d with
  | nil => rfl
  | cons f fields ih =>
    rw [List.foldl_cons, ih (steady.setFrom laid m f), setFrom]
    split
    · rename_i valid
      exact drop_setField laid is steady (fun port => by simp [others f port] at valid) _
    · rfl

end

end Headers

namespace Frame

section

variable {f : Frame} {h : Headers} {o : Nat} {a b : BitVec 16} {p : Option Nat}

/-- After ports of an SCTP packet were set, with any other fields, the packet holds its code. If no
port is set, the bytes of the packet and all behind it stay. -/
theorem setFields_sealed (held : f.headers? = some h) (read : Headers.parse f.data = .ok h)
    (is : h.transport = some ⟨o, .sctp a b, p⟩) (m : Match) :
    ∃ g, f.setFields m = (.ok (), g) ∧ g.length = f.length ∧
      o + 12 ≤ h.networkStop ∧ h.networkStop ≤ g.length ∧
      ((m.get .sctpSrc).valid = true ∨ (m.get .sctpDst).valid = true →
        ∃ packet, g.data.slice? o (h.networkStop - o) = some packet ∧
          g.data.slice? (o + 8) 4 = some (Crc32c.sctp packet)) ∧
      ((m.get .sctpSrc).valid = false → (m.get .sctpDst).valid = false →
        ∀ i, o ≤ i → g.data[i]? = f.data[i]?) := by
  have laid := Headers.laid_of_parse read
  have steady := Headers.steady_refl h f.data
  obtain ⟨header, inside⟩ := Headers.packet_inside laid is
  obtain ⟨g, set, data, -⟩ := setFields_ok held read m
  have length : g.length = f.length := by
    rw [Frame.length, data]
    exact (Headers.inside_setFields laid steady m).length
  refine ⟨g, set, length, header, inside.trans_eq length.symm, ?_, fun source target i from_ => ?_⟩
  · rw [data]
    rintro (valid | valid)
    · exact Headers.sealed_foldl laid is steady m Field.all (.inl rfl) (Field.mem_all _) valid
    · exact Headers.sealed_foldl laid is steady m Field.all (.inr rfl) (Field.mem_all _) valid
  · rw [data]
    refine Bytes.getElem?_of_drop (Headers.drop_foldl laid is steady m Field.all ?_) from_
    rintro port (rfl | rfl)
    · exact source
    · exact target

end

/-- A packet of one chunk, behind a tag. -/
def chunk : Bytes := [
  0x02, 0x00, 0x00, 0x00, 0x00, 0x02, 0x02, 0x00, 0x00, 0x00, 0x00, 0x01, 0x81, 0x00, 0x20, 0x64,
  0x08, 0x00,
  0x45, 0x00, 0x00, 0x28, 0x00, 0x01, 0x00, 0x00, 0x40, 0x84, 0x66, 0x4f, 0x0a, 0x00, 0x00, 0x01,
  0x0a, 0x00, 0x00, 0x02,
  0x0f, 0xa0, 0x00, 0x50, 0, 0, 0, 1, 0, 0, 0, 0, 0, 3, 0, 8, 1, 2, 3, 4]

def chunkHeaders : Headers where
  length := 58
  ethDst := 0x020000000002
  ethSrc := 0x020000000001
  ethType := EtherType.ipv4
  framing := { ethernet2 := true }
  vlan := some ⟨12, EtherType.vlan, 0x2064⟩
  payload := some 18
  mpls := none
  pbb := none
  network := some (.ip ⟨18, 58, 0, 0, 64, 132, .v4 0x0a000001 0x0a000002⟩)
  transport := some ⟨38, .sctp 4000 80, some 50⟩

/-- Sets a port, with an address and a protocol besides. -/
def forwarding : Match :=
  ((Match.any.set .sctpDst (.exact 9999)).set .ipv4Dst (.exact 0xc0a80101)).set .ipProto (.exact 6)

theorem setFields_sealed_chunk :
    Headers.parse chunk = .ok chunkHeaders ∧
      chunkHeaders.transport = some ⟨38, .sctp 4000 80, some 50⟩ ∧
      (forwarding.get .sctpDst).valid = true ∧
      ∃ g packet, setFields forwarding ⟨chunk, some ⟨chunkHeaders, {}⟩⟩ = (.ok (), g) ∧
        g.data.slice? 38 20 = some packet ∧ g.data.slice? 46 4 = some (Crc32c.sctp packet) := by
  have read : Headers.parse chunk = .ok chunkHeaders := by decide
  have valid : (forwarding.get .sctpDst).valid = true := by decide
  obtain ⟨g, set, -, -, -, code, -⟩ :=
    setFields_sealed (f := ⟨chunk, some ⟨chunkHeaders, {}⟩⟩) rfl read rfl forwarding
  obtain ⟨packet, whole, code⟩ := code (.inr valid)
  exact ⟨read, rfl, valid, g, packet, set, whole, code⟩

end Frame

end FlowSwitch
