import FlowSwitch.Proofs.Packet.Access
import FlowSwitch.Proofs.Packet.Checksums
import FlowSwitch.Proofs.Packet.Silence

/-!
# The checksum of a datagram

A UDP datagram whose checksum is zero has none, and gets none when fields are set. A checksum that
is in use follows every field, until it comes to zero on the way: from then on the datagram passes
for one without a checksum. The other number with the same residue, 0xffff, would have kept it.
-/

namespace FlowSwitch

namespace Checksum

/-- Only a checksum of 0xffff can follow a word to 0xffff. -/
theorem update_ne {c : BitVec 16} (other : c ≠ 0xffff) (old new : BitVec 16) :
    update c old new ≠ 0xffff := by
  intro full
  have inverted (v : BitVec 16) : (~~~v).toNat = 0xffff - v.toNat := BitVec.toNat_not
  have first := c.isLt
  have second := old.isLt
  have third := new.isLt
  have short : c.toNat ≠ 0xffff := fun same => other (BitVec.eq_of_toNat_eq same)
  have small : (~~~c).toNat + (~~~old).toNat + new.toNat < 2 ^ 32 := by
    rw [inverted, inverted]
    omega
  have reached := congrArg BitVec.toNat full
  rw [update, toNat_finish _ small, inverted, inverted] at reached
  unfold fold at reached
  have top : (0xffff : BitVec 16).toNat = 0xffff := rfl
  omega

end Checksum

namespace FieldWrite

open Checksum

variable {d : Bytes} {c p : Nat}

theorem word_follow_ne (other : d.word 2 c ≠ 0xffff) (place : p = c ∨ Bytes.Apart p c)
    (old new : BitVec 16) : (follow old new d p).word 2 c ≠ 0xffff := by
  unfold follow
  cases there : d.word? 2 p with
  | none => exact other
  | some sum =>
    rcases place with rfl | apart
    · rw [Bytes.word_of_word? there] at other
      rw [Bytes.word, Bytes.word?_setWord_self (Bytes.word?_fits there), Option.getD_some]
      exact update_ne other old new
    · rw [Bytes.word, Bytes.word?_setWord_of_apart apart]
      exact other

theorem word_adjust_ne {sums : List Nat} (other : d.word 2 c ≠ 0xffff)
    (places : ∀ p ∈ sums, p = c ∨ Bytes.Apart p c) (old new : BitVec 16) :
    (adjust sums old new d).word 2 c ≠ 0xffff := by
  rw [adjust_eq]
  induction sums generalizing d with
  | nil => exact other
  | cons p sums ih =>
    obtain ⟨place, places⟩ := List.forall_mem_cons.mp places
    exact ih (word_follow_ne other place old new) places

end FieldWrite

namespace Edit

variable {d : Bytes} {c : Nat} {e : Edit}

theorem word_apply_ne (other : d.word 2 c ≠ 0xffff) (place : Bytes.Apart e.place c)
    (sums : ∀ p ∈ e.sums, p = c ∨ Bytes.Apart p c) : (apply d e).word 2 c ≠ 0xffff := by
  unfold apply
  split
  · split
    · exact other
    · refine FieldWrite.word_adjust_ne ?_ sums _ _
      rw [Bytes.word, Bytes.word?_setWord_of_apart place]
      exact other
  · exact other

end Edit

namespace Headers

open Bytes (weigh)

variable {h : Headers} {d₀ d : Bytes} {live : Bool} {m : Match}

/-- Sets the first `k` fields of a match. -/
def setFirst (h : Headers) (m : Match) (k : Nat) (d : Bytes) : Bytes :=
  (Field.all.take k).foldl (h.setFrom m) d

theorem setFirst_all (h : Headers) (m : Match) (d : Bytes) :
    h.setFirst m Field.all.length d = FieldWrite.setFields h m d := by
  rw [setFirst, List.take_length]
  rfl

/-! ## One field -/

theorem setFrom_eq (laid : h.Laid d₀) (steady : h.Steady d₀ d)
    (fixed : (m.get .ipProto).valid = false) (f : Field) :
    h.setFrom m d f = h.putFrom (h.live d) d₀ m d f := by
  unfold setFrom putFrom
  split
  · rename_i valid
    refine setField_eq laid steady ?_ _
    rintro rfl
    rw [fixed] at valid
    cases valid
  · rfl

/-- A field that is set does not bring a checksum into use. -/
theorem live_setFrom (laid : h.Laid d₀) (steady : h.Steady d₀ d)
    (fixed : (m.get .ipProto).valid = false) (dead : h.live d = false) (f : Field) :
    h.live (h.setFrom m d f) = false := by
  rw [setFrom_eq laid steady fixed, dead, putFrom]
  split
  · exact live_put laid dead f _
  · exact dead

section

variable {o : Nat} {a b : BitVec 16} {p : Option Nat} (laid : h.Laid d₀)
  (udp : h.transport = some ⟨o, .udp a b, p⟩)
include udp

theorem live_udp (d : Bytes) : h.live d = (d.word 2 (o + 6) != 0) := by
  rw [live, udp]

theorem place?_udpSum : h.place? d (.udp, 3) = some (o + 6) :=
  place?_of_transport udp 3 (show 3 < Layer.udp.words by decide)

theorem resealIf_udp (f : Field) (d : Bytes) : h.resealIf f d = d := by
  have unsealed : h.reseal d = d := reseal_of_other (fun o a b p is => by
    rw [udp] at is
    cases is) d
  rw [resealIf, unsealed, ite_self]

/-- Nothing lies behind a datagram header, so a field is written to words of it or before it. -/
theorem placed_udp (f : Field) : ∀ s ∈ f.spots, s.1.1.rank ≤ 5 ∨ h.base? d s.1.1 = none := by
  intro s _
  by_cases low : s.1.1.rank ≤ 5
  · exact .inl low
  · cases base : h.base? d s.1.1 with
    | none => exact .inr rfl
    | some i =>
      obtain ⟨m, header⟩ := message_of_rank udp (Nat.not_le.mp low) base
      cases header

include laid

/-- A checksum in use keeps the weight of the message. -/
theorem weigh_put {ip : IpHeader} (network : h.network = some (.ip ip)) (steady : h.Steady d₀ d)
    (f : Field) (v : BitVec f.width) :
    weigh (messageWeight ip ⟨o, .udp a b, p⟩) (h.put true d₀ f v d) =
      weigh (messageWeight ip ⟨o, .udp a b, p⟩) d := by
  have weighs (s : Spot) (i : Nat) (covered : s.1.rank ≤ 5 ∨ h.base? d₀ s.1 = none)
      (there : h.place? d₀ s = some i) : Bytes.Level (messageWeight ip ⟨o, .udp a b, p⟩) i ∧
        messageWeight ip ⟨o, .udp a b, p⟩ (i + 1) = shareOf ⟨o, .udp a b, p⟩ s := by
    rcases covered with low | absent
    · exact weighs_message laid network udp (.inl low) there
    · obtain ⟨-, b, base, -⟩ := place?_eq_some.mp there
      rw [absent] at base
      cases base
  have even (s : Spot) (i : Nat) (_ : s.1.rank ≤ 5 ∨ h.base? d₀ s.1 = none)
      (there : h.place? d₀ s = some i) :
      ((h.covering true s).map (shareOf ⟨o, .udp a b, p⟩)).sum = shareOf ⟨o, .udp a b, p⟩ s :=
    even_message udp (fun _ _ _ => rfl) (fun _ _ is => by cases is) there
  have sums : ∀ s ∈ checksums, s.1.rank ≤ 5 ∨ h.base? d₀ s.1 = none := by
    intro s sum
    refine .inl ?_
    simp only [checksums, List.mem_cons, List.not_mem_nil, or_false] at sum
    rcases sum with rfl | rfl | rfl | rfl | rfl <;> decide
  rw [put, resealIf_udp udp]
  exact weigh_script laid steady weighs sums even (placed_udp udp f) _

theorem word_put_ne (other : d.word 2 (o + 6) ≠ 0xffff) (f : Field) (v : BitVec f.width) :
    (h.put live d₀ f v d).word 2 (o + 6) ≠ 0xffff := by
  have sum : (Layer.udp, 3) ∈ checksums := by decide
  have each (e : Edit) (made : e ∈ h.edits live d₀ f v) (d : Bytes)
      (other : d.word 2 (o + 6) ≠ 0xffff) : (Edit.apply d e).word 2 (o + 6) ≠ 0xffff := by
    obtain ⟨s, listed, there, -, sums⟩ := mem_script made
    refine Edit.word_apply_ne other ?_ fun q isSum => ?_
    · exact apart_of_ne laid there (place?_udpSum udp) fun same =>
        (f.spots_outside s listed).1 (same ▸ sum)
    · rw [sums] at isSum
      obtain ⟨t, -, at_⟩ := List.mem_filterMap.mp isSum
      by_cases same : t = (.udp, 3)
      · rw [same, place?_udpSum udp] at at_
        exact .inl (Option.some.inj at_).symm
      · exact .inr (apart_of_ne laid at_ (place?_udpSum udp) same)
  rw [put, resealIf_udp udp]
  generalize h.edits live d₀ f v = es at each
  induction es generalizing d with
  | nil => exact other
  | cons e es ih =>
    obtain ⟨first, rest⟩ := List.forall_mem_cons.mp each
    exact ih (first d other) rest

end

/-! ## Any number of fields -/

section

variable (laid : h.Laid d₀) (steady : h.Steady d₀ d) (fixed : (m.get .ipProto).valid = false)
include laid steady fixed

theorem live_foldl (dead : h.live d = false) (fields : List Field) :
    h.live (fields.foldl (h.setFrom m) d) = false := by
  induction fields generalizing d with
  | nil => exact dead
  | cons f fields ih =>
    exact ih (steady.setFrom laid m f) (live_setFrom laid steady fixed dead f)

/-- A checksum that is in use at the end was in use all the way. -/
theorem live_take {fields : List Field}
    (alive : h.live (fields.foldl (h.setFrom m) d) = true) (k : Nat) :
    h.live ((fields.take k).foldl (h.setFrom m) d) = true := by
  cases now : h.live ((fields.take k).foldl (h.setFrom m) d) with
  | true => rfl
  | false =>
    have steady' := steady.inside laid (inside_foldl laid steady m (fields.take k))
    have dead := live_foldl laid steady' fixed now (fields.drop k)
    rw [← List.foldl_append, List.take_append_drop, alive] at dead
    cases dead

variable {o : Nat} {a b : BitVec 16} {p : Option Nat}
  (udp : h.transport = some ⟨o, .udp a b, p⟩)
include udp

/-- While the checksum is in use the message keeps its weight, up to the field that ends it. -/
theorem weigh_foldl {ip : IpHeader} (network : h.network = some (.ip ip)) {fields : List Field}
    (alive : ∀ k < fields.length, h.live ((fields.take k).foldl (h.setFrom m) d) = true) :
    weigh (messageWeight ip ⟨o, .udp a b, p⟩) (fields.foldl (h.setFrom m) d) =
      weigh (messageWeight ip ⟨o, .udp a b, p⟩) d := by
  induction fields generalizing d with
  | nil => rfl
  | cons f fields ih =>
    have first : h.live d = true := alive 0 (Nat.succ_pos _)
    have rest := ih (steady.setFrom laid m f) fun k small => alive (k + 1) (Nat.succ_lt_succ small)
    rw [List.foldl_cons, rest, setFrom_eq laid steady fixed, first, putFrom]
    split
    · exact weigh_put laid udp network steady f _
    · rfl

theorem word_foldl_ne (other : d.word 2 (o + 6) ≠ 0xffff) (fields : List Field) :
    (fields.foldl (h.setFrom m) d).word 2 (o + 6) ≠ 0xffff := by
  induction fields generalizing d with
  | nil => exact other
  | cons f fields ih =>
    refine ih (steady.setFrom laid m f) ?_
    rw [setFrom_eq laid steady fixed, putFrom]
    split
    · exact word_put_ne laid udp other f _
    · exact other

end

/-- A checksum is zero, or 0xffff, just if the message sums up to the same without it. -/
theorem partialSum_silence (laid : h.Laid d₀) (length : d.length = d₀.length) {ip : IpHeader}
    (network : h.network = some (.ip ip)) {o : Nat} {a b : BitVec 16} {p : Option Nat}
    (udp : h.transport = some ⟨o, .udp a b, p⟩) (other : d.word 2 (o + 6) ≠ 0xffff) :
    Transport.partialSum ⟨o, .udp a b, p⟩ ip (h.silence d) % 65535 =
        Transport.partialSum ⟨o, .udp a b, p⟩ ip d % 65535 ↔ d.word 2 (o + 6) = 0 := by
  have placed := place?_udpSum (d := d₀) udp
  have fits := place?_fits laid placed
  have there : d.word? 2 (o + 6) = some (d.word 2 (o + 6)) := Bytes.word?_eq_word (by omega)
  obtain ⟨level, share⟩ := weighs_message laid network udp (.inl (by decide)) placed
  have silent : h.silence d = d.setWord (o + 6) 0 := by rw [silence, udp]
  rw [partialSum_eq_iff laid network udp ((h.length_silence d).trans length) length, silent,
    Bytes.weigh_setWord there level, share]
  have one : shareOf ⟨o, .udp a b, p⟩ (.udp, 3) = 1 := by simp [shareOf, Layer.rank, isAddress]
  have zero : (((0 : BitVec 16).toNat : Nat) : ZMod 65535) = 0 := Nat.cast_zero
  rw [one, zero, one_mul, zero_sub, add_eq_left, neg_eq_zero, ZMod.natCast_eq_zero_iff]
  constructor
  · intro divides
    have below := (d.word 2 (o + 6)).isLt
    have short : (d.word 2 (o + 6)).toNat ≠ 0xffff := fun same =>
      other (BitVec.eq_of_toNat_eq same)
    have none : (d.word 2 (o + 6)).toNat = 0 := by omega
    exact BitVec.eq_of_toNat_eq none
  · intro none
    rw [none]
    exact dvd_zero _

end Headers

namespace Frame

open Headers (setFirst)

/-- A UDP datagram without a checksum stays without one. A checksum in use is in use afterwards
just if it is after any number of the fields; up to the first field that ends it, that one
included, the sum of pseudo header and datagram does not change. So it ends, unless it began as
0xffff, where the rest of the message comes to that sum alone. -/
theorem setFields_datagram {f : Frame} {h : Headers} {ip : IpHeader} {o : Nat}
    {a b : BitVec 16} {p : Option Nat} (held : f.headers? = some h)
    (read : Headers.parse f.data = .ok h) (is : h.ip? = some ip)
    (udp : h.transport = some ⟨o, .udp a b, p⟩) {m : Match}
    (fixed : (m.get .ipProto).valid = false) :
    ∃ g, f.setFields m = (.ok (), g) ∧
      (f.data.word 2 (o + 6) = 0 → g.data.word 2 (o + 6) = 0) ∧
      (g.data.word 2 (o + 6) ≠ 0 →
        Transport.partialSum ⟨o, .udp a b, p⟩ ip g.data % 65535 =
          Transport.partialSum ⟨o, .udp a b, p⟩ ip f.data % 65535) ∧
      (g.data.word 2 (o + 6) ≠ 0 ↔ ∀ k, (h.setFirst m k f.data).word 2 (o + 6) ≠ 0) ∧
      ∀ k, (∀ j < k, (h.setFirst m j f.data).word 2 (o + 6) ≠ 0) →
        Transport.partialSum ⟨o, .udp a b, p⟩ ip (h.setFirst m k f.data) % 65535 =
            Transport.partialSum ⟨o, .udp a b, p⟩ ip f.data % 65535 ∧
          (f.data.word 2 (o + 6) ≠ 0xffff →
            ((h.setFirst m k f.data).word 2 (o + 6) = 0 ↔
              Transport.partialSum ⟨o, .udp a b, p⟩ ip (h.silence (h.setFirst m k f.data)) % 65535 =
                Transport.partialSum ⟨o, .udp a b, p⟩ ip f.data % 65535)) := by
  have laid := Headers.laid_of_parse read
  have steady := Headers.steady_refl h f.data
  have network : h.network = some (.ip ip) := Headers.ip?_eq_some.mp is
  obtain ⟨g, set, data, -⟩ := setFields_ok held read m
  have last : h.setFirst m Field.all.length f.data = g.data :=
    (h.setFirst_all m f.data).trans data.symm
  have alive (d : Bytes) : d.word 2 (o + 6) ≠ 0 ↔ h.live d = true := by
    rw [Headers.live_udp udp, bne_iff_ne]
  have sums (k : Nat) (inUse : ∀ j < k, (h.setFirst m j f.data).word 2 (o + 6) ≠ 0) :
      Transport.partialSum ⟨o, .udp a b, p⟩ ip (h.setFirst m k f.data) % 65535 =
        Transport.partialSum ⟨o, .udp a b, p⟩ ip f.data % 65535 := by
    have inside := Headers.inside_foldl laid steady m (Field.all.take k)
    refine Headers.partialSum_of_weigh laid network udp inside.length ?_
    refine Headers.weigh_foldl laid steady fixed udp network fun j small => ?_
    rw [List.length_take] at small
    rw [List.take_take, Nat.min_eq_left (by omega)]
    exact (alive _).mp (inUse j (by omega))
  have kept : g.data.word 2 (o + 6) ≠ 0 ↔ ∀ k, (h.setFirst m k f.data).word 2 (o + 6) ≠ 0 := by
    rw [← last]
    constructor
    · intro inUse k
      rw [Headers.setFirst_all, alive] at inUse
      exact (alive _).mpr (Headers.live_take laid steady fixed inUse k)
    · intro always
      exact always _
  refine ⟨g, set, fun unused => ?_, fun inUse => ?_, kept, fun k inUse => ⟨sums k inUse, ?_⟩⟩
  · by_contra inUse
    exact kept.mp inUse 0 unused
  · rw [← last]
    exact sums _ fun j _ => kept.mp inUse j
  · intro other
    rw [← sums k inUse]
    have inside := Headers.inside_foldl laid steady m (Field.all.take k)
    exact (Headers.partialSum_silence laid inside.length network udp
      (Headers.word_foldl_ne laid steady fixed udp other _)).symm

/-- A UDP datagram of four bytes over IPv4. -/
def datagram : Bytes := [
  0x02, 0x00, 0x00, 0x00, 0x00, 0x02, 0x02, 0x00, 0x00, 0x00, 0x00, 0x01, 0x08, 0x00,
  0x45, 0x00, 0x00, 0x20, 0x00, 0x01, 0x00, 0x00, 0x40, 0x11, 0x66, 0xca,
  0x0a, 0x00, 0x00, 0x01, 0x0a, 0x00, 0x00, 0x02,
  0x04, 0x00, 0x00, 0x50, 0x00, 0x0c, 0x0e, 0xc1, 0x64, 0x61, 0x74, 0x61]

def datagramIp : IpHeader := ⟨14, 46, 0, 0, 64, 17, .v4 0x0a000001 0x0a000002⟩

def datagramHeaders : Headers where
  length := 46
  ethDst := 0x020000000002
  ethSrc := 0x020000000001
  ethType := EtherType.ipv4
  framing := { ethernet2 := true }
  vlan := none
  payload := some 14
  mpls := none
  pbb := none
  network := some (.ip datagramIp)
  transport := some ⟨34, .udp 1024 80, some 42⟩

/-- Sets the destination port. -/
def redirecting (port : BitVec 16) : Match := Match.any.set .udpDst (.exact port)

theorem setFields_datagram_redirected :
    Headers.parse datagram = .ok datagramHeaders ∧
      ((redirecting 53).get .ipProto).valid = false ∧
      ∃ g, setFields (redirecting 53) ⟨datagram, some ⟨datagramHeaders, {}⟩⟩ = (.ok (), g) ∧
        g.data.word 2 40 = 0x0edc ∧
        Transport.partialSum ⟨34, .udp 1024 80, some 42⟩ datagramIp g.data % 65535 = 0 := by
  have read : Headers.parse datagram = .ok datagramHeaders := by decide
  have fixed : ((redirecting 53).get .ipProto).valid = false := by decide
  obtain ⟨g, set, -, sum, -⟩ := setFields_datagram (f := ⟨datagram, some ⟨datagramHeaders, {}⟩⟩)
    rfl read rfl rfl fixed
  have word : (setFields (redirecting 53)
      ⟨datagram, some ⟨datagramHeaders, {}⟩⟩).2.data.word 2 40 = 0x0edc := by
    decide
  rw [set] at word
  refine ⟨read, fixed, g, set, word, ?_⟩
  rw [sum (by rw [word]; decide)]
  decide

/-- A port that brings the checksum to zero leaves the datagram without one. -/
theorem not_setFields_datagram :
    ¬∀ (f : Frame) (h : Headers) (o : Nat) (a b : BitVec 16) (p : Option Nat) (m : Match),
      f.headers? = some h → Headers.parse f.data = .ok h → h.transport = some ⟨o, .udp a b, p⟩ →
        (m.get .ipProto).valid = false → f.data.word 2 (o + 6) ≠ 0 →
          (f.setFields m).2.data.word 2 (o + 6) ≠ 0 := by
  intro claimed
  have read : Headers.parse datagram = .ok datagramHeaders := by decide
  have kept := claimed ⟨datagram, some ⟨datagramHeaders, {}⟩⟩ datagramHeaders 34 1024 80 (some 42)
    (redirecting 3857) rfl read rfl (by decide) (by decide)
  revert kept
  decide

end Frame

end FlowSwitch
