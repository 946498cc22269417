import FlowSwitch.Proofs.Packet.Push

/-!
# Readers and where the bytes are

A reader counts from its own offset and to the end of the frame. So bytes that all stand some
places further on are read as the same layers, each as many places further on.
-/

namespace FlowSwitch

namespace Bytes

/-- The bytes of `d` from `k` on end the frame `d'` too, where they stand `n` places further on. -/
structure Moved (n k : Nat) (d d' : Bytes) : Prop where
  length : d'.length = d.length + n
  same : ∀ i, k ≤ i → d'[i + n]? = d[i]?

namespace Moved

variable {n k o : Nat} {d d' : Bytes} (moved : Moved n k d d') (from_ : k ≤ o)
include moved from_

theorem drop : d'.drop (o + n) = d.drop o := by
  apply List.ext_getElem?
  intro i
  rw [List.getElem?_drop, List.getElem?_drop, Nat.add_right_comm]
  exact moved.same _ (Nat.le_add_right_of_le from_)

theorem byte : d'.byte (o + n) = d.byte o := by
  rw [Bytes.byte, Bytes.byte, moved.same o from_]

theorem word? (m : Nat) : d'.word? m (o + n) = d.word? m o := by
  have slice : d'.slice? (o + n) m = d.slice? o m := by
    have fits : o + n + m ≤ d'.length ↔ o + m ≤ d.length := by
      rw [moved.length]
      omega
    simp only [slice?, fits, moved.drop from_]
  rw [Bytes.word?, Bytes.word?, slice]

theorem word (m : Nat) : d'.word m (o + n) = d.word m o := by
  rw [Bytes.word, Bytes.word, moved.word? from_]

theorem byte_add (j : Nat) : d'.byte (o + n + j) = d.byte (o + j) := by
  rw [Nat.add_right_comm]
  exact moved.byte (Nat.le_add_right_of_le from_)

theorem word_add (m j : Nat) : d'.word m (o + n + j) = d.word m (o + j) := by
  rw [Nat.add_right_comm]
  exact moved.word (Nat.le_add_right_of_le from_) m

omit from_ in
theorem short_iff (m : Nat) : d'.length < o + n + m ↔ d.length < o + m := by
  rw [moved.length]
  omega

end Moved

end Bytes

/-! ## Layers further on -/

def MplsEntry.moved (n : Nat) (e : MplsEntry) : MplsEntry := { e with offset := e.offset + n }

def PbbTag.moved (n : Nat) (tag : PbbTag) : PbbTag := { tag with offset := tag.offset + n }

def ArpHeader.moved (n : Nat) (a : ArpHeader) : ArpHeader := { a with offset := a.offset + n }

def IpHeader.moved (n : Nat) (ip : IpHeader) : IpHeader :=
  { ip with offset := ip.offset + n, stop := ip.stop + n }

def Network.moved (n : Nat) : Network → Network
  | arp a => arp (a.moved n)
  | ip header => ip (header.moved n)

def Transport.moved (n : Nat) (t : Transport) : Transport :=
  { t with offset := t.offset + n, payload := t.payload.map (· + n) }

namespace Parse

/-- A header and what comes next, both further on. -/
def movedNext (n : Nat) : WithPayload IpHeader → WithPayload IpHeader :=
  Prod.map (IpHeader.moved n) (Option.map (· + n))

def Upper.moved (n : Nat) (u : Upper) : Upper where
  mpls := u.mpls.map (MplsEntry.moved n)
  pbb := u.pbb.map (PbbTag.moved n)
  network := u.network.map (Network.moved n)
  transport := u.transport.map (Transport.moved n)

/-! ## What is told by the bytes that are left -/

theorem labelStackEnd_moved (n o : Nat) (rest : Bytes) :
    labelStackEnd (o + n) rest = (labelStackEnd o rest).map (Prod.map (· + n) id) := by
  fun_induction labelStackEnd o rest with
  | case1 o b c tcBos e rest bottom =>
    rw [labelStackEnd, if_pos bottom, Nat.add_right_comm]
    rfl
  | case2 o b c tcBos e rest inner ih =>
    rw [labelStackEnd, if_neg inner, Nat.add_right_comm, ih]
  | case3 o rest short =>
    unfold labelStackEnd
    split
    · rename_i b c tcBos e rest
      exact absurd rfl (short b c tcBos e rest)
    · rfl

theorem extensionChain_moved (n : Nat) (proto : BitVec 8) (o : Nat) (seen : Extensions)
    (rest : Bytes) :
    extensionChain proto (o + n) seen rest =
      { extensionChain proto o seen rest with
        payload := (extensionChain proto o seen rest).payload.map (· + n) } := by
  fun_induction extensionChain proto o seen rest with
  | case1 | case2 =>
    unfold extensionChain
    rfl
  | case3 proto o seen rest notEsp notLast unknown =>
    unfold extensionChain
    rw [if_neg notEsp, if_neg notLast, unknown]
    rfl
  | case4 proto o seen notEsp notLast e known next field tail length ih =>
    rw [extensionChain, if_neg notEsp, if_neg notLast]
    simp only [known]
    rw [Nat.add_right_comm]
    exact ih
  | case5 proto o seen rest notEsp notLast e known short =>
    unfold extensionChain
    rw [if_neg notEsp, if_neg notLast]
    simp only [known]
    rfl

/-- A tag is known already: the walk records no other, and ends where it would have ended. -/
theorem etherTags_moved (n : Nat) (tag : VlanTag) (t : BitVec 16) (o : Nat) (framing : Framing)
    (known : Option VlanTag) (rest : Bytes) :
    etherTags t (o + n) { framing with ethernet2 := true } (some tag) rest =
      { ethType := (etherTags t o framing known rest).ethType
        framing := { (etherTags t o framing known rest).framing with ethernet2 := true }
        vlan := some tag
        payload := (etherTags t o framing known rest).payload.map (· + n) } := by
  fun_induction etherTags t o framing known rest with
  | case1 t o framing known low dsap ssap c oui0 oui1 oui2 hi lo tail snap ih =>
    obtain ⟨rfl, rfl, rfl, rfl, rfl, filled⟩ := snap
    rw [etherTags_snap low _ _ _ c hi lo filled, Nat.add_right_comm]
    exact ih
  | case2 t o framing known low llc dsap ssap c oui0 oui1 oui2 hi lo tail plain =>
    rw [etherTags, if_pos low]
    dsimp only
    rw [if_neg plain]
    rfl
  | case3 rest t o framing known low llc short =>
    unfold etherTags
    rw [if_pos low]
    dsimp only
    split
    · rename_i dsap ssap c oui0 oui1 oui2 hi lo tail
      exact absurd rfl (short dsap ssap c oui0 oui1 oui2 hi lo tail)
    · rfl
  | case4 t o framing known high framing' isVlan tciHi tciLo hi lo tail tag' ih =>
    rw [etherTags_tag isVlan, Nat.add_right_comm, Option.some_or]
    exact ih
  | case5 rest t o framing known high framing' isVlan short =>
    unfold etherTags
    rw [if_neg high]
    dsimp only
    rw [if_pos isVlan]
    split
    · rename_i tciHi tciLo hi lo tail
      exact absurd rfl (short tciHi tciLo hi lo tail)
    · rfl
  | case6 rest t o framing known high framing' other =>
    rw [etherTags, if_neg high]
    dsimp only
    rw [if_neg other]
    rfl

section

variable {n k o : Nat} {d d' : Bytes} (moved : Bytes.Moved n k d d') (from_ : k ≤ o)
include moved from_

theorem arp?_moved : arp? d' (o + n) = (arp? d o).map (ArpHeader.moved n) := by
  simp only [arp?, moved.short_iff, moved.word_add from_]
  split
  · rfl
  · rfl

theorem icmpv6_moved (stop : Nat) : icmpv6 d' (o + n) (stop + n) = icmpv6 d o stop := by
  have room (m : Nat) : o + n + m ≤ stop + n ↔ o + m ≤ stop := by omega
  have behind : k ≤ o + 24 := Nat.le_add_right_of_le from_
  have option : o + n + 24 = o + 24 + n := Nat.add_right_comm ..
  simp only [icmpv6, room, moved.byte from_, moved.byte_add from_, moved.word_add from_]
  simp only [option, moved.byte_add behind, moved.word_add behind]

theorem transportHeader?_moved (ip : IpHeader) :
    transportHeader? d' (ip.moved n) (o + n) = transportHeader? d ip o := by
  have available : ip.stop + n - (o + n) = ip.stop - o := Nat.add_sub_add_right ..
  simp only [transportHeader?, IpHeader.moved, available, moved.byte from_, moved.byte_add from_,
    moved.word from_, moved.word_add from_, icmpv6_moved moved from_]
  rfl

theorem transport?_moved (ip : IpHeader) :
    transport? d' (ip.moved n) (o + n) = (transport? d ip o).map (Transport.moved n) := by
  rw [transport?, transport?, transportHeader?_moved moved from_, Option.map_map]
  refine Option.map_congr fun (header, length) _ => ?_
  have room : o + n + length < ip.stop + n ↔ o + length < ip.stop := by omega
  simp only [IpHeader.moved, Transport.moved, Function.comp_apply, room]
  split
  · rw [Option.map_some, Nat.add_right_comm]
  · rfl

theorem ipv4?_moved : ipv4? d' (o + n) = (ipv4? d o).map (movedNext n) := by
  have stop (total : Nat) : min (o + n + total) d'.length = min (o + total) d.length + n := by
    rw [moved.length]
    omega
  have next (size : Nat) : o + n + size = o + size + n := Nat.add_right_comm ..
  simp only [ipv4?, moved.short_iff, moved.byte from_, moved.byte_add from_, moved.word_add from_,
    stop]
  split
  · rfl
  · rw [next, moved.length]
    simp only [Option.map_some, movedNext, Prod.map_apply, IpHeader.moved, apply_ite (· + n),
      apply_ite (Option.map (· + n)), Option.map_none]

theorem ipv6?_moved : ipv6? d' (o + n) = (ipv6? d o).map (movedNext n) := by
  have stop (total : Nat) :
      min (o + n + 40 + total) d'.length = min (o + 40 + total) d.length + n := by
    rw [moved.length]
    omega
  have chain : extensionChain (d.byte (o + 6)) (o + n + 40) {} (d'.drop (o + n + 40)) =
      { extensionChain (d.byte (o + 6)) (o + 40) {} (d.drop (o + 40)) with
        payload := (extensionChain (d.byte (o + 6)) (o + 40) {} (d.drop (o + 40))).payload.map
          (· + n) } := by
    rw [Nat.add_right_comm, moved.drop (Nat.le_add_right_of_le from_)]
    exact extensionChain_moved ..
  simp only [ipv6?, moved.short_iff, moved.byte_add from_, moved.word_add from_, moved.word from_,
    stop, chain]
  split
  · rfl
  · rfl

omit from_ in
/-- The transport header of a datagram is looked for no earlier than the datagram begins. -/
theorem ipUpper_moved {read : Option (WithPayload IpHeader)}
    (behind : ∀ ip next, read = some (ip, next) → ∀ p, next = some p → k ≤ p) :
    ipUpper d' (read.map (movedNext n)) = (ipUpper d read).moved n := by
  cases read with
  | none => rfl
  | some found =>
    obtain ⟨ip, next⟩ := found
    have transport : (next.map (· + n)).bind (transport? d' (ip.moved n)) =
        (next.bind (transport? d ip)).map (Transport.moved n) := by
      cases next with
      | none => rfl
      | some p => exact transport?_moved moved (behind ip _ rfl p rfl) ip
    simp only [Option.map_some, movedNext, Prod.map_apply, ipUpper, transport]
    rfl

theorem ipv4_moved : ipUpper d' (ipv4? d' (o + n)) = (ipUpper d (ipv4? d o)).moved n := by
  rw [ipv4?_moved moved from_]
  refine ipUpper_moved moved fun ip next read p at_ => ?_
  rw [(ipv4?_within read).2.2.2 p at_]
  exact Nat.le_add_right_of_le from_

theorem ipv6_moved : ipUpper d' (ipv6? d' (o + n)) = (ipUpper d (ipv6? d o)).moved n := by
  rw [ipv6?_moved moved from_]
  refine ipUpper_moved moved fun ip next read p at_ => ?_
  have behind := (ipv6?_within read).2.2.2 p at_
  omega

theorem labelled_moved : labelled d' (o + n) = (labelled d o).moved n := by
  have nibble : nibble? d' (o + n) = nibble? d o := by rw [nibble?, nibble?, moved.same o from_]
  simp only [labelled, nibble, ipv4_moved moved from_, ipv6_moved moved from_]
  split
  · rfl
  · split
    · rfl
    · rfl

theorem mplsUpper_moved : mplsUpper d' (o + n) = (mplsUpper d o).moved n := by
  cases there : d.word? 4 o with
  | none =>
    have there' : d'.word? 4 (o + n) = none := (moved.word? from_ 4).trans there
    rw [mplsUpper, mplsUpper, there, there']
    rfl
  | some word =>
    have there' : d'.word? 4 (o + n) = some word := (moved.word? from_ 4).trans there
    have stack : stackEnd d' (o + n) = (stackEnd d o).map (· + n) := by
      rw [stackEnd, stackEnd, moved.drop from_, labelStackEnd_moved, Option.map_map, Option.map_map]
      rfl
    rw [mplsUpper_eq there, mplsUpper_eq there', stack]
    cases ended : stackEnd d o with
    | none => rfl
    | some next =>
      obtain ⟨⟨next', tail⟩, found, rfl⟩ := Option.map_eq_some_iff.mp ended
      have behind := (labelStackEnd_within rfl found).1
      have inner : labelled d' (next' + n) = (labelled d next').moved n :=
        labelled_moved moved (by omega)
      simp only [Option.map_some, Option.elim_some, inner]
      rfl

theorem upper_moved (t : BitVec 16) : upper d' t (o + n) = (upper d t o).moved n := by
  unfold upper
  split
  · rw [arp?_moved moved from_]
    cases arp? d o with
    | none => rfl
    | some a => rfl
  · split
    · exact ipv4_moved moved from_
    · split
      · exact ipv6_moved moved from_
      · split
        · exact mplsUpper_moved moved from_
        · split
          · rw [moved.word? from_]
            cases d.word? 4 o with
            | none => rfl
            | some w => rfl
          · rfl

end

end Parse

end FlowSwitch
