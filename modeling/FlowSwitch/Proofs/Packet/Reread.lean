import FlowSwitch.Proofs.Packet.Blank

/-!
# Reading a frame again

The readers find the same layers in two frames that agree on what the layers are told by:
ethertypes, lengths, protocol numbers, message types and the end of a label stack.
-/

namespace FlowSwitch

namespace Bytes

variable {d d' : Bytes}

theorem word_congr {n o : Nat} (length : d'.length = d.length)
    (same : ∀ i, o ≤ i → i < o + n → d'[i]? = d[i]?) : d'.word n o = d.word n o := by
  have slice : d'.slice? o n = d.slice? o n := by
    unfold slice?
    rw [length]
    split
    · congr 1
      apply List.ext_getElem?
      intro i
      rw [List.getElem?_take, List.getElem?_take, List.getElem?_drop, List.getElem?_drop]
      split
      · exact same _ (by omega) (by omega)
      · rfl
    · rfl
  rw [word, word, word?, word?, slice]

theorem isSome_word?_congr {n o : Nat} (length : d'.length = d.length) :
    (d'.word? n o).isSome = (d.word? n o).isSome := by
  simp only [word?, slice?, length, Option.isSome_map]
  split
  · rfl
  · rfl

end Bytes

namespace Parse

variable {d d' : Bytes} {o : Nat}

theorem arp?_congr (length : d'.length = d.length) (o : Nat) :
    ((arp? d' o).map Network.arp).map Network.blank =
      ((arp? d o).map Network.arp).map Network.blank := by
  unfold arp?
  rw [length]
  split
  · rfl
  · rfl

/-- An IP header without values, and where the next layer starts. -/
def blankNext : WithPayload IpHeader → WithPayload IpHeader := Prod.map IpHeader.blank id

theorem eq_some_of_blankNext {read : Option (WithPayload IpHeader)} {ip : IpHeader}
    {next : Option Nat} (same : read.map blankNext = (some (ip, next)).map blankNext) :
    ∃ ip', read = some (ip', next) ∧ ip'.blank = ip.blank := by
  obtain ⟨⟨ip', next'⟩, found, here⟩ := Option.map_eq_some_iff.mp same
  obtain ⟨blank, rfl⟩ := Prod.mk.inj here
  exact ⟨ip', found, blank⟩

theorem ipv4?_congr (length : d'.length = d.length) (size : d'.byte o = d.byte o)
    (total : d'.word 2 (o + 2) = d.word 2 (o + 2))
    (fragment : d'.word 2 (o + 6) = d.word 2 (o + 6))
    (proto : d'.byte (o + 9) = d.byte (o + 9)) :
    (ipv4? d' o).map blankNext = (ipv4? d o).map blankNext := by
  unfold ipv4?
  rw [length, size, total, fragment, proto]
  dsimp only
  split
  · rfl
  · rfl

theorem ipv6?_congr (length : d'.length = d.length)
    (payload : d'.word 2 (o + 4) = d.word 2 (o + 4))
    (chain : extensionChain (d'.byte (o + 6)) (o + 40) {} (d'.drop (o + 40)) =
      extensionChain (d.byte (o + 6)) (o + 40) {} (d.drop (o + 40))) :
    (ipv6? d' o).map blankNext = (ipv6? d o).map blankNext := by
  unfold ipv6?
  rw [length, payload, chain]
  split
  · rfl
  · rfl

theorem ipUpper_network {read : Option (WithPayload IpHeader)} {n : Network}
    (is : (ipUpper d read).network = some n) : ∃ ip next, read = some (ip, next) ∧ n = .ip ip := by
  cases read with
  | none => cases is
  | some found => exact ⟨found.1, found.2, rfl, (Option.some.inj is).symm⟩

theorem icmpv6_type (d : Bytes) (o stop : Nat) : (icmpv6 d o stop).type = d.byte o := by
  unfold icmpv6
  dsimp only
  split
  · rfl
  · rfl

theorem transport?_congr {ip ip' : IpHeader} (same : ip'.blank = ip.blank)
    (tcp : ip.proto = IpProtocol.tcp → d'.byte (o + 12) = d.byte (o + 12))
    (message : ip.proto = IpProtocol.icmpv6 → d'.byte o = d.byte o) :
    (transport? d' ip' o).map Transport.blank = (transport? d ip o).map Transport.blank := by
  have proto : ip'.proto = ip.proto := congrArg (·.proto) same
  have stop : ip'.stop = ip.stop := congrArg (·.stop) same
  have isV4 : ip'.isV4 = ip.isV4 := by rw [← ip'.blank_isV4, same, ip.blank_isV4]
  have isV6 : ip'.isV6 = ip.isV6 := by rw [IpHeader.isV6, isV4, IpHeader.isV6]
  unfold transport? transportHeader?
  rw [proto, stop, isV4, isV6]
  dsimp only
  split
  · rename_i is
    rw [tcp is]
    split
    · rfl
    · rfl
  · split
    · split
      · rfl
      · rfl
    · split
      · split
        · rfl
        · rfl
      · split
        · split
          · rfl
          · rfl
        · split
          · rename_i is
            split
            · rfl
            · rw [Bool.and_eq_true, decide_eq_true_eq] at is
              have type : (icmpv6 d' o ip.stop).type = (icmpv6 d o ip.stop).type := by
                rw [icmpv6_type, icmpv6_type, message is.1]
              simp only [Option.map_some, Transport.blank, TransportHeader.blank, type]
          · rfl

/-- What a transport header was read for. -/
theorem transport?_kind {ip : IpHeader} {t : Transport} (read : transport? d ip o = some t) :
    (ip.proto = IpProtocol.tcp → ∃ a b, t.header = .tcp a b) ∧
      (ip.proto = IpProtocol.icmpv6 → ∃ m, t.header = .icmpv6 m) := by
  obtain ⟨⟨header, length⟩, found, rfl⟩ := Option.map_eq_some_iff.mp read
  unfold transportHeader? at found
  dsimp only at found ⊢
  constructor
  · intro is
    rw [if_pos is, Option.ite_none_left_eq_some] at found
    obtain ⟨rfl, -⟩ := Prod.mk.inj (Option.some.inj found.2)
    exact ⟨_, _, rfl⟩
  · intro is
    have others : ip.proto ≠ IpProtocol.tcp ∧ ip.proto ≠ IpProtocol.udp ∧
        ip.proto ≠ IpProtocol.sctp ∧ ip.proto ≠ IpProtocol.icmp := by
      rw [is]
      decide
    rw [if_neg others.1, if_neg others.2.1, if_neg others.2.2.1, if_neg (by simp [others]),
      Option.ite_none_right_eq_some, Option.ite_none_left_eq_some] at found
    obtain ⟨rfl, -⟩ := Prod.mk.inj (Option.some.inj found.2.2)
    exact ⟨_, rfl⟩

theorem labelStackEnd_behind {next : Nat} {rest tail : Bytes}
    (ended : labelStackEnd o rest = some (next, tail)) : o + 4 ≤ next := by
  fun_induction labelStackEnd o rest with
  | case1 => exact Nat.le_of_eq (Prod.mk.inj (Option.some.inj ended)).1
  | case2 _ _ _ _ _ _ _ ih => exact Nat.le_trans (Nat.le_add_right ..) (ih ended)
  | case3 => cases ended

/-- A list that is as long as one with a first and a second element. -/
theorem exists_cons_cons {α : Type} {l tail : List α} {a b : α}
    (length : l.length = (a :: b :: tail).length) :
    ∃ a' b' tail', l = a' :: b' :: tail' ∧ tail'.length = tail.length := by
  obtain ⟨a', rest, rfl⟩ := List.exists_cons_of_length_eq_add_one length
  obtain ⟨b', tail', rfl⟩ := List.exists_cons_of_length_eq_add_one (Nat.succ.inj length)
  exact ⟨a', b', tail', rfl, by simpa using length⟩

/-- The entries of a label stack are told apart by the bits that mark the bottom. -/
theorem labelStackEnd_congr {rest rest' : Bytes} (length : rest'.length = rest.length)
    (bottom : ∀ k, (∀ end_ ∈ labelStackEnd o rest, o + 4 * k + 4 ≤ end_.1) →
      rest'[4 * k + 2]?.map (· &&& 1) = rest[4 * k + 2]?.map (· &&& 1)) :
    (labelStackEnd o rest').map (·.1) = (labelStackEnd o rest).map (·.1) := by
  fun_induction labelStackEnd o rest generalizing rest' with
  | case1 o a b c e tail ended =>
    obtain ⟨a', b', behind, rfl, two⟩ := exists_cons_cons length
    obtain ⟨c', e', tail', rfl, four⟩ := exists_cons_cons two
    have same : c' &&& 1 = c &&& 1 := by simpa using bottom 0 (by simp)
    rw [labelStackEnd, same, if_pos ended]
    rfl
  | case2 o a b c e tail more ih =>
    obtain ⟨a', b', behind, rfl, two⟩ := exists_cons_cons length
    obtain ⟨c', e', tail', rfl, four⟩ := exists_cons_cons two
    have same : c' &&& 1 = c &&& 1 := by
      simpa using bottom 0 fun end_ ended => by
        have := labelStackEnd_behind ended
        omega
    rw [labelStackEnd, same, if_neg more]
    refine ih four fun k inside => ?_
    have shifted := bottom (k + 1) fun end_ ended => by
      have := inside end_ ended
      omega
    simpa [Nat.mul_add] using shifted
  | case3 rest o short =>
    have short' (a b c e : UInt8) (tail : Bytes) (long : rest' = a :: b :: c :: e :: tail) :
        False := by
      obtain ⟨a', b', behind, same, two⟩ := exists_cons_cons (long ▸ length).symm
      obtain ⟨c', e', tail', rfl, -⟩ := exists_cons_cons two
      exact short a' b' c' e' tail' same
    unfold labelStackEnd
    split
    · rename_i long
      exact (short' _ _ _ _ _ rfl).elim
    · rfl

/-- What tells the version of the IP header at `o`. -/
def nibble? (d : Bytes) (o : Nat) : Option UInt8 := (d[o]?).map fun b : UInt8 => b >>> 4

/-- The layers behind a label stack that ends at `next`. -/
def labelled (d : Bytes) (next : Nat) : Upper :=
  if nibble? d next = some 4 then ipUpper d (ipv4? d next)
  else if nibble? d next = some 6 then ipUpper d (ipv6? d next)
  else {}

theorem labelled_network {next : Nat} {n : Network} (is : (labelled d next).network = some n) :
    ∃ ip, n = .ip ip ∧ ip.offset = next := by
  unfold labelled at is
  split at is
  · obtain ⟨ip, after, read, rfl⟩ := ipUpper_network is
    exact ⟨ip, rfl, (ipv4?_within read).1⟩
  · split at is
    · obtain ⟨ip, after, read, rfl⟩ := ipUpper_network is
      exact ⟨ip, rfl, (ipv6?_within read).1⟩
    · cases is

/-- Where a label stack ends. -/
def stackEnd (d : Bytes) (o : Nat) : Option Nat := (labelStackEnd o (d.drop o)).map (·.1)

theorem mplsUpper_eq {word : BitVec 32} (there : d.word? 4 o = some word) :
    mplsUpper d o = { (stackEnd d o).elim {} (labelled d) with mpls := some ⟨o, word⟩ } := by
  unfold mplsUpper stackEnd
  rw [there]
  cases ended : labelStackEnd o (d.drop o) with
  | none => rfl
  | some found =>
    obtain ⟨next, tail⟩ := found
    have rest := (labelStackEnd_within rfl ended).2
    have first : d[next]? = tail.head? := by rw [← rest, List.head?_drop]
    simp only [Option.map_some, Option.elim_some, labelled, nibble?, first]
    cases tail with
    | nil => rfl
    | cons b tail => simp only [List.head?_cons, Option.map_some, Option.some.injEq]

theorem nibble_congr {b c : UInt8} (same : b.toBitVec &&& 0xf0 = c.toBitVec &&& 0xf0) :
    b >>> 4 = c >>> 4 := by
  have split : ∀ v : BitVec 8, v >>> (4 : BitVec 8) = (v &&& 0xf0) >>> (4 : BitVec 8) := by
    decide
  have four : (4 : UInt8).toBitVec % 8 = 4 := by decide
  apply UInt8.toBitVec_inj.mp
  rw [UInt8.toBitVec_shiftRight, UInt8.toBitVec_shiftRight, four, split, same, ← split]

/-- A chain of extension headers is read up to where it ends. -/
theorem extensionChain_congr {proto : BitVec 8} {seen : Extensions} {rest rest' : Bytes} {p : Nat}
    (length : rest'.length = rest.length)
    (payload : (extensionChain proto o seen rest).payload = some p)
    (same : ∀ i, o + i < p → rest'[i]? = rest[i]?) :
    extensionChain proto o seen rest' = extensionChain proto o seen rest := by
  fun_induction extensionChain proto o seen rest generalizing rest' with
  | case1 => cases payload
  | case2 => cases payload
  | case3 proto o seen rest esp none plain =>
    rw [extensionChain, if_neg esp, if_neg none]
    simp only [plain]
  | case4 proto o seen esp none e plain next field tail n =>
    rename_i ih
    have behind : o + n ≤ p := extensionChain_within payload
    have long : 8 ≤ n := e.length_ge field.toBitVec
    obtain ⟨next', field', tail', rfl, two⟩ := exists_cons_cons length
    have first : next' = next := by simpa using same 0 (by omega)
    have second : field' = field := by simpa using same 1 (by omega)
    rw [extensionChain, if_neg esp, if_neg none, first, second]
    simp only [plain]
    refine ih ?_ payload fun i inside => ?_
    · rw [List.length_drop, List.length_drop, two]
    · have here := same (n + i) (by omega)
      have split : n + i = n - 2 + i + 2 := by omega
      rw [List.getElem?_drop, List.getElem?_drop]
      simpa [split] using here
  | case5 => cases payload

/-- A tag without its value. -/
def blankTag (tag : VlanTag) : VlanTag := ⟨tag.offset, tag.tpid, 0⟩

/-- Two walks to the innermost ethertype met the same, but for the value of the tag. -/
structure EtherEnd.Like (e' e : EtherEnd) : Prop where
  ethType : e'.ethType = e.ethType
  framing : e'.framing = e.framing
  vlan : e'.vlan.map blankTag = e.vlan.map blankTag
  payload : e'.payload = e.payload

/-- The walk reads the byte at `i`, and not for a value. Where it ends in a length without a SNAP
header it has looked at what comes after. -/
def EtherEnd.Reads (e : EtherEnd) (i : Nat) : Prop :=
  (∀ tag, e.vlan = some tag → i < tag.offset + 2 ∨ tag.offset + 4 ≤ i) ∧
    (e.ethType = EtherType.notEtherType ∨ ∀ p, e.payload = some p → i < p)

/-- Bytes that stay, before bytes that may not. -/
theorem drop_eq_append (d' : Bytes) {s tail : Bytes} (spelled : d.drop o = s ++ tail)
    (same : ∀ i, o ≤ i → i < o + s.length → d'[i]? = d[i]?) :
    d'.drop o = s ++ d'.drop (o + s.length) := by
  apply List.ext_getElem?
  intro i
  by_cases first : i < s.length
  · rw [List.getElem?_append_left first, List.getElem?_drop, same _ (by omega) (by omega),
      ← List.getElem?_drop, spelled, List.getElem?_append_left first]
  · have split : o + s.length + (i - s.length) = o + i := by omega
    rw [List.getElem?_append_right (by omega), List.getElem?_drop, List.getElem?_drop, split]

theorem drop_congr (same : ∀ i, o ≤ i → d'[i]? = d[i]?) : d'.drop o = d.drop o := by
  apply List.ext_getElem?
  intro i
  rw [List.getElem?_drop, List.getElem?_drop]
  exact same _ (Nat.le_add_right ..)

/-- Bytes between the tag that is known and the rest of a walk are read, and not for a value. -/
theorem EtherEnd.Within.reads {e : EtherEnd} {n i : Nat} {known : Option VlanTag}
    (within : e.Within d n known) (before : ∀ tag, known = some tag → tag.offset + 4 ≤ o)
    (from_ : o ≤ i) (below : i < n) : e.Reads i := by
  refine ⟨fun tag is => ?_, .inr fun p at_ => Nat.lt_of_lt_of_le below (within.payload p at_).1⟩
  cases known with
  | none =>
    have behind := (within.first rfl tag is).1
    omega
  | some old =>
    obtain rfl : old = tag := Option.some.inj ((within.kept old rfl).symm.trans is)
    have ahead := before old rfl
    omega

/-- The first tag is recorded, whatever is recorded of it. -/
theorem map_blankTag_or {known known' : Option VlanTag} {tag tag' : VlanTag}
    (like : known'.map blankTag = known.map blankTag) (same : blankTag tag' = blankTag tag) :
    (known'.or (some tag')).map blankTag = (known.or (some tag)).map blankTag := by
  cases known with
  | none =>
    cases known' with
    | none => exact congrArg some same
    | some first => cases like
  | some first =>
    cases known' with
    | none => cases like
    | some first' => exact like

theorem etherTags_congr {t : BitVec 16} {framing : Framing} {known known' : Option VlanTag}
    {rest : Bytes} (spelled : d.drop o = rest) (inside : o ≤ d.length) (behind : 2 ≤ o)
    (length : d'.length = d.length) (like : known'.map blankTag = known.map blankTag)
    (before : ∀ tag, known = some tag → tag.offset + 4 ≤ o)
    (same : ∀ i, o ≤ i → (etherTags t o framing known rest).Reads i → d'[i]? = d[i]?) :
    (etherTags t o framing known' (d'.drop o)).Like (etherTags t o framing known rest) := by
  fun_induction etherTags t o framing known rest generalizing known' with
  | case1 t o framing known low dsap ssap c oui0 oui1 oui2 hi lo tail snap ih =>
    obtain ⟨next, room⟩ :=
      drop_of_spelled (s := [dsap, ssap, c, oui0, oui1, oui2, hi, lo]) spelled (by simp)
    simp only [List.length_cons, List.length_nil] at next room
    have within := etherTags_within (hi.toBitVec ++ lo.toBitVec) (o + 8)
      { framing with snap := true } known next (by omega) (by omega)
    have header := drop_eq_append d' (s := [dsap, ssap, c, oui0, oui1, oui2, hi, lo]) spelled
      fun i from_ below => same i from_ (within.reads before from_ below)
    have filled : d'.drop (o + 8) ≠ [] := by
      have some : 0 < tail.length := List.length_pos_iff.mpr snap.2.2.2.2.2
      refine List.length_pos_iff.mp ?_
      rw [List.length_drop]
      omega
    simp only [List.cons_append, List.nil_append, List.length_cons, List.length_nil] at header
    obtain ⟨rfl, rfl, rfl, rfl, rfl, -⟩ := snap
    rw [header, etherTags_snap low o framing known' c hi lo filled]
    exact ih next (by omega) (by omega) like (fun tag is => by have := before tag is; omega)
      fun i from_ => same i (by omega)
  | case2 t o framing known low llc dsap ssap c oui0 oui1 oui2 hi lo tail =>
    rename_i plain
    have all : d'.drop o = d.drop o := drop_congr fun i from_ =>
      same i from_ ⟨fun tag is => .inr (Nat.le_trans (before tag is) from_), .inl rfl⟩
    rw [all, spelled, etherTags, if_pos low]
    dsimp only
    rw [if_neg plain]
    exact ⟨rfl, rfl, like, rfl⟩
  | case3 rest t o framing known low llc =>
    rename_i short
    have all : d'.drop o = d.drop o := drop_congr fun i from_ =>
      same i from_ ⟨fun tag is => .inr (Nat.le_trans (before tag is) from_), .inl rfl⟩
    rw [all, spelled, etherTags, if_pos low]
    dsimp only
    split
    · exact (short _ _ _ _ _ _ _ _ _ rfl).elim
    · exact ⟨rfl, rfl, like, rfl⟩
  | case4 t o framing known high framing' vlan tciHi tciLo hi lo tail tag =>
    rename_i ih
    obtain ⟨next, room⟩ := drop_of_spelled (s := [tciHi, tciLo, hi, lo]) spelled (by simp)
    simp only [List.length_cons, List.length_nil] at next room
    have placed : ∀ old, known.or (some tag) = some old → old.offset + 4 ≤ o + 2 := by
      intro old is
      cases known with
      | none =>
        obtain rfl := Option.some.inj is
        show o - 2 + 4 ≤ o + 2
        omega
      | some first => exact Nat.le_add_right_of_le (before old is)
    have within := etherTags_within (hi.toBitVec ++ lo.toBitVec) (o + 4) framing'
      (known.or (some tag)) next (by omega) (by omega)
    -- The first bytes may be those of the value.
    have type : d.drop (o + 2) = [hi, lo] ++ tail :=
      (drop_of_spelled (s := [tciHi, tciLo]) spelled (by simp)).1
    have header := drop_eq_append d' (s := [hi, lo]) type fun i from_ below =>
      same i (by omega) (within.reads placed from_ below)
    have value : d'.drop o = d'[o] :: d'[o + 1] :: d'.drop (o + 2) := by
      rw [List.drop_eq_getElem_cons (by omega), List.drop_eq_getElem_cons (by omega)]
    simp only [List.cons_append, List.nil_append, List.length_cons, List.length_nil] at header
    rw [value, header, etherTags_tag vlan]
    exact ih next (by omega) (by omega) (map_blankTag_or like rfl)
      (fun old is => by have := placed old is; omega) fun i from_ => same i (by omega)
  | case5 rest t o framing known high framing' vlan =>
    rename_i short
    have all : d'.drop o = d.drop o := drop_congr fun i from_ =>
      same i from_ ⟨fun tag is => .inr (Nat.le_trans (before tag is) from_), .inr nofun⟩
    rw [all, spelled, etherTags, if_neg high]
    dsimp only
    rw [if_pos vlan]
    split
    · exact (short _ _ _ _ _ rfl).elim
    · exact ⟨rfl, rfl, like, rfl⟩
  | case6 rest t o framing known high framing' =>
    rename_i plain
    rw [etherTags, if_neg high]
    dsimp only
    rw [if_neg plain]
    exact ⟨rfl, rfl, like, rfl⟩

/-- Where the walk over the frame `d` ends. -/
def etherEnd (d : Bytes) : EtherEnd := etherTags (d.word 2 12) 14 {} none (d.drop 14)

theorem etherEnd_congr (long : 14 ≤ d.length) (length : d'.length = d.length)
    (first : d'.word 2 12 = d.word 2 12)
    (same : ∀ i, 14 ≤ i → (etherEnd d).Reads i → d'[i]? = d[i]?) :
    (etherEnd d').Like (etherEnd d) := by
  unfold etherEnd at same ⊢
  rw [first]
  exact etherTags_congr rfl long (by decide) length rfl nofun same

end Parse

namespace Headers

open Parse (EtherEnd etherEnd)

variable {d d' : Bytes}

/-- The headers of the frame `d`, when the walk to the innermost ethertype has ended. -/
def assemble (d : Bytes) (ended : EtherEnd) : Headers :=
  let payload := ended.payload.filter (· < d.length)
  let upper := (payload.map (Parse.upper d ended.ethType)).getD {}
  { length := d.length
    ethDst := d.word 6 0
    ethSrc := d.word 6 6
    ethType := ended.ethType
    framing := ended.framing
    vlan := ended.vlan
    payload
    mpls := upper.mpls
    pbb := upper.pbb
    network := upper.network
    transport := upper.transport }

theorem parse_of_long (long : 14 ≤ d.length) : parse d = .ok (assemble d (etherEnd d)) := by
  unfold parse
  have enough : ¬d.length < ParseError.required := Nat.not_lt.mpr long
  rw [if_neg (by omega), if_neg enough]
  rfl

theorem eq_assemble {h : Headers} (read : parse d = .ok h) :
    14 ≤ d.length ∧ assemble d (etherEnd d) = h := by
  have laid := laid_of_parse read
  have long : 14 ≤ d.length := Nat.le_trans laid.behind laid.inside
  exact ⟨long, Except.ok.inj ((parse_of_long long).symm.trans read)⟩

theorem upper_assemble (d : Bytes) (ended : EtherEnd) :
    (assemble d ended).upper =
      ((assemble d ended).payload.map (Parse.upper d ended.ethType)).getD {} := rfl

theorem assemble_congr {ended ended' : EtherEnd} (length : d'.length = d.length)
    (like : ended'.Like ended) (upper : ∀ p, (assemble d ended).payload = some p →
      (Parse.upper d' ended.ethType p).blank = (Parse.upper d ended.ethType p).blank) :
    (assemble d' ended').blank = (assemble d ended).blank := by
  have payload : (assemble d' ended').payload = (assemble d ended).payload := by
    show ended'.payload.filter (· < d'.length) = ended.payload.filter (· < d.length)
    rw [like.payload, length]
  have same : (assemble d' ended').upper.blank = (assemble d ended).upper.blank := by
    rw [upper_assemble, upper_assemble, payload, like.ethType]
    cases at_ : (assemble d ended).payload with
    | none => rfl
    | some p => exact upper p at_
  rw [blank, blank, same, payload]
  rw [Headers.mk.injEq]
  exact ⟨length, rfl, rfl, like.ethType, like.framing, like.vlan, rfl, rfl, rfl, rfl, rfl⟩

end Headers

end FlowSwitch
