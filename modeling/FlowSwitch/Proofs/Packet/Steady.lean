import FlowSwitch.Proofs.Packet.Scripts
import FlowSwitch.Proofs.Packet.View

/-!
# Layers stay where they are

Setting a field writes only to words that belong to a layer, and where the layers are is told
by no such word. So every field of a match finds its words where they were before the first.
-/

namespace FlowSwitch

namespace Headers

variable {h : Headers} {d₀ d : Bytes} {live : Bool}

theorem mem_script {spots : List (Spot × BitVec 16)} {ws : List (BitVec 16)} {e : Edit}
    (inside : e ∈ h.script live d₀ spots ws) :
    ∃ s ∈ spots, h.place? d₀ s.1 = some e.place ∧ e.mask = s.2 ∧
      e.sums = (h.covering live s.1).filterMap (h.place? d₀) := by
  obtain ⟨⟨s, w⟩, paired, made⟩ := List.mem_filterMap.mp inside
  obtain ⟨i, there, rfl⟩ := Option.map_eq_some_iff.mp made
  exact ⟨s, (List.of_mem_zip paired).1, there, rfl, rfl⟩

/-- The type and the length of the option of a neighbour message belong to no word. -/
theorem place?_option (laid : h.Laid d) {s : Spot} {i o : Nat} {m : Icmpv6Header} {p : Option Nat}
    (there : h.place? d s = some i) (is : h.transport = some ⟨o, .icmpv6 m, p⟩) :
    i + 2 ≤ o + 24 ∨ o + 26 ≤ i := by
  obtain ⟨small, b, base, rfl⟩ := place?_eq_some.mp there
  obtain ⟨l, k⟩ := s
  have small : k < l.words := small
  show b + 2 * k + 2 ≤ o + 24 ∨ o + 26 ≤ b + 2 * k
  have same {o' : Nat} {m' : Icmpv6Header} {p' : Option Nat}
      (also : h.transport = some ⟨o', .icmpv6 m', p'⟩) : o' = o := by
    rw [is] at also
    cases also
    rfl
  have low (rank : l.rank + 1 ≤ 6) : b + 2 * k + 2 ≤ o + 24 := by
    have upto : b + 2 * l.words ≤ h.floor (l.rank + 1) := (base?_between laid base).2
    have below := floor_mono laid rank
    have top := (transport_between is).2
    simp only [TransportHeader.least] at top
    omega
  cases l with
  | target =>
    obtain ⟨o', m', p', also, rfl, -⟩ := message_of_target base
    obtain rfl := same also
    simp only [Layer.words] at small
    omega
  | sourceLink =>
    obtain ⟨o', m', p', also, -, rfl, -⟩ := message_of_linkOffset? base
    obtain rfl := same also
    omega
  | targetLink =>
    obtain ⟨o', m', p', also, -, rfl, -⟩ := message_of_linkOffset? base
    obtain rfl := same also
    omega
  | _ => exact .inl (low (by decide))

theorem steady_refl (h : Headers) (d : Bytes) : h.Steady d d := ⟨rfl, fun _ => rfl⟩

theorem base?_congr {d' : Bytes} (length : d'.length = d.length)
    (option : ∀ o m p, h.transport = some ⟨o, .icmpv6 m, p⟩ →
      d'[o + 24]? = d[o + 24]? ∧ d'[o + 25]? = d[o + 25]?) (l : Layer) :
    h.base? d' l = h.base? d l := by
  have link (type : BitVec 8) (optionType : UInt8) :
      h.linkOffset? d' type optionType = h.linkOffset? d type optionType := by
    unfold linkOffset?
    cases found : FieldWrite.icmpv6Offset? h (· == type) with
    | none => rfl
    | some o =>
      obtain ⟨m, p, is, -⟩ := icmpv6Offset?_eq_some.mp found
      obtain ⟨first, second⟩ := option o m p is
      rw [Option.bind_some, Option.bind_some, first, second, length]
  cases l with
  | target => simp only [base?, length]
  | sourceLink => exact link _ _
  | targetLink => exact link _ _
  | _ => rfl

@[simp]
theorem length_sctp (s : Bytes) : (Crc32c.sctp s).length = 4 := by
  rw [Crc32c.sctp, Crc32c.littleEndian, List.length_reverse, Bytes.length_ofWord]

@[simp]
theorem length_reseal (h : Headers) (d : Bytes) : (h.reseal d).length = d.length := by
  unfold reseal
  split
  · unfold FieldWrite.updateSctp
    dsimp only
    split
    · exact Bytes.length_overwrite ..
    · rfl
  · rfl

theorem getElem?_reseal {o i : Nat} {header : TransportHeader} {p : Option Nat}
    (is : h.transport = some ⟨o, header, p⟩) (outside : i < o + 8 ∨ o + 12 ≤ i) :
    (h.reseal d)[i]? = d[i]? := by
  unfold reseal
  split
  · rename_i o' src dst p' also
    rw [is] at also
    cases also
    unfold FieldWrite.updateSctp
    dsimp only
    split
    · exact Bytes.getElem?_overwrite_of_apart (by rw [length_sctp]; omega)
    · rfl
  · rfl

/-! ## Bytes of no word -/

/-- The frame `d'` differs from `d` only in words that have names in the frame `d₀`. -/
structure Inside (h : Headers) (d₀ d d' : Bytes) : Prop where
  length : d'.length = d.length
  outside : ∀ i, (∀ s p, h.place? d₀ s = some p → i < p ∨ p + 2 ≤ i) → d'[i]? = d[i]?

namespace Inside

variable {d' d'' : Bytes}

theorem refl : h.Inside d₀ d d := ⟨rfl, fun _ _ => rfl⟩

theorem trans (first : h.Inside d₀ d d') (second : h.Inside d₀ d' d'') : h.Inside d₀ d d'' :=
  ⟨second.length.trans first.length, fun i outside =>
    (second.outside i outside).trans (first.outside i outside)⟩

theorem script (spots : List (Spot × BitVec 16)) (ws : List (BitVec 16)) :
    h.Inside d₀ d ((h.script live d₀ spots ws).foldl Edit.apply d) := by
  have each (e : Edit) (made : e ∈ h.script live d₀ spots ws) (d : Bytes) :
      h.Inside d₀ d (Edit.apply d e) := by
    obtain ⟨s, -, there, -, sums⟩ := mem_script made
    refine ⟨Edit.length_apply d e, fun i outside => ?_⟩
    refine Edit.getElem?_apply_of_apart (outside s.1 e.place there) fun p inside => ?_
    rw [sums] at inside
    obtain ⟨t, -, at_⟩ := List.mem_filterMap.mp inside
    exact outside t p at_
  generalize h.script live d₀ spots ws = es at each
  induction es generalizing d with
  | nil => exact refl
  | cons e es ih =>
    obtain ⟨first, rest⟩ := List.forall_mem_cons.mp each
    exact (first d).trans (ih rest)

theorem adjust {sums : List Spot} (old new : BitVec 16) :
    h.Inside d₀ d (FieldWrite.adjust (sums.filterMap (h.place? d₀)) old new d) := by
  refine ⟨FieldWrite.length_adjust, fun i outside => ?_⟩
  refine FieldWrite.getElem?_adjust_of_apart fun p inside => ?_
  obtain ⟨t, -, at_⟩ := List.mem_filterMap.mp inside
  exact outside t p at_

theorem reseal : h.Inside d₀ d (h.reseal d) := by
  refine ⟨h.length_reseal d, fun i outside => ?_⟩
  cases is : h.transport with
  | none => rw [Headers.reseal, is]
  | some t =>
    obtain ⟨o, header, q⟩ := t
    cases header with
    | sctp src dst =>
      have first := outside (.sctp, 4) (o + 8)
        (place?_of_transport is 4 (show 4 < Layer.sctp.words by decide))
      have second := outside (.sctp, 5) (o + 10)
        (place?_of_transport is 5 (show 5 < Layer.sctp.words by decide))
      exact getElem?_reseal is (by omega)
    | _ => simp only [Headers.reseal, is]

theorem resealIf (f : Field) : h.Inside d₀ d (h.resealIf f d) := by
  unfold Headers.resealIf
  split
  · exact reseal
  · exact refl

end Inside

theorem Steady.inside (laid : h.Laid d₀) (steady : h.Steady d₀ d) {d' : Bytes}
    (inside : h.Inside d₀ d d') : h.Steady d₀ d' := by
  refine ⟨inside.length.trans steady.length, fun l => ?_⟩
  rw [base?_congr inside.length fun o m p is => ?_, steady.base l]
  constructor
  · exact inside.outside _ fun s q there => by
      have := place?_option laid there is
      omega
  · exact inside.outside _ fun s q there => by
      have := place?_option laid there is
      omega

theorem Steady.script (laid : h.Laid d₀) (steady : h.Steady d₀ d) (live : Bool)
    (spots : List (Spot × BitVec 16)) (ws : List (BitVec 16)) :
    h.Steady d₀ ((h.script live d₀ spots ws).foldl Edit.apply d) :=
  steady.inside laid (.script spots ws)

/-! ## Protocol and time to live -/

section

variable (laid : h.Laid d₀)
include laid

/-- The protocol is a byte of its header and is then followed in the pseudo header. -/
theorem setProtocol_cases (proto : BitVec 8) :
    FieldWrite.setProtocol h proto d = d ∨
      ∃ s : Spot × BitVec 16, (s.1 = (.ipv4, 4) ∨ s.1 = (.ipv6, 3)) ∧ ∃ w old new,
        FieldWrite.setProtocol h proto d =
          FieldWrite.adjust ((h.pseudoSum (h.live d)).filterMap (h.place? d₀)) old new
            ((h.script (h.live d) d₀ [s] [w]).foldl Edit.apply d) := by
  unfold FieldWrite.setProtocol
  cases is : h.ip? with
  | none => exact .inl rfl
  | some ip =>
    rw [← pseudoHeaderSum_eq h d₀ d]
    dsimp only
    split
    · rename_i src dst version
      have isV4 : ip.isV4 = true := by rw [IpHeader.isV4, version]
      have there : h.place? d₀ (.ipv4, 4) = some (ip.offset + 8) :=
        place?_of_base? (base?_ipv4 is isV4) (by decide)
      have byte := (patchByte_eq laid (h.live d) there (by decide) (headerSum_eq is isV4).symm d
        proto).2
      exact .inr ⟨((.ipv4, 4), 0x00ff), .inl rfl, proto.setWidth 16, ip.proto.setWidth 16,
        proto.setWidth 16, congrArg _ byte⟩
    · rename_i version
      split
      · have isV4 : ip.isV4 = false := by rw [IpHeader.isV4, version]
        have there : h.place? d₀ (.ipv6, 3) = some (ip.offset + 6) :=
          place?_of_base? (base?_ipv6 is isV4) (by decide)
        have byte := (patchByte_eq laid (h.live d) there (by decide) rfl d proto).1
        exact .inr ⟨((.ipv6, 3), 0xff00), .inr rfl, proto.setWidth 16 <<< 8,
          ip.proto.setWidth 16, proto.setWidth 16, congrArg _ byte⟩
      · exact .inl rfl

theorem setIpTtl_eq (ttl : BitVec 8) :
    FieldWrite.setIpTtl h ttl d =
      (h.script live d₀ [((.ipv4, 4), 0xff00), ((.ipv6, 3), 0x00ff)]
        [ttl.setWidth 16 <<< 8, ttl.setWidth 16]).foldl Edit.apply d := by
  unfold FieldWrite.setIpTtl
  cases is : h.ip? with
  | none =>
    rw [script_of_none (by simp [base?, is])]
    rfl
  | some ip =>
    cases isV4 : ip.isV4 with
    | true =>
      have isV6 : ip.isV6 = false := by rw [IpHeader.isV6, isV4]; rfl
      have absent : h.base? d₀ .ipv6 = none := by simp [base?, is, isV6]
      have there : h.place? d₀ (.ipv4, 4) = some (ip.offset + 8) :=
        place?_of_base? (base?_ipv4 is isV4) (by decide)
      have byte := (patchByte_eq laid live there (by decide) (headerSum_eq is isV4).symm d ttl).1
      rw [script_cons_of_base? (base?_ipv4 is isV4) (by decide),
        script_of_none (by simp [absent])] at byte ⊢
      exact (if_pos isV4).trans byte
    | false =>
      have absent : h.base? d₀ .ipv4 = none := by simp [base?, is, isV4]
      have there : h.place? d₀ (.ipv6, 3) = some (ip.offset + 6) :=
        place?_of_base? (base?_ipv6 is isV4) (by decide)
      have byte := (patchByte_eq laid live there (by decide) rfl d ttl).2
      rw [script_cons_of_none absent]
      exact (if_neg (by simp [isV4])).trans byte

end

/-- Setting a field writes to no byte without a name. -/
theorem inside_setField (laid : h.Laid d₀) (steady : h.Steady d₀ d) (f : Field)
    (v : BitVec f.width) : h.Inside d₀ d (FieldWrite.setField h d f v) := by
  by_cases proto : f = .ipProto
  · subst proto
    rcases setProtocol_cases (d := d) laid v with same | ⟨s, -, w, old, new, changed⟩
    · exact (congrArg (h.Inside d₀ d) same).mpr .refl
    · exact (congrArg (h.Inside d₀ d) changed).mpr ((Inside.script _ _).trans (.adjust old new))
  · rw [setField_eq laid steady proto]
    exact (Inside.script _ _).trans (.resealIf f)

/-- Setting a field moves no layer. -/
theorem Steady.setField (laid : h.Laid d₀) (steady : h.Steady d₀ d) (f : Field)
    (v : BitVec f.width) : h.Steady d₀ (FieldWrite.setField h d f v) :=
  steady.inside laid (inside_setField laid steady f v)

/-- Sets a field, if the match gives a value to it. -/
def setFrom (h : Headers) (m : Match) (d : Bytes) (f : Field) : Bytes :=
  if (m.get f).valid then FieldWrite.setField h d f (m.get f).value else d

theorem Steady.setFrom (laid : h.Laid d₀) (steady : h.Steady d₀ d) (m : Match) (f : Field) :
    h.Steady d₀ (h.setFrom m d f) := by
  unfold Headers.setFrom
  split
  · exact steady.setField laid f _
  · exact steady

theorem inside_foldl (laid : h.Laid d₀) (steady : h.Steady d₀ d) (m : Match)
    (fields : List Field) : h.Inside d₀ d (fields.foldl (h.setFrom m) d) := by
  induction fields generalizing d with
  | nil => exact .refl
  | cons f fields ih =>
    rw [List.foldl_cons, setFrom]
    split
    · exact (inside_setField laid steady f _).trans (ih (steady.setField laid f _))
    · exact ih steady

theorem inside_setFields (laid : h.Laid d₀) (steady : h.Steady d₀ d) (m : Match) :
    h.Inside d₀ d (FieldWrite.setFields h m d) := inside_foldl laid steady m Field.all

theorem Steady.setFields (laid : h.Laid d₀) (steady : h.Steady d₀ d) (m : Match) :
    h.Steady d₀ (FieldWrite.setFields h m d) :=
  steady.inside laid (inside_setFields laid steady m)

/-! ## Bits that are kept -/

/-- The words of the checksum of an SCTP packet. -/
def sealSpots : List Spot := [(.sctp, 4), (.sctp, 5)]

section

variable (laid : h.Laid d₀) {s : Spot} {p : Nat} (there : h.place? d₀ s = some p)
include laid there

/-- A script keeps the bits of a word that belong to none of its writes. -/
theorem word_script (outside : s ∉ checksums) {spots : List (Spot × BitVec 16)}
    {kept : BitVec 16} (free : ∀ t ∈ spots, t.1 = s → t.2 &&& kept = 0) (live : Bool)
    (ws : List (BitVec 16)) :
    ((h.script live d₀ spots ws).foldl Edit.apply d).word 2 p &&& kept = d.word 2 p &&& kept := by
  have each (e : Edit) (made : e ∈ h.script live d₀ spots ws) (d : Bytes) :
      (Edit.apply d e).word 2 p &&& kept = d.word 2 p &&& kept := by
    obtain ⟨t, listed, at_, mask, sums⟩ := mem_script made
    have apart (q : Nat) (isSum : q ∈ e.sums) : Bytes.Apart q p := by
      rw [sums] at isSum
      obtain ⟨u, covers, placed⟩ := List.mem_filterMap.mp isSum
      exact apart_of_ne laid placed there fun same =>
        outside (same ▸ covering_subset h live t.1 covers)
    by_cases same : t.1 = s
    · obtain rfl : e.place = p := Option.some.inj (at_.symm.trans (same ▸ there))
      rw [Bytes.word, Bytes.word, Edit.word?_apply_self apart]
      cases d.word? 2 e.place with
      | none => rfl
      | some w => exact Edit.becomes_and (mask ▸ free t listed same) w
    · rw [Bytes.word, Bytes.word,
        Edit.word?_apply_of_spares ⟨apart_of_ne laid at_ there same, apart⟩]
  generalize h.script live d₀ spots ws = es at each
  induction es generalizing d with
  | nil => rfl
  | cons e es ih =>
    obtain ⟨first, rest⟩ := List.forall_mem_cons.mp each
    rw [List.foldl_cons, ih rest, first]

theorem word_reseal (named : s ∉ sealSpots) : (h.reseal d).word 2 p = d.word 2 p := by
  simp only [sealSpots, List.mem_cons, List.not_mem_nil, or_false, not_or] at named
  cases is : h.transport with
  | none => rw [reseal, is]
  | some t =>
    obtain ⟨o, header, q⟩ := t
    cases header with
    | sctp src dst =>
      have first : h.place? d₀ (.sctp, 4) = some (o + 8) :=
        place?_of_transport is 4 (show 4 < Layer.sctp.words by decide)
      have second : h.place? d₀ (.sctp, 5) = some (o + 10) :=
        place?_of_transport is 5 (show 5 < Layer.sctp.words by decide)
      have before := apart_of_ne laid there first named.1
      have after := apart_of_ne laid there second named.2
      unfold Bytes.Apart at before after
      rw [Bytes.word, Bytes.word, Bytes.word?_two, Bytes.word?_two, getElem?_reseal is (by omega),
        getElem?_reseal is (by omega)]
    | _ => simp only [reseal, is]

theorem word_adjust (outside : s ∉ checksums) {sums : List Spot} (within : sums ⊆ checksums)
    (old new : BitVec 16) :
    (FieldWrite.adjust (sums.filterMap (h.place? d₀)) old new d).word 2 p = d.word 2 p := by
  rw [Bytes.word, Bytes.word, FieldWrite.word?_adjust_of_apart]
  intro q isSum
  obtain ⟨t, covers, placed⟩ := List.mem_filterMap.mp isSum
  exact apart_of_ne laid placed there fun same => outside (same ▸ within covers)

/-- The words of the protocol in an IP header. -/
def protocolSpots : List Spot := [(.ipv4, 4), (.ipv6, 3)]

/-- Setting a field keeps the bits of a word that are not its own. -/
theorem word_setField (steady : h.Steady d₀ d) (outside : s ∉ checksums)
    (unsealed : s ∉ sealSpots) {f : Field} (named : f = .ipProto → s ∉ protocolSpots)
    {kept : BitVec 16} (free : ∀ t ∈ f.spots, t.1 = s → t.2 &&& kept = 0) (v : BitVec f.width) :
    (FieldWrite.setField h d f v).word 2 p &&& kept = d.word 2 p &&& kept := by
  by_cases proto : f = .ipProto
  · subst proto
    rcases setProtocol_cases (d := d) laid v with same | ⟨t, byte, w, old, new, changed⟩
    · rw [show FieldWrite.setField h d .ipProto v = d from same]
    · have named := named rfl
      have listed : t.1 ∈ protocolSpots := by
        rcases byte with is | is
        · exact is ▸ List.mem_cons_self
        · exact is ▸ List.mem_cons_of_mem _ List.mem_cons_self
      have other : t.1 ≠ s := fun same => named (same ▸ listed)
      rw [show FieldWrite.setField h d .ipProto v = _ from changed,
        word_adjust laid there outside (pseudoSum_subset h _)]
      exact word_script laid there outside (fun u only same => by
        obtain rfl := List.mem_singleton.mp only
        exact absurd same other) _ _
  · rw [setField_eq laid steady proto, resealIf]
    split
    · rw [word_reseal laid there unsealed]
      exact word_script laid there outside free _ _
    · exact word_script laid there outside free _ _

theorem word_foldl (steady : h.Steady d₀ d) (m : Match) (outside : s ∉ checksums)
    (unsealed : s ∉ sealSpots) (named : (m.get .ipProto).valid = true → s ∉ protocolSpots)
    {kept : BitVec 16} {fields : List Field}
    (free : ∀ f ∈ fields, (m.get f).valid = true → ∀ t ∈ f.spots, t.1 = s → t.2 &&& kept = 0) :
    (fields.foldl (h.setFrom m) d).word 2 p &&& kept = d.word 2 p &&& kept := by
  induction fields generalizing d with
  | nil => rfl
  | cons f fields ih =>
    obtain ⟨first, free⟩ := List.forall_mem_cons.mp free
    rw [List.foldl_cons, setFrom]
    split
    · rename_i valid
      rw [ih (steady.setField laid f _) free, word_setField laid there steady outside unsealed
        (fun is => named (is ▸ valid)) (first valid)]
    · exact ih steady free

theorem word_setFields (steady : h.Steady d₀ d) (m : Match) (outside : s ∉ checksums)
    (unsealed : s ∉ sealSpots) (named : (m.get .ipProto).valid = true → s ∉ protocolSpots)
    {kept : BitVec 16}
    (free : ∀ f, (m.get f).valid = true → ∀ t ∈ f.spots, t.1 = s → t.2 &&& kept = 0) :
    (FieldWrite.setFields h m d).word 2 p &&& kept = d.word 2 p &&& kept :=
  word_foldl laid there steady m outside unsealed named fun f _ => free f

end

end Headers

namespace Frame

/-- Setting fields of a frame that was read succeeds. -/
theorem setFields_ok {f : Frame} {h : Headers} (held : f.headers? = some h)
    (read : Headers.parse f.data = .ok h) (m : Match) :
    ∃ g, f.setFields m = (.ok (), g) ∧ g.data = FieldWrite.setFields h m f.data ∧
      g.Consistent ∧ g.context? = f.context?.map (Action.setField m).context := by
  have steady := (Headers.steady_refl h f.data).setFields (Headers.laid_of_parse read) m
  obtain ⟨g, altered, data, consistent, context⟩ := alter_data held read
    (fun h d => FieldWrite.setFields h m d) steady.length
  unfold setFields Action.context
  dsimp only
  rw [altered]
  cases tunnel : (m.get .tunnelId).valid with
  | false => exact ⟨g, rfl, data, consistent, by simp [context]⟩
  | true =>
    refine ⟨_, rfl, data, updateContext_consistent _ consistent, ?_⟩
    rw [context?_updateContext, context]
    rfl

end Frame

end FlowSwitch
