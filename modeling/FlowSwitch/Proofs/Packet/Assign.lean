import FlowSwitch.Proofs.Packet.Tag
import FlowSwitch.Proofs.Packet.Values

/-!
# Setting one value

A setter writes to the cell of one value and to checksums. So the frame is read afterwards with
the new value and all others as they were, if it has a place for the value.
-/

namespace FlowSwitch

namespace Reading

/-- The words that the value is written to, each with the bits that are replaced. -/
def spots : Reading → List (Spot × BitVec 16)
  | field f => f.spots
  | ipTtl => [((.ipv4, 4), 0xff00), ((.ipv6, 3), 0x00ff)]
  | mplsTtl => [((.mpls, 0), 0), ((.mpls, 1), 0x00ff)]
  | dei => []

/-- The value can be set by itself and tells no layer. -/
def isSettable : Reading → Bool
  | field f => !f.isStructural
  | ipTtl | mplsTtl => true
  | dei => false

theorem spots_distinct (r : Reading) : (r.spots.map (·.1)).Nodup := by
  have each : ∀ r ∈ all, (r.spots.map (·.1)).Nodup := by decide
  exact each r r.mem_all

/-- The value is part of the control word of a tag, which is written as a whole. -/
def isTag : Reading → Bool
  | field f => f.isTag
  | _ => false

/-- Apart from a tag, only bits of the value are written. -/
theorem spots_own {r : Reading} (settable : r.isSettable = true) (plain : r.isTag = false) :
    ∀ t ∈ r.spots, t ∈ r.own ∨ t.2 = 0 := by
  have each : ∀ r ∈ all, r.isSettable = true → r.isTag = false →
      ∀ t ∈ r.spots, t ∈ r.own ∨ t.2 = 0 := by
    decide
  exact each r r.mem_all settable plain

end Reading

namespace Headers

open FieldWrite (halves)

/-- What is written for a value. -/
def spellAs (h : Headers) : (r : Reading) → BitVec r.width → List (BitVec 16)
  | .field f, v => h.spell f v
  | .ipTtl, v => [v.setWidth 16 <<< 8, v.setWidth 16]
  | .mplsTtl, v => halves (v.setWidth 32)
  | .dei, _ => []

/-- The setter of a value. -/
def assign (h : Headers) (d : Bytes) : (r : Reading) → BitVec r.width → Bytes
  | .field f, v => FieldWrite.setField h d f v
  | .ipTtl, v => FieldWrite.setIpTtl h v d
  | .mplsTtl, v => FieldWrite.setMplsTtl h v d
  | .dei, _ => d

def sealAs (h : Headers) : Reading → Bytes → Bytes
  | .field f, d => h.resealIf f d
  | _, d => d

variable {h h' : Headers} {d d' : Bytes} {r s : Reading} {k : PacketContext}

section

variable (laid : h.Laid d) (settable : r.isSettable = true)
include laid settable

theorem assign_eq (v : BitVec r.width) :
    h.assign d r v =
      h.sealAs r ((h.script (h.live d) d r.spots (h.spellAs r v)).foldl Edit.apply d) := by
  cases r with
  | field f =>
    refine setField_eq laid (steady_refl h d) (fun is => ?_) v
    subst is
    cases settable
  | ipTtl => exact setIpTtl_eq laid v
  | mplsTtl => exact setMpls_eq laid (steady_refl h d) 0xff (v.setWidth 32)
  | dei => cases settable

theorem kept_assign (v : BitVec r.width) : h.Kept d (h.assign d r v) := by
  have times (short : r.spots ⊆ ttlSpots)
      (made : h.assign d r v =
        (h.script (h.live d) d r.spots (h.spellAs r v)).foldl Edit.apply d) :
      h.Kept d (h.assign d r v) := by
    rw [made]
    exact kept_script laid short _ _
  cases r with
  | field f => exact kept_setField laid (by simpa [Reading.isSettable] using settable) v
  | ipTtl => exact times (by decide) (assign_eq laid settable v)
  | mplsTtl => exact times (by decide) (assign_eq laid settable v)
  | dei => cases settable

end

/-! ## The value that is set -/

theorem word_sealAs (laid : h.Laid d) {t : Spot} {p : Nat} (there : h.place? d t = some p)
    (unsealed : t ∉ sealSpots) (r : Reading) (d' : Bytes) :
    (h.sealAs r d').word 2 p = d'.word 2 p := by
  cases r with
  | field f =>
    rw [sealAs, resealIf]
    split
    · exact word_reseal laid there unsealed
    · rfl
  | _ => rfl

theorem idWord_extract (h : Headers) (v : BitVec 16) :
    (h.idWord v).extractLsb' 0 12 = v.setWidth 12 := by
  have cleared : (~~~(0x0fff : BitVec 16)).setWidth 12 = 0 := by decide
  have ones : (0x0fff : BitVec 16).setWidth 12 = BitVec.allOnes 12 := by decide
  rw [idWord, tagWord, ← BitVec.setWidth_eq_extractLsb' (by decide), BitVec.setWidth_or,
    BitVec.setWidth_and, BitVec.setWidth_and, cleared, ones, BitVec.and_allOnes]
  simp

theorem priorityWord_extract (h : Headers) (v : BitVec 8) :
    (h.priorityWord v).extractLsb' 13 3 = v.setWidth 3 := by
  have cleared : (~~~(0xe000 : BitVec 16)).extractLsb' 13 3 = 0 := by decide
  have ones : (7 : BitVec 8).setWidth 3 = BitVec.allOnes 3 := by decide
  have placed : ((v &&& 7).setWidth 16 <<< 13).extractLsb' 13 3 = v.setWidth 3 := by
    rw [Bytes.extractLsb'_setWidth_shiftLeft _ (by decide), BitVec.setWidth_and, ones,
      BitVec.and_allOnes]
  rw [priorityWord, tagWord, BitVec.extractLsb'_or, BitVec.extractLsb'_and, cleared, placed]
  simp

/-- The setter of a value spells it in its cell. -/
theorem spelled_spellAs (settable : r.isSettable = true) {c : Cell} (listed : c ∈ r.cells)
    (v : BitVec r.width) : c.Spelled r.spots (h.spellAs r v) (v.setWidth r.bits) := by
  have only {e : Cell} (cells : r.cells = [e])
      (spelled : e.Spelled r.spots (h.spellAs r v) (v.setWidth r.bits)) :
      c.Spelled r.spots (h.spellAs r v) (v.setWidth r.bits) := by
    rw [cells] at listed
    rwa [List.mem_singleton.mp listed]
  cases r with
  | field f =>
    cases f with
    | inPort | inPhyPort | metadata | tunnelId | ipv6Exthdr => cases listed
    | ethType | ipProto | icmpv6Type | mplsBos => cases settable
    | tcpSrc | tcpDst | udpSrc | udpDst | sctpSrc | sctpDst | arpOp =>
      exact only rfl (Cell.spelled_whole (n := 1) v)
    | ipv4Src | ipv4Dst | arpSpa | arpTpa => exact only rfl (Cell.spelled_whole (n := 2) v)
    | ethDst | ethSrc | arpSha | arpTha | ipv6NdSll | ipv6NdTll =>
      exact only rfl (Cell.spelled_whole (n := 3) v)
    | ipv6Src | ipv6Dst | ipv6NdTarget => exact only rfl (Cell.spelled_whole (n := 8) v)
    | vlanVid =>
      have word : (h.idWord v).extractLsb' 0 12 = BitVec.setWidth 12 v := h.idWord_extract v
      exact only rfl (word ▸ Cell.spelled_word (m := 0xffff) List.mem_cons_self (by decide))
    | vlanPcp =>
      have word : (h.priorityWord v).extractLsb' 13 3 = BitVec.setWidth 3 v :=
        h.priorityWord_extract v
      exact only rfl (word ▸ Cell.spelled_word (m := 0xffff) List.mem_cons_self (by decide))
    | icmpv4Type =>
      have word : (BitVec.setWidth 16 v <<< 8).extractLsb' 8 8 = BitVec.setWidth 8 v :=
        Bytes.extractLsb'_setWidth_shiftLeft v (by decide)
      exact only rfl (word ▸ Cell.spelled_word (m := 0xff00) List.mem_cons_self (by decide))
    | icmpv4Code | icmpv6Code =>
      have word : (BitVec.setWidth 16 v).extractLsb' 0 8 = BitVec.setWidth 8 v :=
        Bytes.extractLsb'_zero_setWidth v (by decide) (by decide)
      exact only rfl (word ▸ Cell.spelled_word (m := 0x00ff) List.mem_cons_self (by decide))
    | ipv6Flabel =>
      have bits : (BitVec.extractLsb' 0 20 v : BitVec 20) = BitVec.setWidth 20 v :=
        (BitVec.setWidth_eq_extractLsb' (by decide)).symm
      exact only rfl (bits ▸ Cell.spelled_halves (m := 0x000f) v (by decide) (by decide))
    | pbbIsid =>
      have bits : (BitVec.extractLsb' 0 24 v : BitVec 24) = BitVec.setWidth 24 v :=
        (BitVec.setWidth_eq_extractLsb' (by decide)).symm
      exact only rfl (bits ▸ Cell.spelled_halves v (by decide) (by decide))
    | mplsLabel =>
      have bits (v : BitVec 32) : (v <<< 12).extractLsb' 12 20 = v.setWidth 20 :=
        Bytes.extractLsb'_shiftLeft_self v (by decide)
      exact only rfl (bits v ▸ Cell.spelled_halves (v <<< 12) (by decide) (by decide))
    | mplsTc =>
      have bits : (BitVec.setWidth 32 v <<< 9).extractLsb' 9 3 = BitVec.setWidth 3 v :=
        Bytes.extractLsb'_setWidth_shiftLeft v (by decide)
      exact only rfl (bits ▸ Cell.spelled_halves _ (by decide) (by decide))
    | ipDscp =>
      rcases List.mem_cons.mp listed with rfl | second
      · exact codePoint_word v ▸ Cell.spelled_word List.mem_cons_self (by decide)
      · obtain rfl := List.mem_singleton.mp second
        exact codePoint_upper v ▸
          Cell.spelled_word (List.mem_cons_of_mem _ List.mem_cons_self) (by decide)
    | ipEcn =>
      rcases List.mem_cons.mp listed with rfl | second
      · have word : (BitVec.setWidth 16 v).extractLsb' 0 2 = BitVec.setWidth 2 v :=
          Bytes.extractLsb'_zero_setWidth v (by decide) (by decide)
        exact word ▸ Cell.spelled_word List.mem_cons_self (by decide)
      · obtain rfl := List.mem_singleton.mp second
        have bits : (BitVec.setWidth 32 v <<< 20).extractLsb' 20 2 = BitVec.setWidth 2 v :=
          Bytes.extractLsb'_setWidth_shiftLeft v (by decide)
        exact bits ▸ (Cell.spelled_halves _ (by decide) (by decide)).cons _ _
  | ipTtl =>
    rcases List.mem_cons.mp listed with rfl | second
    · have word : (BitVec.setWidth 16 v <<< 8).extractLsb' 8 8 = BitVec.setWidth 8 v :=
        Bytes.extractLsb'_setWidth_shiftLeft v (by decide)
      exact word ▸ Cell.spelled_word List.mem_cons_self (by decide)
    · obtain rfl := List.mem_singleton.mp second
      have word : (BitVec.setWidth 16 v).extractLsb' 0 8 = BitVec.setWidth 8 v :=
        Bytes.extractLsb'_zero_setWidth v (by decide) (by decide)
      exact word ▸ Cell.spelled_word (List.mem_cons_of_mem _ List.mem_cons_self) (by decide)
  | mplsTtl =>
    have bits : (BitVec.setWidth 32 v).extractLsb' 0 8 = BitVec.setWidth 8 v :=
      Bytes.extractLsb'_zero_setWidth v (by decide) (by decide)
    exact only rfl (bits ▸ Cell.spelled_halves _ (by decide) (by decide))
  | dei => cases settable

section

variable (laid : h.Laid d) (settable : r.isSettable = true)
include laid settable

theorem value_assign {c : Cell} (listed : c ∈ r.cells) {b : Nat}
    (there : h.base? d c.layer = some b) (v : BitVec r.width) :
    c.value r.bits (h.assign d r v) b = v.setWidth r.bits := by
  have sound := r.sound listed
  have length : ((h.script (h.live d) d r.spots (h.spellAs r v)).foldl Edit.apply d).length =
      d.length := Edit.length_foldl ..
  rw [← value_script laid (h.live d) rfl sound there r.spots_distinct
    (spelled_spellAs settable listed v)]
  refine value_congr laid length (kept_assign laid settable v).length sound there
    fun k small p at_ => ?_
  rw [assign_eq laid settable, word_sealAs laid at_ (sound.2.2 k small).2]

end

/-! ## The bits that stay -/

/-- The other bits of a tag are written as they were read. -/
theorem tagWord_and {mask value kept : BitVec 16} (within : value &&& mask = value)
    (apart : mask &&& kept = 0) : h.tagWord mask value &&& kept = h.tci &&& kept := by
  have becomes : h.tagWord mask value = Edit.becomes ⟨0, mask, value, []⟩ h.tci := by
    rw [Edit.becomes, within]
    rfl
  rw [becomes, Edit.becomes_and apart]

theorem word_assign_tag (laid : h.Laid d) {tag : VlanTag} (is : h.vlan = some tag)
    (isTag : r.isTag = true) {kept : BitVec 16}
    (free : ∀ u ∈ r.own, u.1 = (.tci, 0) → u.2 &&& kept = 0) (v : BitVec r.width) :
    (h.assign d r v).word 2 (tag.offset + 2) &&& kept =
      d.word 2 (tag.offset + 2) &&& kept := by
  have steady := steady_refl h d
  rw [word_tci laid is]
  cases r with
  | field f =>
    cases f with
    | vlanVid =>
      have apart : (0x0fff : BitVec 16) &&& kept = 0 :=
        free ((.tci, 0), 0x0fff) (by decide) rfl
      have word : (h.assign d (.field .vlanVid) v).word 2 (tag.offset + 2) = h.idWord v :=
        word_setField_tag (f := .vlanVid) laid steady is rfl rfl
      have within (v : BitVec 16) : (v &&& 0x0fff) &&& 0x0fff = v &&& 0x0fff := by
        rw [BitVec.and_assoc, BitVec.and_self]
      rw [word]
      exact tagWord_and (within v) apart
    | vlanPcp =>
      have apart : (0xe000 : BitVec 16) &&& kept = 0 :=
        free ((.tci, 0), 0xe000) (by decide) rfl
      have word : (h.assign d (.field .vlanPcp) v).word 2 (tag.offset + 2) = h.priorityWord v :=
        word_setField_tag (f := .vlanPcp) laid steady is rfl rfl
      have bits : (0xe000 : BitVec 16) = (7 : BitVec 8).setWidth 16 <<< 13 := by decide
      have within (v : BitVec 8) : ((v &&& 7).setWidth 16 <<< 13) &&& (0xe000 : BitVec 16) =
          (v &&& 7).setWidth 16 <<< 13 := by
        rw [bits, ← BitVec.shiftLeft_and_distrib, ← BitVec.setWidth_and, BitVec.and_assoc,
          BitVec.and_self]
      rw [word]
      exact tagWord_and (within v) apart
    | _ => cases isTag
  | _ => cases isTag

/-- The bits of a word that are not those of the value stay. -/
theorem word_assign (laid : h.Laid d) (settable : r.isSettable = true) {t : Spot} {p : Nat}
    (there : h.place? d t = some p) (outside : t ∉ checksums) (unsealed : t ∉ sealSpots)
    {kept : BitVec 16} (free : ∀ u ∈ r.own, u.1 = t → u.2 &&& kept = 0) (v : BitVec r.width) :
    (h.assign d r v).word 2 p &&& kept = d.word 2 p &&& kept := by
  have script (free : ∀ u ∈ r.spots, u.1 = t → u.2 &&& kept = 0) :
      (h.assign d r v).word 2 p &&& kept = d.word 2 p &&& kept := by
    rw [assign_eq laid settable, word_sealAs laid there unsealed]
    exact word_script laid there outside free _ _
  cases isTag : r.isTag with
  | false =>
    refine script fun u listed same => ?_
    rcases Reading.spots_own settable isTag u listed with own | none
    · exact free u own same
    · rw [none]
      exact BitVec.zero_and
  | true =>
    by_cases control : t = (.tci, 0)
    · subst control
      obtain ⟨-, b, base, here⟩ := place?_eq_some.mp there
      obtain ⟨tag, is, rfl⟩ := Option.map_eq_some_iff.mp base
      obtain rfl : p = tag.offset + 2 := here
      exact word_assign_tag laid is isTag free v
    · refine script fun u listed same => absurd same ?_
      have spots : r.spots = [((.tci, 0), 0xffff)] := by
        cases r with
        | field f =>
          cases f with
          | vlanVid | vlanPcp => rfl
          | _ => cases isTag
        | _ => cases isTag
      rw [spots, List.mem_singleton] at listed
      rw [listed]
      exact Ne.symm control

/-! ## Values without their header -/

/-- The header of a value is missing; no message of type zero has a target. -/
def Lacks (h : Headers) (r : Reading) : Prop :=
  h.bears r = false ∧ (r = .field .ipv6NdTarget → ∀ m, h.icmpv6? = some m → m.type ≠ 0)

theorem version_of_lacks {accepts : IpHeader → Bool} (absent : h.ip?.any accepts = false) :
    (h.ip?.filter accepts).map (·.offset) = none := by
  cases is : h.ip? with
  | none => rfl
  | some ip =>
    rw [is, Option.any_some] at absent
    rw [Option.filter_some, if_neg (by simp [absent]), Option.map_none]

theorem base?_of_noIp (absent : h.ip?.isSome = false) {l : Layer} (isIp : l = .ipv4 ∨ l = .ipv6) :
    h.base? d l = none := by
  have bare : h.ip? = none := Option.isNone_iff_eq_none.mp (by simpa using absent)
  have none {accepts : IpHeader → Bool} : h.ip?.any accepts = false := by
    rw [bare, Option.any_none]
  rcases isIp with rfl | rfl
  · exact version_of_lacks none
  · exact version_of_lacks none

theorem base?_of_silent {l : Layer} (rank : l.rank = 5) (absent : h.speaks l = false) :
    h.base? d l = none := by
  refine base?_of_other rank fun t is => ?_
  simpa [speaks, is] using absent

theorem icmpv6Offset?_of_lacks {accepts : BitVec 8 → Bool}
    (absent : ∀ m, h.icmpv6? = some m → accepts m.type = false) :
    FieldWrite.icmpv6Offset? h accepts = none := by
  cases found : FieldWrite.icmpv6Offset? h accepts with
  | none => rfl
  | some o =>
    obtain ⟨m, p, is, accepted⟩ := icmpv6Offset?_eq_some.mp found
    rw [absent m (icmpv6?_of_transport is)] at accepted
    cases accepted

/-- A message that is no neighbour message has no target, unless its type is zero. -/
theorem base?_target_of_lacks (absent : h.neighbor?.isSome = false)
    (typed : ∀ m, h.icmpv6? = some m → m.type ≠ 0) : h.base? d .target = none := by
  rw [base?, icmpv6Offset?_of_lacks fun m is => ?_, Option.bind_none]
  have other : m.isNeighbor = false := by simpa [neighbor?, is] using absent
  have stray : (m.type == 0) = false := by simpa using typed m is
  rw [stray, Bool.false_or]
  exact other

theorem linkOffset?_of_lacks {type : BitVec 8} {optionType : UInt8}
    (absent : h.icmpv6?.any (·.type == type) = false) : h.linkOffset? d type optionType = none := by
  rw [linkOffset?, icmpv6Offset?_of_lacks fun m is => by rwa [is, Option.any_some] at absent,
    Option.bind_none]

theorem base?_of_lacks (settable : r.isSettable = true) (lacks : h.Lacks r) :
    ∀ c ∈ r.cells, h.base? d c.layer = none := by
  obtain ⟨bears, typed⟩ := lacks
  have only {e : Cell} (cells : r.cells = [e]) (absent : h.base? d e.layer = none) :
      ∀ c ∈ r.cells, h.base? d c.layer = none := by
    rw [cells, List.forall_mem_singleton]
    exact absent
  have missing {α : Type} {found : Option α} {place : α → Nat} (absent : found.isSome = false) :
      found.map place = none := by
    rw [Option.map_eq_none_iff]
    simpa using absent
  cases r with
  | field f =>
    cases f with
    | ethDst | ethSrc => cases bears
    | inPort | inPhyPort | metadata | tunnelId | ipv6Exthdr => exact List.forall_mem_nil _
    | ethType | ipProto | icmpv6Type | mplsBos => cases settable
    | vlanVid | vlanPcp => exact only rfl (missing bears)
    | mplsLabel | mplsTc => exact only rfl (missing bears)
    | pbbIsid => exact only rfl (missing bears)
    | arpOp | arpSpa | arpTpa | arpSha | arpTha => exact only rfl (missing bears)
    | ipDscp | ipEcn => exact fun c listed => base?_of_noIp bears (by revert c; decide)
    | ipv4Src | ipv4Dst | ipv6Src | ipv6Dst | ipv6Flabel => exact only rfl (version_of_lacks bears)
    | tcpSrc | tcpDst | udpSrc | udpDst | sctpSrc | sctpDst | icmpv4Type | icmpv4Code
    | icmpv6Code => exact only rfl (base?_of_silent rfl bears)
    | ipv6NdTarget => exact only rfl (base?_target_of_lacks bears (typed rfl))
    | ipv6NdSll | ipv6NdTll => exact only rfl (linkOffset?_of_lacks bears)
  | ipTtl => exact fun c listed => base?_of_noIp bears (by revert c; decide)
  | mplsTtl => exact only rfl (missing bears)
  | dei => cases settable

/-- Without its header a value is not set. -/
theorem assign_of_lacks (laid : h.Laid d) (settable : r.isSettable = true) (lacks : h.Lacks r)
    (v : BitVec r.width) : h.assign d r v = d := by
  have inside : ∀ r ∈ Reading.all, r.isSettable = true → ∀ t ∈ r.spots,
      ∃ c ∈ r.cells, c.layer = t.1.1 := by
    decide
  have absent : ∀ t ∈ r.spots, h.base? d t.1.1 = none := by
    intro t listed
    obtain ⟨c, here, layer⟩ := inside r r.mem_all settable t listed
    rw [← layer]
    exact base?_of_lacks settable lacks c here
  have silent (noPort : h.speaks .sctp = false) : h.reseal d = d := by
    rw [reseal]
    split
    · rename_i is
      rw [speaks, is] at noPort
      cases noPort
    · rfl
  rw [assign_eq laid settable, script_of_none absent, List.foldl_nil]
  cases r with
  | field f =>
    rw [sealAs, resealIf]
    split
    · rename_i port
      rcases port with rfl | rfl
      · exact silent lacks.1
      · exact silent lacks.1
    · rfl
  | _ => rfl

/-! ## Reading after setting -/

/-- At most one cell of a value is there. -/
theorem cell_unique (laid : h.Laid d) {c e : Cell} (listed : c ∈ r.cells) (also : e ∈ r.cells)
    {b a : Nat} (there : h.base? d c.layer = some b) (there' : h.base? d e.layer = some a) :
    e = c ∧ a = b := by
  have each : ∀ r ∈ Reading.all, ∀ c ∈ r.cells, ∀ e ∈ r.cells,
      c.layer.rank = e.layer.rank ∧ (c.layer = e.layer → c = e) := by
    decide
  obtain ⟨rank, same⟩ := each r r.mem_all c listed e also
  have layer := layer_unique laid there there' rank
  rw [← layer, there] at there'
  exact ⟨(same layer).symm, (Option.some.inj there').symm⟩

/-- A value that has a place is what stands there. -/
theorem reads_cell (read : parse d = .ok h) (carried : h.carries d r = true) {c : Cell}
    (listed : c ∈ r.cells) {b : Nat} (there : h.base? d c.layer = some b) :
    PacketView.reads ⟨h, k⟩ r = some (r.widen (c.value r.bits d b)) := by
  obtain ⟨e, also, a, there', said⟩ :=
    tells_of_parse (k := k) read carried (List.ne_nil_of_mem listed)
  obtain ⟨rfl, rfl⟩ := cell_unique (laid_of_parse read) listed also there there'
  exact said

/-- The frame is read with the new value, and no other value changes. -/
theorem reads_assign (read : parse d = .ok h) (settable : r.isSettable = true)
    (v : BitVec r.width) :
    ∃ h', parse (h.assign d r v) = .ok h' ∧ h'.blank = h.blank ∧
      (∀ s ≠ r, PacketView.reads ⟨h', k⟩ s = PacketView.reads ⟨h, k⟩ s) ∧
      (r.cells ≠ [] → h.carries d r = true →
        PacketView.reads ⟨h', k⟩ r = some (r.truncate v)) ∧
      (r.cells = [] ∨ h.carries d r = false → h' = h) := by
  have laid := laid_of_parse read
  have kept := kept_assign laid settable v
  obtain ⟨h', read', same⟩ := parse_kept read kept
  have carries (s : Reading) := carries_congr same laid kept.toInside s
  have base {l : Layer} {b : Nat} (there : h.base? d l = some b) :
      h'.base? (h.assign d r v) l = some b := by
    rw [base?_blank_congr same, ((steady_refl h d).inside laid kept.toInside).base, there]
  have absent {s : Reading} (absent : s.cells = [] ∨ h.carries d s = false) :
      PacketView.reads ⟨h', k⟩ s = PacketView.reads ⟨h, k⟩ s := by
    rw [reads_blank read absent, reads_blank read' (by rwa [carries]), same]
  have others (s : Reading) (ne : s ≠ r) :
      PacketView.reads ⟨h', k⟩ s = PacketView.reads ⟨h, k⟩ s := by
    by_cases bare : s.cells = [] ∨ h.carries d s = false
    · exact absent bare
    · rw [not_or, Bool.not_eq_false] at bare
      obtain ⟨celled, carried⟩ := bare
      obtain ⟨c, listed, b, there, -⟩ := tells_of_parse (k := k) read carried celled
      have sound := s.sound listed
      have value : c.value s.bits (h.assign d r v) b = c.value s.bits d b :=
        value_congr laid rfl kept.length sound there fun i small p at_ =>
          word_assign laid settable at_ (sound.2.2 i small).1 (sound.2.2 i small).2
            (Reading.own_apart ne listed small) v
      rw [reads_cell read carried listed there,
        reads_cell read' (by rwa [carries]) listed (base there), value]
  refine ⟨h', read', same, others, fun celled carried => ?_, fun bare => ?_⟩
  · obtain ⟨c, listed, b, there, -⟩ := tells_of_parse (k := k) read carried celled
    rw [reads_cell read' (by rwa [carries]) listed (base there),
      value_assign laid settable listed there]
    rfl
  · refine eq_of_reads (k := k) (fun s => ?_) same read read'
    by_cases self : s = r
    · subst self
      exact absent bare
    · exact others s self

end Headers

open Headers (parse)

namespace PacketView

/-- The view `w` is `v` with the value `x` for `r`. -/
structure SetTo (v w : PacketView) (r : Reading) (x : BitVec r.width) : Prop where
  value : w.reads r = some x
  others : ∀ s ≠ r, w.reads s = v.reads s
  layers : w.headers.blank = v.headers.blank
  queue : w.context.queueId = v.context.queueId

/-- There is one such view of a frame that was read. -/
theorem SetTo.unique {v w w' : PacketView} {r : Reading} {x : BitVec r.width} {d d' : Bytes}
    (set : v.SetTo w r x) (set' : v.SetTo w' r x) (read : parse d = .ok w.headers)
    (read' : parse d' = .ok w'.headers) : w' = w := by
  have values (s : Reading) : w'.reads s = w.reads s := by
    by_cases self : s = r
    · subst self
      rw [set.value, set'.value]
    · rw [set.others s self, set'.others s self]
  obtain ⟨h, inPort, inPhyPort, metadata, tunnelId, queueId⟩ := w
  obtain ⟨h', inPort', inPhyPort', metadata', tunnelId', queueId'⟩ := w'
  obtain rfl : inPort' = inPort :=
    UInt32.toBitVec_inj.mp (Option.some.inj (values (.field .inPort)))
  obtain rfl : inPhyPort' = inPhyPort :=
    UInt32.toBitVec_inj.mp (Option.some.inj (values (.field .inPhyPort)))
  obtain rfl : metadata' = metadata :=
    UInt64.toBitVec_inj.mp (Option.some.inj (values (.field .metadata)))
  obtain rfl : tunnelId' = tunnelId :=
    UInt64.toBitVec_inj.mp (Option.some.inj (values (.field .tunnelId)))
  obtain rfl : queueId' = queueId := set'.queue.trans set.queue.symm
  have headers : h' = h :=
    Headers.eq_of_reads values (set'.layers.trans set.layers.symm) read read'
  rw [headers]

end PacketView

namespace FieldWrite

/-- A match of one field sets that field. -/
theorem setFields_one {m : Match} {x : Field} (only : m.fields = [x]) (h : Headers) (d : Bytes) :
    setFields h m d = setField h d x (m.get x).value := by
  have step : setFields h m d = m.fields.foldl (fun d f => setField h d f (m.get f).value) d := by
    rw [setFields, Match.fields, List.foldl_filter]
  rw [step, only]
  rfl

end FieldWrite

namespace Frame

/-- The frame `g` is `f` with the value `x` set for `r`, as far as `f` has a place for it. -/
structure Assigns (f g : Frame) (v : PacketView) (r : Reading) (x : BitVec r.width) : Prop where
  consistent : g.Consistent
  carried : v.headers.carries f.data r = true →
    ∃ w, g.view = some w ∧ v.SetTo w r (r.truncate x)
  absent : v.headers.carries f.data r = false → g.view = f.view
  bare : v.headers.Lacks r → g = f

variable {f g : Frame} {v : PacketView}

theorem view_of_consistent {d : Bytes} {h : Headers} {c : PacketContext} (consistent : g.Consistent)
    (data : g.data = d) (read : parse d = .ok h) (context : g.context? = some c) :
    g.view = some ⟨h, c⟩ := by
  obtain ⟨h', c', view, read'⟩ := consistent.view
  rw [data, read] at read'
  rw [context?, view] at context
  obtain rfl := Except.ok.inj read'
  obtain rfl : c' = c := Option.some.inj context
  exact view

/-- A frame that a setter leaves. -/
theorem assigns_of_data (viewed : f.view = some v) (read : parse f.data = .ok v.headers)
    {r : Reading} (settable : r.isSettable = true) (other : r ≠ .field .tunnelId)
    (x : BitVec r.width) (data : g.data = v.headers.assign f.data r x)
    (consistent : g.Consistent) (context : g.context? = f.context?) : f.Assigns g v r x := by
  have laid := Headers.laid_of_parse read
  obtain ⟨h', read', same, others, value, bare⟩ :=
    Headers.reads_assign (k := v.context) read settable x
  have kept : f.context? = some v.context := by rw [context?, viewed, Option.map_some]
  have view : g.view = some ⟨h', v.context⟩ :=
    view_of_consistent consistent data read' (context.trans kept)
  refine ⟨consistent, fun carried => ?_, fun absent => ?_, fun lacks => ?_⟩
  · have celled : r.cells ≠ [] := by
      intro none
      cases r with
      | field f =>
        cases f with
        | inPort | inPhyPort | metadata | ipv6Exthdr => cases carried
        | tunnelId => exact other rfl
        | ethType | ipProto | icmpv6Type => cases settable
        | _ => cases none
      | _ => cases none
    exact ⟨_, view, value celled carried, others, same, rfl⟩
  · rw [view, viewed, bare (.inr absent)]
  · have back := Headers.assign_of_lacks laid settable lacks x
    rw [back] at data read'
    obtain rfl : h' = v.headers := Except.ok.inj (read'.symm.trans read)
    obtain ⟨d, w⟩ := g
    obtain ⟨d', w'⟩ := f
    rw [Frame.mk.injEq]
    exact ⟨data, view.trans viewed.symm⟩

theorem setFields_tunnel (viewed : f.view = some v) (read : parse f.data = .ok v.headers)
    {m : Match} (only : m.fields = [.tunnelId]) :
    ∃ g, f.setFields m = (.ok (), g) ∧
      f.Assigns g v (.field .tunnelId) (m.get .tunnelId).value := by
  have held : f.headers? = some v.headers := by rw [headers?, viewed, Option.map_some]
  obtain ⟨g, set, data, consistent, context⟩ := setFields_ok held read m
  have valid : (m.get .tunnelId).valid = true :=
    (List.mem_filter.mp (only ▸ List.mem_singleton_self _ : Field.tunnelId ∈ m.fields)).2
  have same : g.data = f.data := data.trans (FieldWrite.setFields_one only ..)
  have known : f.context? = some v.context := by rw [context?, viewed, Option.map_some]
  have changed : (Action.setField m).context v.context =
      { v.context with tunnelId := ⟨(m.get .tunnelId).value⟩ } := if_pos valid
  rw [known, Option.map_some, changed] at context
  have view := view_of_consistent consistent same read context
  refine ⟨g, set, consistent, fun _ => ⟨_, view, ?_, fun s ne => ?_, rfl, rfl⟩,
    fun missing => absurd missing.symm Bool.false_ne_true,
    fun lacks => absurd lacks.1.symm Bool.false_ne_true⟩
  · have whole (x : BitVec 64) : (x.setWidth 64).setWidth 64 = x := by
      rw [BitVec.setWidth_eq, BitVec.setWidth_eq]
    exact congrArg some (whole (m.get .tunnelId).value).symm
  · cases s with
    | field s =>
      cases s with
      | tunnelId => exact absurd rfl ne
      | _ => rfl
    | _ => rfl

/-- A match of one field that tells no layer sets that field, as far as the frame has a place for
it, and nothing else; so do the setters of the times to live. Without its header the field is not
set. Only a message of type zero passes for one with a target: it is written there, though it is
not read. -/
theorem setFields_alone (viewed : f.view = some v) (read : parse f.data = .ok v.headers) :
    (∀ (m : Match) (x : Field), m.fields = [x] → x.isStructural = false →
      ∃ g, f.setFields m = (.ok (), g) ∧ f.Assigns g v (.field x) (m.get x).value) ∧
    (∀ ttl, ∃ g, f.setIpTtl ttl = (.ok (), g) ∧ f.Assigns g v .ipTtl ttl) ∧
    (∀ ttl, ∃ g, f.setMplsTtl ttl = (.ok (), g) ∧ f.Assigns g v .mplsTtl ttl) ∧
    ∀ (m : Match) (o : Nat) (message : Icmpv6Header) (p : Option Nat),
      m.fields = [.ipv6NdTarget] → v.headers.transport = some ⟨o, .icmpv6 message, p⟩ →
        message.type = 0 → o + 24 ≤ f.data.length →
          (f.setFields m).2.data.word 16 (o + 8) = (m.get .ipv6NdTarget).value := by
  have laid := Headers.laid_of_parse read
  have held : f.headers? = some v.headers := by rw [headers?, viewed, Option.map_some]
  have time {r : Reading} (settable : r.isSettable = true) (other : r ≠ .field .tunnelId)
      (x : BitVec r.width) :
      ∃ g, f.alter (fun h d => h.assign d r x) = (.ok (), g) ∧ f.Assigns g v r x := by
    obtain ⟨g, altered, data, consistent, context⟩ := alter_data held read
      (fun h d => h.assign d r x) (Headers.kept_assign laid settable x).length
    exact ⟨g, altered, assigns_of_data viewed read settable other x data consistent context⟩
  refine ⟨fun m x only plain => ?_, time (r := .ipTtl) rfl (by decide),
    time (r := .mplsTtl) rfl (by decide), fun m o message p only is typed room => ?_⟩
  · by_cases tunnel : x = .tunnelId
    · subst tunnel
      exact setFields_tunnel viewed read only
    · obtain ⟨g, set, data, consistent, context⟩ := setFields_ok held read m
      have other : (m.get .tunnelId).valid = false := by
        by_contra valid
        have listed : Field.tunnelId ∈ m.fields :=
          List.mem_filter.mpr ⟨Field.mem_all _, by simpa using valid⟩
        rw [only, List.mem_singleton] at listed
        exact tunnel listed.symm
      have keeps : (Action.setField m).context = id := by
        funext c
        exact if_neg (by simp [other])
      have settable : (Reading.field x).isSettable = true := by rw [Reading.isSettable, plain]; rfl
      refine ⟨g, set, assigns_of_data viewed read settable (by simpa using tunnel) _
        (data.trans (FieldWrite.setFields_one only ..)) consistent ?_⟩
      rw [context, keeps, Option.map_id_fun, id]
  · obtain ⟨g, set, data, -⟩ := setFields_ok held read m
    rw [set, data, FieldWrite.setFields_one only]
    have there : v.headers.base? f.data .target = some (o + 8) := by
      rw [Headers.base?, Headers.icmpv6Offset?_eq_some.mpr ⟨message, p, is, by rw [typed]; rfl⟩,
        Option.bind_some, if_pos room]
    have value := Headers.value_assign (r := .field .ipv6NdTarget) laid rfl
      (List.mem_singleton_self _) there (m.get .ipv6NdTarget).value
    have whole (x y : BitVec 128) (same : x.extractLsb' 0 128 = y.setWidth 128) : x = y := by
      rwa [BitVec.extractLsb'_eq_self, BitVec.setWidth_eq] at same
    exact whole _ _ value

/-- A message from `2001:db8::1` about `2001:db8::2` with the option of a source address. -/
def message (type : UInt8) : Bytes := [
  0x02, 0x00, 0x00, 0x00, 0x00, 0x02, 0x02, 0x00, 0x00, 0x00, 0x00, 0x01, 0x86, 0xdd,
  0x60, 0x00, 0x00, 0x00, 0x00, 0x20, 0x3a, 0xff,
  0x20, 0x01, 0x0d, 0xb8, 0, 0, 0, 0, 0, 0, 0, 0, 0, 0, 0, 0x01,
  0x20, 0x01, 0x0d, 0xb8, 0, 0, 0, 0, 0, 0, 0, 0, 0, 0, 0, 0x02,
  type, 0x00, 0x00, 0x00, 0, 0, 0, 0,
  0x20, 0x01, 0x0d, 0xb8, 0, 0, 0, 0, 0, 0, 0, 0, 0, 0, 0, 0x02,
  0x01, 0x01, 0x02, 0x00, 0x00, 0x00, 0x00, 0x01]

def messageHeaders (said : Icmpv6Header) : Headers where
  length := 86
  ethDst := 0x020000000002
  ethSrc := 0x020000000001
  ethType := EtherType.ipv6
  framing := { ethernet2 := true }
  vlan := none
  payload := some 14
  mpls := none
  pbb := none
  network := some (.ip ⟨14, 86, 0, 0, 255, 58,
    .v6 0x20010db8000000000000000000000001 0x20010db8000000000000000000000002 0 {}⟩)
  transport := some ⟨54, .icmpv6 said, some 58⟩

/-- A solicitation. -/
def solicitation : Icmpv6Header :=
  ⟨135, 0, 0x20010db8000000000000000000000002, 0x020000000001⟩

theorem setFields_alone_sourceLink :
    Headers.parse (message 135) = .ok (messageHeaders solicitation) ∧
      ∃ g w, setFields (Match.any.set .ipv6NdSll (.exact 0x02000000000a))
          ⟨message 135, some ⟨messageHeaders solicitation, {}⟩⟩ = (.ok (), g) ∧
        g.view = some w ∧ w.reads (.field .ipv6NdSll) = some 0x02000000000a ∧
        w.reads (.field .ipv6NdTarget) = some 0x20010db8000000000000000000000002 := by
  have read : Headers.parse (message 135) = .ok (messageHeaders solicitation) := by
    decide +kernel
  obtain ⟨fields, -⟩ := setFields_alone
    (f := ⟨message 135, some ⟨messageHeaders solicitation, {}⟩⟩) rfl read
  obtain ⟨g, set, assigns⟩ :=
    fields (Match.any.set .ipv6NdSll (.exact 0x02000000000a)) .ipv6NdSll (by decide) rfl
  obtain ⟨w, view, set'⟩ := assigns.carried (by decide)
  refine ⟨read, g, w, set, view, set'.value.trans (by decide), ?_⟩
  exact (set'.others (.field .ipv6NdTarget) (by decide)).trans (by decide)

/-- A message of type zero has no target, and is changed when one is set. -/
theorem not_setFields_alone :
    ¬∀ (f : Frame) (v : PacketView) (m : Match) (x : Field), f.view = some v →
      Headers.parse f.data = .ok v.headers → m.fields = [x] → x.isStructural = false →
        v.headers.bears (.field x) = false → (f.setFields m).2 = f := by
  intro claimed
  have read : Headers.parse (message 0) = .ok (messageHeaders ⟨0, 0, 0, 0⟩) := by
    decide +kernel
  have kept := claimed ⟨message 0, some ⟨messageHeaders ⟨0, 0, 0, 0⟩, {}⟩⟩ _
    (Match.any.set .ipv6NdTarget (.exact 0xaa)) .ipv6NdTarget rfl read (by decide) rfl
    (by decide)
  revert kept
  decide +kernel

end Frame

end FlowSwitch
