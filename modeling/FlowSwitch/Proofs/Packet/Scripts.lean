import FlowSwitch.Proofs.Packet.Edits
import FlowSwitch.Proofs.Packet.Places

/-!
# Fields as edits

Which words of a frame a field is written to, under which masks, and which checksums cover
them. Setting a field carries out one edit for each of its words that the frame has; the
checksum of an SCTP packet is computed again after that.
-/

namespace FlowSwitch

namespace Field

/-- Whole words of a layer, from number `k` on. -/
def whole (l : Layer) (k : Nat) : Nat → List (Spot × BitVec 16)
  | 0 => []
  | n + 1 => ((l, k), 0xffff) :: whole l (k + 1) n

/-- The words a field is written to, each with the bits that are its own. The protocol of an IP
header is left out: it is covered by its place in the pseudo header too. -/
def spots : Field → List (Spot × BitVec 16)
  | ethDst => whole .ethernet 0 3
  | ethSrc => whole .ethernet 3 3
  | ethType => whole .etherType 0 1
  | vlanVid | vlanPcp => whole .tci 0 1
  | ipDscp => [((.ipv4, 0), 0x00fc), ((.ipv6, 0), 0x0fc0), ((.ipv6, 1), 0)]
  | ipEcn => [((.ipv4, 0), 0x0003), ((.ipv6, 0), 0x0030), ((.ipv6, 1), 0)]
  | ipv4Src => whole .ipv4 6 2
  | ipv4Dst => whole .ipv4 8 2
  | tcpSrc => whole .tcp 0 1
  | tcpDst => whole .tcp 1 1
  | udpSrc => whole .udp 0 1
  | udpDst => whole .udp 1 1
  | sctpSrc => whole .sctp 0 1
  | sctpDst => whole .sctp 1 1
  | icmpv4Type => [((.icmpv4, 0), 0xff00)]
  | icmpv4Code => [((.icmpv4, 0), 0x00ff)]
  | arpOp => whole .arp 3 1
  | arpSha => whole .arp 4 3
  | arpSpa => whole .arp 7 2
  | arpTha => whole .arp 9 3
  | arpTpa => whole .arp 12 2
  | ipv6Src => whole .ipv6 4 8
  | ipv6Dst => whole .ipv6 12 8
  | ipv6Flabel => [((.ipv6, 0), 0x000f), ((.ipv6, 1), 0xffff)]
  | icmpv6Type => [((.icmpv6, 0), 0xff00)]
  | icmpv6Code => [((.icmpv6, 0), 0x00ff)]
  | ipv6NdTarget => whole .target 0 8
  | ipv6NdSll => whole .sourceLink 0 3
  | ipv6NdTll => whole .targetLink 0 3
  | mplsLabel => [((.mpls, 0), 0xffff), ((.mpls, 1), 0xf000)]
  | mplsTc => [((.mpls, 0), 0), ((.mpls, 1), 0x0e00)]
  | mplsBos => [((.mpls, 0), 0), ((.mpls, 1), 0x0100)]
  | pbbIsid => [((.pbb, 0), 0x00ff), ((.pbb, 1), 0xffff)]
  | ipProto | inPort | inPhyPort | metadata | tunnelId | ipv6Exthdr => []

end Field

namespace FieldWrite

/-- The words of a word of 32 bits. -/
def halves (v : BitVec 32) : List (BitVec 16) := [upper v, lower v]

/-- The words of a type of service, and those of a traffic class. -/
def classWords (v : BitVec 8) : List (BitVec 16) := v.setWidth 16 :: halves (v.setWidth 32 <<< 20)

end FieldWrite

namespace Headers

open FieldWrite (halves classWords)

/-- The control word of the tag that was read, with some bits replaced. -/
def tagWord (h : Headers) (mask value : BitVec 16) : BitVec 16 :=
  ((h.vlan.map (·.tci)).getD 0 &&& ~~~mask) ||| value

def idWord (h : Headers) (vid : BitVec 16) : BitVec 16 := h.tagWord 0x0fff (vid &&& 0x0fff)

def priorityWord (h : Headers) (pcp : BitVec 8) : BitVec 16 :=
  h.tagWord 0xe000 ((pcp &&& 7).setWidth 16 <<< 13)

/-- What is written to the words of a field. A tag is spelled out from what was read of it. -/
def spell (h : Headers) : (f : Field) → BitVec f.width → List (BitVec 16)
  | .vlanVid, v => [h.idWord v]
  | .vlanPcp, v => [h.priorityWord v]
  | .ipDscp, v => classWords (v <<< 2)
  | .ipEcn, v => classWords v
  | .icmpv4Type, v | .icmpv6Type, v => [v.setWidth 16 <<< 8]
  | .icmpv4Code, v | .icmpv6Code, v => [v.setWidth 16]
  | .ipv6Flabel, v | .pbbIsid, v => halves v
  | .mplsLabel, v => halves (v <<< 12)
  | .mplsTc, v => halves (v.setWidth 32 <<< 9)
  | .mplsBos, v => halves (v.setWidth 32 <<< 8)
  | f, v => Bytes.wordsOf (f.size / 2) v.toNat

/-- The transport checksum that also covers the IP addresses. One that a UDP datagram does not
use is not `live`. -/
def pseudoSum (h : Headers) (live : Bool) : List Spot :=
  match h.transport with
  | some ⟨_, .tcp .., _⟩ => [(.tcp, 8)]
  | some ⟨_, .udp .., _⟩ => if live then [(.udp, 3)] else []
  | some ⟨_, .icmpv6 .., _⟩ => [(.icmpv6, 1)]
  | _ => []

/-- The checksums that cover a word. -/
def covering (h : Headers) (live : Bool) : Spot → List Spot
  | (.ipv4, k) => (.ipv4, 5) :: if 6 ≤ k then h.pseudoSum live else []
  | (.ipv6, k) => if 4 ≤ k then h.pseudoSum live else []
  | (.tcp, _) | (.udp, _) => h.pseudoSum live
  | (.icmpv4, _) => [(.icmpv4, 1)]
  | (.icmpv6, _) | (.target, _) | (.sourceLink, _) | (.targetLink, _) => [(.icmpv6, 1)]
  | _ => []

/-- The edit that writes to one word of a field, if the frame `d` has that word. -/
def edit? (h : Headers) (live : Bool) (d : Bytes) (write : (Spot × BitVec 16) × BitVec 16) :
    Option Edit :=
  (h.place? d write.1.1).map fun i =>
    ⟨i, write.1.2, write.2, (h.covering live write.1.1).filterMap (h.place? d)⟩

/-- The edits that write `ws` to some words. -/
def script (h : Headers) (live : Bool) (d : Bytes) (spots : List (Spot × BitVec 16))
    (ws : List (BitVec 16)) : List Edit :=
  (spots.zip ws).filterMap (h.edit? live d)

/-- The edits that set a field. -/
def edits (h : Headers) (live : Bool) (d : Bytes) (f : Field) (v : BitVec f.width) : List Edit :=
  h.script live d f.spots (h.spell f v)

/-- The checksum of a UDP datagram is in use. -/
def live (h : Headers) (d : Bytes) : Bool :=
  match h.transport with
  | some ⟨o, .udp .., _⟩ => d.word 2 (o + 6) != 0
  | _ => true

/-- Computes the checksum of an SCTP packet again. -/
def reseal (h : Headers) (d : Bytes) : Bytes :=
  match h.transport with
  | some ⟨o, .sctp .., _⟩ => FieldWrite.updateSctp h o d
  | _ => d

/-- The ports of SCTP are sealed when they are set. -/
def resealIf (h : Headers) (f : Field) (d : Bytes) : Bytes :=
  if f = .sctpSrc ∨ f = .sctpDst then h.reseal d else d

/-- What was read of `d₀` still tells where the layers of `d` are. -/
structure Steady (h : Headers) (d₀ d : Bytes) : Prop where
  length : d.length = d₀.length
  base : ∀ l, h.base? d l = h.base? d₀ l

variable {h : Headers} {d₀ d : Bytes} {live : Bool}

/-! ## Where the edits of a field are -/

/-- The words that hold a checksum. -/
def checksums : List Spot := [(.ipv4, 5), (.tcp, 8), (.udp, 3), (.icmpv4, 1), (.icmpv6, 1)]

theorem pseudoSum_subset (h : Headers) (live : Bool) : h.pseudoSum live ⊆ checksums := by
  unfold pseudoSum
  split
  · decide
  · split
    · decide
    · exact List.nil_subset _
  · decide
  · exact List.nil_subset _

theorem covering_subset (h : Headers) (live : Bool) (s : Spot) : h.covering live s ⊆ checksums := by
  have pseudo := h.pseudoSum_subset live
  unfold covering
  split
  · refine List.cons_subset.mpr ⟨by decide, ?_⟩
    split
    · exact pseudo
    · exact List.nil_subset _
  · split
    · exact pseudo
    · exact List.nil_subset _
  · exact pseudo
  · exact pseudo
  · decide
  · decide
  · decide
  · decide
  · decide
  · exact List.nil_subset _

theorem place?_of_base? {l : Layer} {b k : Nat} (there : h.base? d l = some b)
    (small : k < l.words) : h.place? d (l, k) = some (b + 2 * k) :=
  place?_eq_some.mpr ⟨small, b, there, rfl⟩

/-- A word that holds no checksum does not overlap those that cover it. -/
theorem apart_of_covering (laid : h.Laid d) (live : Bool) {s : Spot} {i : Nat}
    (there : h.place? d s = some i)
    (outside : s ∉ checksums) :
    ∀ p ∈ (h.covering live s).filterMap (h.place? d), Bytes.Apart p i := by
  intro p inside
  obtain ⟨t, covers, at_⟩ := List.mem_filterMap.mp inside
  have sum := h.covering_subset live s covers
  exact apart_of_ne laid at_ there fun same => outside (same ▸ sum)

theorem script_cons_of_base? {l : Layer} {b k : Nat} {mask w : BitVec 16}
    {spots : List (Spot × BitVec 16)} {ws : List (BitVec 16)} (there : h.base? d l = some b)
    (small : k < l.words) :
    h.script live d (((l, k), mask) :: spots) (w :: ws) =
      ⟨b + 2 * k, mask, w, (h.covering live (l, k)).filterMap (h.place? d)⟩ ::
        h.script live d spots ws := by
  rw [script, List.zip_cons_cons, List.filterMap_cons_some]
  · rfl
  · rw [edit?, place?_of_base? there small]
    rfl

theorem edit?_eq_none {write : (Spot × BitVec 16) × BitVec 16}
    (absent : h.base? d write.1.1.1 = none) : h.edit? live d write = none := by
  simp [edit?, place?, absent]

theorem script_cons_of_none {s : Spot × BitVec 16} {w : BitVec 16}
    {spots : List (Spot × BitVec 16)} {ws : List (BitVec 16)} (absent : h.base? d s.1.1 = none) :
    h.script live d (s :: spots) (w :: ws) = h.script live d spots ws := by
  rw [script, List.zip_cons_cons, List.filterMap_cons_none (edit?_eq_none absent)]
  rfl

theorem script_of_none {spots : List (Spot × BitVec 16)}
    (absent : ∀ s ∈ spots, h.base? d s.1.1 = none) (ws : List (BitVec 16)) :
    h.script live d spots ws = [] := by
  rw [script, List.filterMap_eq_nil_iff]
  intro write inside
  exact edit?_eq_none (absent _ (List.of_mem_zip inside).1)

theorem mem_whole {l : Layer} {k n : Nat} {s : Spot × BitVec 16} :
    s ∈ Field.whole l k n ↔ s.1.1 = l ∧ k ≤ s.1.2 ∧ s.1.2 < k + n ∧ s.2 = 0xffff := by
  obtain ⟨⟨l', k'⟩, m⟩ := s
  induction n generalizing k with
  | zero =>
    simp only [Field.whole, List.not_mem_nil, false_iff]
    omega
  | succ n ih =>
    rw [Field.whole, List.mem_cons, ih]
    simp only [Prod.mk.injEq]
    constructor
    · rintro (⟨⟨rfl, rfl⟩, rfl⟩ | ⟨rfl, from_, until_, rfl⟩)
      · exact ⟨rfl, Nat.le_refl _, by omega, rfl⟩
      · exact ⟨rfl, by omega, by omega, rfl⟩
    · rintro ⟨rfl, from_, until_, rfl⟩
      by_cases first : k' = k
      · exact .inl ⟨⟨rfl, first⟩, rfl⟩
      · exact .inr ⟨rfl, by omega, by omega, rfl⟩

theorem script_whole_of_none {l : Layer} (absent : h.base? d l = none) (k n : Nat)
    (ws : List (BitVec 16)) :
    h.script live d (Field.whole l k n) ws = [] :=
  script_of_none (fun _ inside => (mem_whole.mp inside).1 ▸ absent) ws

theorem script_whole {l : Layer} {b k n : Nat} {ws : List (BitVec 16)} {sums : List Spot}
    (there : h.base? d l = some b) (length : ws.length = n) (fits : k + n ≤ l.words)
    (covered : ∀ i < n, h.covering live (l, k + i) = sums) :
    h.script live d (Field.whole l k n) ws =
      Edit.run (b + 2 * k) (sums.filterMap (h.place? d)) ws := by
  induction n generalizing k ws with
  | zero =>
    obtain rfl := List.length_eq_zero_iff.mp length
    rfl
  | succ n ih =>
    obtain ⟨w, ws, rfl⟩ := List.exists_cons_of_length_eq_add_one length
    have here : h.covering live (l, k) = sums := covered 0 (Nat.succ_pos n)
    have length : ws.length = n := by simpa using length
    have rest := ih length (show k + 1 + n ≤ l.words by omega) fun i small => by
      have shifted : k + 1 + i = k + (i + 1) := by omega
      rw [shifted]
      exact covered (i + 1) (Nat.succ_lt_succ small)
    rw [Field.whole, script_cons_of_base? there (by omega), rest, here]
    rfl

/-! ## Setting a field -/

/-- Whole words of a layer that is there. -/
theorem patch_whole (laid : h.Laid d₀) (steady : h.Steady d₀ d) {l : Layer} {b k n : Nat}
    (there : h.base? d₀ l = some b) (fits : k + n ≤ l.words)
    (outside : ∀ i < n, (l, k + i) ∉ checksums) {sums : List Spot}
    (covered : ∀ i < n, h.covering live (l, k + i) = sums) (v : BitVec (8 * (2 * n))) :
    FieldWrite.patch (b + 2 * k) (Bytes.ofWord (2 * n) v) (sums.filterMap (h.place? d₀)) d =
      (h.script live d₀ (Field.whole l k n) (Bytes.wordsOf n v.toNat)).foldl Edit.apply d := by
  have inside := base?_fits laid there
  rw [script_whole there (Bytes.length_wordsOf ..) fits covered, FieldWrite.patch_ofWord]
  · rw [steady.length]
    omega
  · intro s sum i small
    have placed := place?_of_base? there (k := k + i) (by omega)
    have shifted : b + 2 * k + 2 * i = b + 2 * (k + i) := by omega
    rw [shifted]
    exact apart_of_covering laid live placed (outside i small) s (by rwa [covered i small])

/-- Two words of a layer under a mask. -/
theorem patchMasked_script (laid : h.Laid d₀) (steady : h.Steady d₀ d) {l : Layer} {b : Nat}
    (there : h.base? d₀ l = some b) (fits : 2 ≤ l.words)
    (covered : ∀ k < 2, h.covering live (l, k) = []) (mask value : BitVec 32) :
    FieldWrite.patchMasked b mask value d =
      (h.script live d₀ [((l, 0), FieldWrite.upper mask), ((l, 1), FieldWrite.lower mask)]
        (halves value)).foldl Edit.apply d := by
  have inside := base?_fits laid there
  rw [FieldWrite.patchMasked_eq mask value (by rw [steady.length]; omega), halves,
    script_cons_of_base? there (by omega), script_cons_of_base? there (by omega),
    covered 0 (by decide), covered 1 (by decide)]
  rfl

theorem base?_of_transport {t : Transport} (is : h.transport = some t) :
    h.base? d (Layer.ofTransport t.header) = some t.offset := by
  have found : (h.transport.filter fun u =>
      Layer.ofTransport u.header = Layer.ofTransport t.header).map (·.offset) = some t.offset := by
    rw [is, Option.filter_some, if_pos (decide_eq_true rfl), Option.map_some]
  obtain ⟨o, header, p⟩ := t
  cases header <;> exact found

theorem base?_of_other {l : Layer} (rank : l.rank = 5)
    (other : ∀ t, h.transport = some t → Layer.ofTransport t.header ≠ l) : h.base? d l = none := by
  have absent :
      (h.transport.filter fun t => Layer.ofTransport t.header = l).map (·.offset) = none := by
    cases is : h.transport with
    | none => rfl
    | some t =>
      rw [Option.filter_some, if_neg (by simpa using other t is), Option.map_none]
  cases l with
  | tcp => exact absent
  | udp => exact absent
  | sctp => exact absent
  | icmpv4 => exact absent
  | icmpv6 => exact absent
  | _ => cases rank

theorem base?_ipv4 {ip : IpHeader} (is : h.ip? = some ip) (isV4 : ip.isV4 = true) :
    h.base? d .ipv4 = some ip.offset := by
  rw [base?, is, Option.filter_some, if_pos isV4, Option.map_some]

theorem base?_ipv6 {ip : IpHeader} (is : h.ip? = some ip) (isV4 : ip.isV4 = false) :
    h.base? d .ipv6 = some ip.offset := by
  have isV6 : ip.isV6 = true := by simp [IpHeader.isV6, isV4]
  rw [base?, is, Option.filter_some, if_pos isV6, Option.map_some]

theorem place?_of_transport {o : Nat} {header : TransportHeader} {p : Option Nat}
    (is : h.transport = some ⟨o, header, p⟩) (k : Nat)
    (small : k < (Layer.ofTransport header).words) :
    h.place? d (Layer.ofTransport header, k) = some (o + 2 * k) :=
  place?_of_base? (base?_of_transport is) small

theorem filterMap_place? {s : Spot} {i : Nat} (there : h.place? d s = some i) :
    [s].filterMap (h.place? d) = [i] := by
  rw [List.filterMap_cons_some there, List.filterMap_nil]

theorem pseudoHeaderSum_eq (h : Headers) (d₀ d : Bytes) :
    FieldWrite.pseudoHeaderSum h d = (h.pseudoSum (h.live d)).filterMap (h.place? d₀) := by
  unfold FieldWrite.pseudoHeaderSum pseudoSum Headers.live
  cases is : h.transport with
  | none => rfl
  | some t =>
    obtain ⟨o, header, p⟩ := t
    cases header with
    | tcp src dst =>
      have sum : h.place? d₀ (.tcp, 8) = some (o + 16) :=
        place?_of_transport is 8 (show 8 < Layer.tcp.words by decide)
      exact (filterMap_place? sum).symm
    | udp src dst =>
      have sum : h.place? d₀ (.udp, 3) = some (o + 6) :=
        place?_of_transport is 3 (show 3 < Layer.udp.words by decide)
      by_cases unused : d.word 2 (o + 6) = 0
      · rw [if_neg (by simp [unused])]
        exact if_pos unused
      · rw [if_pos (by simpa using unused)]
        exact (if_neg unused).trans (filterMap_place? sum).symm
    | icmpv6 m =>
      have sum : h.place? d₀ (.icmpv6, 1) = some (o + 2) :=
        place?_of_transport is 1 (show 1 < Layer.icmpv6.words by decide)
      exact (filterMap_place? sum).symm
    | sctp | icmpv4 => rfl

theorem headerSum_eq {ip : IpHeader} (is : h.ip? = some ip) (isV4 : ip.isV4 = true) :
    FieldWrite.headerSum ip = [(.ipv4, 5)].filterMap (h.place? d₀) := by
  have base := base?_ipv4 (d := d₀) is isV4
  simp [FieldWrite.headerSum, isV4, place?_of_base? base (show 5 < Layer.ipv4.words by decide)]

section

variable (laid : h.Laid d₀) (steady : h.Steady d₀ d)
include laid steady

theorem setArp_eq (k n : Nat) (fits : k + n ≤ 14) (v : BitVec (8 * (2 * n))) :
    FieldWrite.setArp h (2 * k) (Bytes.ofWord (2 * n) v) d =
      (h.script live d₀ (Field.whole .arp k n) (Bytes.wordsOf n v.toNat)).foldl Edit.apply d := by
  unfold FieldWrite.setArp
  split
  · rename_i a is
    have there : h.base? d₀ .arp = some a.offset := by rw [base?, is, Option.map_some]
    have covered (i : Nat) (_ : i < n) : h.covering live (.arp, k + i) = [] := rfl
    exact patch_whole laid steady there fits (by simp [checksums]) covered v
  · rename_i absent
    rw [script_whole_of_none (by rw [base?, absent, Option.map_none]), List.foldl_nil]

theorem setIpv4Address_eq (k : Nat) (low : 6 ≤ k) (fits : k + 2 ≤ 10) (address : Ipv4Address) :
    FieldWrite.setIpv4Address h (2 * k) address d =
      (h.script (h.live d) d₀ (Field.whole .ipv4 k 2) (Bytes.wordsOf 2 address.toNat)).foldl
        Edit.apply d := by
  unfold FieldWrite.setIpv4Address
  split
  · rename_i ip is
    cases isV4 : ip.isV4 with
    | true =>
      have covered (i : Nat) (small : i < 2) :
          h.covering (h.live d) (.ipv4, k + i) = [(.ipv4, 5)] ++ h.pseudoSum (h.live d) := by
        rw [covering, if_pos (by omega), List.singleton_append]
      have sums : FieldWrite.headerSum ip ++ FieldWrite.pseudoHeaderSum h d =
          ([(Layer.ipv4, 5)] ++ h.pseudoSum (h.live d)).filterMap (h.place? d₀) := by
        rw [List.filterMap_append, ← headerSum_eq is isV4, ← pseudoHeaderSum_eq]
      rw [if_pos rfl, sums]
      exact patch_whole laid steady (base?_ipv4 is isV4) fits
        (fun i small => by simp [checksums]; omega) covered address
    | false =>
      have absent : h.base? d₀ .ipv4 = none := by simp [base?, is, isV4]
      rw [script_whole_of_none absent]
      rfl
  · rename_i absent
    rw [script_whole_of_none (by rw [base?, absent, Option.filter_none, Option.map_none]),
      List.foldl_nil]

theorem setIpv6Address_eq (k : Nat) (low : 4 ≤ k) (fits : k + 8 ≤ 20) (address : Ipv6Address) :
    FieldWrite.setIpv6Address h (2 * k) address d =
      (h.script (h.live d) d₀ (Field.whole .ipv6 k 8) (Bytes.wordsOf 8 address.toNat)).foldl
        Edit.apply d := by
  unfold FieldWrite.setIpv6Address
  split
  · rename_i ip is
    cases isV4 : ip.isV4 with
    | false =>
      have covered (i : Nat) (small : i < 8) :
          h.covering (h.live d) (.ipv6, k + i) = h.pseudoSum (h.live d) := by
        rw [covering, if_pos (by omega)]
      rw [if_pos (by rw [IpHeader.isV6, isV4]; rfl), pseudoHeaderSum_eq h d₀]
      exact patch_whole laid steady (base?_ipv6 is isV4) fits (by simp [checksums]) covered address
    | true =>
      have isV6 : ip.isV6 = false := by rw [IpHeader.isV6, isV4]; rfl
      have absent : h.base? d₀ .ipv6 = none := by simp [base?, is, isV6]
      rw [script_whole_of_none absent, if_neg (by simp [isV6])]
      rfl
  · rename_i absent
    rw [script_whole_of_none (by rw [base?, absent, Option.filter_none, Option.map_none]),
      List.foldl_nil]

/-- One of the ports of a transport header. -/
theorem setPort_eq {l : Layer} {o : Nat} (there : h.base? d₀ l = some o) (k : Nat)
    (fits : k + 1 ≤ l.words) (outside : (l, k) ∉ checksums)
    (covered : h.covering (h.live d) (l, k) = h.pseudoSum (h.live d)) (port : BitVec 16) :
    FieldWrite.setPort h o (2 * k) port d =
      (h.script (h.live d) d₀ (Field.whole l k 1) (Bytes.wordsOf 1 port.toNat)).foldl
        Edit.apply d := by
  have only {i : Nat} (small : i < 1) : k + i = k := by omega
  rw [FieldWrite.setPort, pseudoHeaderSum_eq h d₀]
  exact patch_whole laid steady there fits (fun i small => by rwa [only small])
    (fun i small => by rwa [only small]) port

theorem setTcpPort_eq (k : Nat) (small : k < 2) (port : BitVec 16) :
    FieldWrite.setTcpPort h (2 * k) port d =
      (h.script (h.live d) d₀ (Field.whole .tcp k 1) (Bytes.wordsOf 1 port.toNat)).foldl
        Edit.apply d := by
  unfold FieldWrite.setTcpPort
  split
  · rename_i o src dst p is
    have there : h.base? d₀ .tcp = some o := base?_of_transport is
    exact setPort_eq laid steady there k (Nat.le_trans small (by decide))
      (by simp [checksums]; omega) rfl port
  · rename_i other
    have absent : h.base? d₀ .tcp = none := base?_of_other rfl fun t is kind => by
      obtain ⟨o, header, p⟩ := t
      cases header with
      | tcp src dst => exact other o src dst p is
      | _ => cases kind
    rw [script_whole_of_none absent, List.foldl_nil]

theorem setUdpPort_eq (k : Nat) (small : k < 2) (port : BitVec 16) :
    FieldWrite.setUdpPort h (2 * k) port d =
      (h.script (h.live d) d₀ (Field.whole .udp k 1) (Bytes.wordsOf 1 port.toNat)).foldl
        Edit.apply d := by
  unfold FieldWrite.setUdpPort
  split
  · rename_i o src dst p is
    have there : h.base? d₀ .udp = some o := base?_of_transport is
    exact setPort_eq laid steady there k (Nat.le_trans small (by decide))
      (by simp [checksums]; omega) rfl port
  · rename_i other
    have absent : h.base? d₀ .udp = none := base?_of_other rfl fun t is kind => by
      obtain ⟨o, header, p⟩ := t
      cases header with
      | udp src dst => exact other o src dst p is
      | _ => cases kind
    rw [script_whole_of_none absent, List.foldl_nil]

theorem setSctpPort_eq (k : Nat) (small : k < 2) (port : BitVec 16) :
    FieldWrite.setSctpPort h (2 * k) port d =
      h.reseal ((h.script (h.live d) d₀ (Field.whole .sctp k 1)
        (Bytes.wordsOf 1 port.toNat)).foldl Edit.apply d) := by
  unfold FieldWrite.setSctpPort reseal
  cases is : h.transport with
  | none =>
    have absent : h.base? d₀ .sctp = none := base?_of_other rfl fun t also => by
      rw [is] at also
      cases also
    rw [script_whole_of_none absent, List.foldl_nil]
  | some t =>
    obtain ⟨o, header, p⟩ := t
    have absent (kind : Layer.ofTransport header ≠ .sctp) : h.base? d₀ .sctp = none :=
      base?_of_other rfl fun t also => by
        obtain rfl := Option.some.inj (is.symm.trans also)
        exact kind
    cases header with
    | sctp src dst =>
      have there : h.base? d₀ .sctp = some o := base?_of_transport is
      have covered : h.covering (h.live d) (.sctp, k) = h.pseudoSum (h.live d) := by
        rw [pseudoSum, is]
        rfl
      dsimp only
      rw [setPort_eq laid steady there k (Nat.le_trans small (by decide))
        (by simp [checksums]) covered port]
    | _ =>
      rw [script_whole_of_none (absent nofun), List.foldl_nil]

end

/-- One byte of a word. -/
theorem patchByte_eq (laid : h.Laid d₀) (live : Bool) {s : Spot} {i : Nat}
    (there : h.place? d₀ s = some i) (outside : s ∉ checksums) {sums : List Nat}
    (covered : (h.covering live s).filterMap (h.place? d₀) = sums) (d : Bytes) (value : BitVec 8) :
    FieldWrite.patchHigh i value sums d =
        (h.script live d₀ [(s, 0xff00)] [value.setWidth 16 <<< 8]).foldl Edit.apply d ∧
      FieldWrite.patchLow i value sums d =
        (h.script live d₀ [(s, 0x00ff)] [value.setWidth 16]).foldl Edit.apply d := by
  obtain ⟨small, b, base, rfl⟩ := place?_eq_some.mp there
  have apart := apart_of_covering laid live there outside
  rw [covered] at apart
  obtain ⟨l, k⟩ := s
  rw [script_cons_of_base? base small, script_cons_of_base? base small, covered]
  exact ⟨FieldWrite.patchHigh_eq value apart, FieldWrite.patchLow_eq value apart⟩

/-- The type or the code of a message. -/
theorem setIcmp_eq (laid : h.Laid d₀) {l : Layer} {offset : Option Nat}
    (there : h.base? d₀ l = offset) (fits : 2 ≤ l.words) (outside : (l, 0) ∉ checksums)
    (covered : h.covering live (l, 0) = [(l, 1)]) (v : BitVec 8) :
    FieldWrite.setIcmpType offset v d =
        (h.script live d₀ [((l, 0), 0xff00)] [v.setWidth 16 <<< 8]).foldl Edit.apply d ∧
      FieldWrite.setIcmpCode offset v d =
        (h.script live d₀ [((l, 0), 0x00ff)] [v.setWidth 16]).foldl Edit.apply d := by
  cases offset with
  | none =>
    rw [script_of_none (by simpa using there), script_of_none (by simpa using there)]
    exact ⟨rfl, rfl⟩
  | some o =>
    have placed : h.place? d₀ (l, 0) = some o := place?_of_base? there (by omega)
    have sums : (h.covering live (l, 0)).filterMap (h.place? d₀) = [o + 2] := by
      rw [covered, filterMap_place? (place?_of_base? there fits)]
    exact patchByte_eq laid live placed outside sums d v

theorem setVlan_eq (mask value : BitVec 16) :
    FieldWrite.setVlan h mask value d =
      (h.script live d₀ (Field.whole .tci 0 1) [h.tagWord mask value]).foldl Edit.apply d := by
  unfold FieldWrite.setVlan tagWord
  split
  · rename_i tag is
    have there : h.base? d₀ .tci = some (tag.offset + 2) := by rw [base?, is, Option.map_some]
    rw [is, Field.whole, Field.whole, script_cons_of_base? there (by decide)]
    exact FieldWrite.patch_word d _ _ nofun
  · rename_i absent
    rw [script_whole_of_none (by rw [base?, absent, Option.map_none])]
    rfl

theorem base?_icmpv4 : h.base? d .icmpv4 = FieldWrite.icmpv4Offset? h := by
  unfold FieldWrite.icmpv4Offset?
  split
  · rename_i o type code p is
    exact base?_of_transport is
  · rename_i other
    exact base?_of_other rfl fun t is kind => by
      obtain ⟨o, header, p⟩ := t
      cases header with
      | icmpv4 type code => exact other o type code p is
      | _ => cases kind

theorem base?_icmpv6 : h.base? d .icmpv6 = FieldWrite.icmpv6Offset? h fun _ => true := by
  unfold FieldWrite.icmpv6Offset?
  split
  · rename_i o m p is
    rw [if_pos rfl]
    exact base?_of_transport is
  · rename_i other
    exact base?_of_other rfl fun t is kind => by
      obtain ⟨o, header, p⟩ := t
      cases header with
      | icmpv6 m => exact other o m p is
      | _ => cases kind

section

variable (laid : h.Laid d₀) (steady : h.Steady d₀ d)
include laid steady

theorem setNeighborTarget_eq (target : Ipv6Address) :
    FieldWrite.setNeighborTarget h target d =
      (h.script live d₀ (Field.whole .target 0 8) (Bytes.wordsOf 8 target.toNat)).foldl
        Edit.apply d := by
  unfold FieldWrite.setNeighborTarget
  dsimp only
  split
  · rename_i o message
    obtain ⟨m, p, is, -⟩ := icmpv6Offset?_eq_some.mp message
    have sum : [(Layer.icmpv6, 1)].filterMap (h.place? d₀) = [o + 2] :=
      filterMap_place? (place?_of_transport is 1 (show 1 < Layer.icmpv6.words by decide))
    by_cases fits : o + 24 ≤ d.length
    · have there : h.base? d₀ .target = some (o + 8) := by
        rw [base?, message, Option.bind_some, if_pos (steady.length ▸ fits)]
      rw [← sum]
      exact patch_whole (k := 0) (n := 8) laid steady there (by decide) (by decide)
        (fun _ _ => rfl) target
    · have absent : h.base? d₀ .target = none := by
        rw [base?, message, Option.bind_some, if_neg (steady.length ▸ fits)]
      have length : (Bytes.ofWord 16 target).length = 16 := Bytes.length_ofNat ..
      rw [script_whole_of_none absent]
      exact FieldWrite.patch_of_short (by omega)
  · rename_i message
    have absent : h.base? d₀ .target = none := by rw [base?, message, Option.bind_none]
    rw [script_whole_of_none absent]
    rfl

/-- The address in the option of a neighbour message. -/
theorem setNeighborLink_eq {l : Layer} {type : BitVec 8} {optionType : UInt8}
    (there : ∀ d, h.base? d l = h.linkOffset? d type optionType) (words : l.words = 3)
    (outside : ∀ i < 3, (l, 0 + i) ∉ checksums)
    (covered : ∀ i < 3, h.covering live (l, 0 + i) = [(.icmpv6, 1)]) (address : MacAddress) :
    FieldWrite.setNeighborLink h type optionType address d =
      (h.script live d₀ (Field.whole l 0 3) (Bytes.wordsOf 3 address.toNat)).foldl
        Edit.apply d := by
  have base : h.base? d₀ l = h.linkOffset? d type optionType := by rw [← steady.base, there]
  unfold FieldWrite.setNeighborLink
  split
  · rename_i o message
    obtain ⟨m, p, is, -⟩ := icmpv6Offset?_eq_some.mp message
    have sum : [(Layer.icmpv6, 1)].filterMap (h.place? d₀) = [o + 2] :=
      filterMap_place? (place?_of_transport is 1 (show 1 < Layer.icmpv6.words by decide))
    rw [linkOffset?, message, Option.bind_some] at base
    split
    · rename_i option
      by_cases fits : o + 32 ≤ d.length
      · rw [if_pos ⟨option.1, option.2, fits⟩] at base
        rw [← sum]
        exact patch_whole laid steady base (by omega) outside covered address
      · rw [if_neg fun all => fits all.2.2] at base
        have length : (Bytes.ofWord 6 address).length = 6 := Bytes.length_ofNat ..
        rw [script_whole_of_none base]
        exact FieldWrite.patch_of_short (by omega)
    · rename_i option
      rw [if_neg fun all => option ⟨all.1, all.2.1⟩] at base
      rw [script_whole_of_none base]
      rfl
  · rename_i message
    rw [linkOffset?, message, Option.bind_none] at base
    rw [script_whole_of_none base]
    rfl

theorem setMpls_eq (mask value : BitVec 32) :
    FieldWrite.setMpls h mask value d =
      (h.script live d₀ [((.mpls, 0), FieldWrite.upper mask), ((.mpls, 1), FieldWrite.lower mask)]
        (halves value)).foldl Edit.apply d := by
  unfold FieldWrite.setMpls
  split
  · rename_i e is
    have there : h.base? d₀ .mpls = some e.offset := by rw [base?, is, Option.map_some]
    exact patchMasked_script laid steady there (by decide) (fun _ _ => rfl) mask value
  · rename_i absent
    rw [script_of_none (by simp [base?, absent])]
    rfl

theorem setPbb_eq (isid : BitVec 32) :
    FieldWrite.setPbb h isid d =
      (h.script live d₀ [((.pbb, 0), 0x00ff), ((.pbb, 1), 0xffff)] (halves isid)).foldl
        Edit.apply d := by
  unfold FieldWrite.setPbb
  split
  · rename_i tag is
    have there : h.base? d₀ .pbb = some tag.offset := by rw [base?, is, Option.map_some]
    exact patchMasked_script laid steady there (by decide) (fun _ _ => rfl) 0x00ffffff isid
  · rename_i absent
    rw [script_of_none (by simp [base?, absent])]
    rfl

theorem setFlowLabel_eq (label : BitVec 32) :
    FieldWrite.setFlowLabel h label d =
      (h.script live d₀ [((.ipv6, 0), 0x000f), ((.ipv6, 1), 0xffff)] (halves label)).foldl
        Edit.apply d := by
  unfold FieldWrite.setFlowLabel
  split
  · rename_i ip is
    cases isV4 : ip.isV4 with
    | false =>
      have covered (k : Nat) (small : k < 2) : h.covering live (.ipv6, k) = [] := by
        rw [covering, if_neg (by omega)]
      rw [if_pos (by rw [IpHeader.isV6, isV4]; rfl)]
      exact patchMasked_script laid steady (base?_ipv6 is isV4) (by decide) covered 0x000fffff label
    | true =>
      have isV6 : ip.isV6 = false := by rw [IpHeader.isV6, isV4]; rfl
      rw [script_of_none (by simp [base?, is, isV6]), if_neg (by simp [isV6])]
      rfl
  · rename_i absent
    rw [script_of_none (by simp [base?, absent])]
    rfl

theorem setTrafficClass_eq (mask value : BitVec 8) :
    FieldWrite.setTrafficClass h mask value d =
      (h.script live d₀ [((.ipv4, 0), mask.setWidth 16),
        ((.ipv6, 0), FieldWrite.upper (mask.setWidth 32 <<< 20)),
        ((.ipv6, 1), FieldWrite.lower (mask.setWidth 32 <<< 20))]
        (classWords value)).foldl Edit.apply d := by
  unfold FieldWrite.setTrafficClass
  split
  · rename_i absent
    rw [script_of_none (by simp [base?, absent])]
    rfl
  · rename_i ip is
    cases isV4 : ip.isV4 with
    | false =>
      have absent : h.base? d₀ .ipv4 = none := by simp [base?, is, isV4]
      have covered (k : Nat) (small : k < 2) : h.covering live (.ipv6, k) = [] := by
        rw [covering, if_neg (by omega)]
      rw [if_neg (by simp), classWords, script_cons_of_none absent]
      exact patchMasked_script laid steady (base?_ipv6 is isV4) (by decide) covered _ _
    | true =>
      have isV6 : ip.isV6 = false := by rw [IpHeader.isV6, isV4]; rfl
      have there : h.base? d₀ .ipv4 = some ip.offset := base?_ipv4 is isV4
      have absent : h.base? d₀ .ipv6 = none := by simp [base?, is, isV6]
      have sums :
          (h.covering live (.ipv4, 0)).filterMap (h.place? d₀) = FieldWrite.headerSum ip := by
        rw [headerSum_eq is isV4]
        rfl
      have apart := apart_of_covering laid live
        (place?_of_base? there (k := 0) (by decide)) (by decide)
      rw [sums] at apart
      rw [if_pos rfl, classWords, script_cons_of_base? there (by decide), sums,
        script_of_none (by simp [absent])]
      exact FieldWrite.patchTos_eq mask value apart

theorem setEthType_eq (type : BitVec 16) :
    FieldWrite.setEthType h type d =
      (h.script live d₀ (Field.whole .etherType 0 1) (Bytes.wordsOf 1 type.toNat)).foldl
        Edit.apply d := by
  unfold FieldWrite.setEthType
  split
  · rename_i p is
    split
    · rename_i framed
      have there : h.base? d₀ .etherType = some (p - 2) := by
        rw [base?, if_pos framed, is, Option.map_some]
      have covered (i : Nat) (_ : i < 1) : h.covering live (.etherType, 0 + i) = [] := rfl
      exact patch_whole laid steady there (by decide) (by decide) covered type
    · rename_i unframed
      rw [script_whole_of_none (by rw [base?, if_neg unframed])]
      rfl
  · rename_i absent
    rw [script_whole_of_none (by simp [base?, absent])]
    rfl

/-- An Ethernet address. -/
theorem patchEthernet_eq (k : Nat) (fits : k + 3 ≤ 6) (address : MacAddress) :
    FieldWrite.patch (2 * k) (Bytes.ofWord 6 address) [] d =
      (h.script live d₀ (Field.whole .ethernet k 3) (Bytes.wordsOf 3 address.toNat)).foldl
        Edit.apply d := by
  have covered (i : Nat) (_ : i < 3) : h.covering live (.ethernet, k + i) = [] := rfl
  have whole := patch_whole laid steady rfl fits (by simp [checksums]) covered address
  rwa [Nat.zero_add] at whole

/-- Setting a field carries out its edits; the ports of SCTP are sealed again. -/
theorem setField_eq {f : Field} (plain : f ≠ .ipProto) (v : BitVec f.width) :
    FieldWrite.setField h d f v =
      h.resealIf f ((h.edits (h.live d) d₀ f v).foldl Edit.apply d) := by
  cases f with
  | inPort | inPhyPort | metadata | tunnelId | ipv6Exthdr => rfl
  | ipProto => exact absurd rfl plain
  | ethDst => exact patchEthernet_eq laid steady 0 (by decide) v
  | ethSrc => exact patchEthernet_eq laid steady 3 (by decide) v
  | ethType => exact setEthType_eq laid steady v
  | vlanVid => exact setVlan_eq 0x0fff _
  | vlanPcp => exact setVlan_eq 0xe000 _
  | ipDscp => exact setTrafficClass_eq laid steady 0xfc _
  | ipEcn => exact setTrafficClass_eq laid steady 0x03 v
  | ipv4Src => exact setIpv4Address_eq laid steady 6 (by decide) (by decide) v
  | ipv4Dst => exact setIpv4Address_eq laid steady 8 (by decide) (by decide) v
  | tcpSrc => exact setTcpPort_eq laid steady 0 (by decide) v
  | tcpDst => exact setTcpPort_eq laid steady 1 (by decide) v
  | udpSrc => exact setUdpPort_eq laid steady 0 (by decide) v
  | udpDst => exact setUdpPort_eq laid steady 1 (by decide) v
  | sctpSrc => exact setSctpPort_eq laid steady 0 (by decide) v
  | sctpDst => exact setSctpPort_eq laid steady 1 (by decide) v
  | icmpv4Type => exact (setIcmp_eq laid base?_icmpv4 (by decide) (by decide) rfl v).1
  | icmpv4Code => exact (setIcmp_eq laid base?_icmpv4 (by decide) (by decide) rfl v).2
  | arpOp => exact setArp_eq laid steady 3 1 (by decide) v
  | arpSha => exact setArp_eq laid steady 4 3 (by decide) v
  | arpSpa => exact setArp_eq laid steady 7 2 (by decide) v
  | arpTha => exact setArp_eq laid steady 9 3 (by decide) v
  | arpTpa => exact setArp_eq laid steady 12 2 (by decide) v
  | ipv6Src => exact setIpv6Address_eq laid steady 4 (by decide) (by decide) v
  | ipv6Dst => exact setIpv6Address_eq laid steady 12 (by decide) (by decide) v
  | ipv6Flabel => exact setFlowLabel_eq laid steady v
  | icmpv6Type => exact (setIcmp_eq laid base?_icmpv6 (by decide) (by decide) rfl v).1
  | icmpv6Code => exact (setIcmp_eq laid base?_icmpv6 (by decide) (by decide) rfl v).2
  | ipv6NdTarget => exact setNeighborTarget_eq laid steady v
  | ipv6NdSll =>
    exact setNeighborLink_eq laid steady (fun _ => rfl) rfl (by decide) (fun _ _ => rfl) v
  | ipv6NdTll =>
    exact setNeighborLink_eq laid steady (fun _ => rfl) rfl (by decide) (fun _ _ => rfl) v
  | mplsLabel => exact setMpls_eq laid steady 0xfffff000 _
  | mplsTc => exact setMpls_eq laid steady 0x00000e00 _
  | mplsBos => exact setMpls_eq laid steady 0x00000100 _
  | pbbIsid => exact setPbb_eq laid steady v

end

end Headers

end FlowSwitch
