import FlowSwitch.Proofs.Packet.Access
import FlowSwitch.Proofs.Packet.Reread

/-!
# Frames that agree up to the network header

Two frames of one length that agree up to the first byte of the IP header of one of them are read
alike up to there, so the other has whatever is read at that place. From there on the header is
read in bytes that every header of its version has, and behind an IPv6 header a chain of extension
headers is walked. The walk is told by the headers it reads: two bytes of each, and nothing else.
-/

namespace FlowSwitch

namespace Bytes

/-- Two frames have the same length and the same first `n` bytes. -/
structure AgreeBelow (n : Nat) (d d' : Bytes) : Prop where
  length : d'.length = d.length
  same : ∀ i, i < n → d'[i]? = d[i]?

namespace AgreeBelow

variable {n m o : Nat} {d d' d'' : Bytes}

theorem refl (n : Nat) (d : Bytes) : AgreeBelow n d d := ⟨rfl, fun _ _ => rfl⟩

theorem symm (agree : AgreeBelow n d d') : AgreeBelow n d' d :=
  ⟨agree.length.symm, fun i below => (agree.same i below).symm⟩

theorem trans (first : AgreeBelow n d d') (second : AgreeBelow n d' d'') : AgreeBelow n d d'' :=
  ⟨second.length.trans first.length,
    fun i below => (second.same i below).trans (first.same i below)⟩

theorem mono (agree : AgreeBelow n d d') (le : m ≤ n) : AgreeBelow m d d' :=
  ⟨agree.length, fun i below => agree.same i (Nat.lt_of_lt_of_le below le)⟩

theorem byte (agree : AgreeBelow n d d') (below : o < n) : d'.byte o = d.byte o := by
  rw [Bytes.byte, Bytes.byte, agree.same o below]

theorem word (agree : AgreeBelow n d d') (k : Nat) (below : o + k ≤ n) :
    d'.word k o = d.word k o :=
  word_congr agree.length fun i _ inside => agree.same i (Nat.lt_of_lt_of_le inside below)

/-- What is written from the `n`th byte on leaves the first `n` bytes. -/
theorem overwrite (n : Nat) (d s : Bytes) (behind : n ≤ o) :
    AgreeBelow n d (d.overwrite o s) :=
  ⟨d.length_overwrite o s,
    fun _ below => getElem?_overwrite_of_apart (.inl (Nat.lt_of_lt_of_le below behind))⟩

end AgreeBelow

end Bytes

namespace Parse

open Bytes (AgreeBelow)

variable {d d' : Bytes} {n o p : Nat}

/-! ## The way to the network header -/

/-- Walks that met the same recorded the same tag if the frames have the same value in it. -/
theorem EtherEnd.eq_of_like {e e' : EtherEnd} (like : e'.Like e) (within : e.Within d o none)
    (within' : e'.Within d' o none)
    (same : ∀ tag, e.vlan = some tag → d'.word 2 (tag.offset + 2) = d.word 2 (tag.offset + 2)) :
    e' = e := by
  have vlan : e'.vlan = e.vlan := by
    have blank := like.vlan
    cases is : e.vlan with
    | none => simpa [is] using blank
    | some tag =>
      cases is' : e'.vlan with
      | none =>
        rw [is, is'] at blank
        cases blank
      | some tag' =>
        rw [is, is'] at blank
        obtain ⟨offset, tpid, -⟩ := VlanTag.mk.inj (Option.some.inj blank)
        have value := Bytes.word_of_word? (within.first rfl tag is).2.2.2
        have value' := Bytes.word_of_word? (within'.first rfl tag' is').2.2.2
        rw [offset, same tag is, value] at value'
        have equal : tag' = tag := by
          cases tag
          cases tag'
          exact (VlanTag.mk.injEq ..).mpr ⟨offset, tpid, value'.symm⟩
        exact congrArg some equal
  cases e
  cases e'
  exact (EtherEnd.mk.injEq ..).mpr ⟨like.ethType, like.framing, vlan, like.payload⟩

/-- A walk that ends in an ethertype reads the bytes before the payload and no others. -/
theorem etherEnd_agree (agree : AgreeBelow n d d') (long : 14 ≤ d.length)
    (payload : (etherEnd d).payload = some p) (below : p ≤ n)
    (typed : (etherEnd d).ethType ≠ EtherType.notEtherType) : etherEnd d' = etherEnd d := by
  have within (d : Bytes) (long : 14 ≤ d.length) : (etherEnd d).Within d 14 none :=
    etherTags_within (d.word 2 12) 14 {} none rfl long (by decide)
  have after := ((within d long).payload p payload).1
  have first : d'.word 2 12 = d.word 2 12 := agree.word 2 (by omega)
  have like := etherEnd_congr long agree.length first fun i _ reads =>
    agree.same i (Nat.lt_of_lt_of_le (reads.2.resolve_left typed p payload) below)
  refine EtherEnd.eq_of_like like (within d long) (within d' (by rwa [agree.length]))
    fun tag is => ?_
  have behind := ((within d long).first rfl tag is).2.2.1 p payload
  exact agree.word 2 (by omega)

/-- The layers from an IP header on. -/
def ipLayers (d : Bytes) (isV4 : Bool) (o : Nat) : Upper :=
  ipUpper d (if isV4 then ipv4? d o else ipv6? d o)

/-- Layers with another network header and what follows it. -/
def Upper.replaced (u v : Upper) : Upper :=
  { u with network := v.network, transport := v.transport }

theorem ipUpper_replaced (read read' : Option (WithPayload IpHeader)) :
    ipUpper d' read' = (ipUpper d read).replaced (ipUpper d' read') := by
  cases read with
  | none => cases read' <;> rfl
  | some found => cases read' <;> rfl

/-- An IP header that was read at `o` by its version. -/
theorem ipUpper_version {read : Option (WithPayload IpHeader)} {ip : IpHeader}
    (is : (ipUpper d read).network = some (.ip ip)) :
    (read = ipv4? d o → ip.offset = o ∧ ip.isV4 = true) ∧
      (read = ipv6? d o → ip.offset = o ∧ ip.isV4 = false) := by
  obtain ⟨ip', next, found, same⟩ := ipUpper_network is
  obtain rfl := Network.ip.inj same
  constructor
  · intro version
    have within := ipv4?_within (version.symm.trans found)
    exact ⟨within.1, within.2.2.1⟩
  · intro version
    have within := ipv6?_within (version.symm.trans found)
    exact ⟨within.1, within.2.2.1⟩

/-- A label stack is read up to where it ends. -/
theorem stackEnd_agree (agree : AgreeBelow n d d') (ended : stackEnd d o = some p) (below : p ≤ n) :
    stackEnd d' o = some p := by
  refine Eq.trans (labelStackEnd_congr ?_ fun k upto => ?_) ended
  · rw [List.length_drop, List.length_drop, agree.length]
  · obtain ⟨end_, found, rfl⟩ := Option.map_eq_some_iff.mp ended
    have upto := upto end_ found
    rw [List.getElem?_drop, List.getElem?_drop, agree.same _ (by omega)]

/-- Behind the labels there is a header of the same version. -/
theorem labelled_agree {ip : IpHeader} (is : (labelled d p).network = some (.ip ip))
    (agree : AgreeBelow (ip.offset + 1) d d') :
    labelled d' p = (labelled d p).replaced (ipLayers d' ip.isV4 ip.offset) := by
  obtain ⟨ip', same, rfl⟩ := labelled_network is
  obtain rfl := Network.ip.inj same
  have nibble : nibble? d' ip.offset = nibble? d ip.offset := by
    rw [nibble?, nibble?, agree.same _ (Nat.lt_succ_self _)]
  unfold labelled at is ⊢
  rw [nibble]
  by_cases v4 : nibble? d ip.offset = some 4
  · rw [if_pos v4] at is
    have version := (ipUpper_version (o := ip.offset) is).1 rfl
    rw [if_pos v4, if_pos v4, ipLayers, version.2, if_pos rfl]
    exact ipUpper_replaced _ _
  · rw [if_neg v4] at is
    by_cases v6 : nibble? d ip.offset = some 6
    · rw [if_pos v6] at is
      have version := (ipUpper_version (o := ip.offset) is).2 rfl
      rw [if_neg v4, if_neg v4, if_pos v6, if_pos v6, ipLayers, version.2, if_neg (by decide)]
      exact ipUpper_replaced _ _
    · rw [if_neg v6] at is
      cases is

/-- Labels lead to the same place. -/
theorem mplsUpper_agree {ip : IpHeader} (is : (mplsUpper d p).network = some (.ip ip))
    (agree : AgreeBelow (ip.offset + 1) d d') :
    mplsUpper d' p = (mplsUpper d p).replaced (ipLayers d' ip.isV4 ip.offset) := by
  cases there : d.word? 4 p with
  | none => simp [mplsUpper, there] at is
  | some top =>
    rw [mplsUpper_eq there] at is ⊢
    cases ended : stackEnd d p with
    | none =>
      rw [ended] at is
      cases is
    | some next =>
      rw [ended] at is
      have is : (labelled d next).network = some (.ip ip) := is
      obtain ⟨ip', same, here⟩ := labelled_network is
      obtain rfl := Network.ip.inj same
      have behind : p + 4 ≤ ip.offset := by
        obtain ⟨end_, found, same⟩ := Option.map_eq_some_iff.mp ended
        have := labelStackEnd_behind found
        omega
      have again : d'.word? 4 p = some top := by
        have fits := Bytes.word?_fits there
        rw [Bytes.word?_eq_word (by rw [agree.length]; exact fits), agree.word 4 (by omega),
          ← Bytes.word?_eq_word fits, there]
      rw [mplsUpper_eq again, stackEnd_agree agree ended (by omega), Option.elim_some,
        Option.elim_some, labelled_agree is agree]
      rfl

theorem upper_agree {t : BitVec 16} {ip : IpHeader} (is : (upper d t p).network = some (.ip ip))
    (agree : AgreeBelow (ip.offset + 1) d d') :
    upper d' t p = (upper d t p).replaced (ipLayers d' ip.isV4 ip.offset) := by
  unfold upper at is ⊢
  split at is
  · obtain ⟨a, -, other⟩ := Option.map_eq_some_iff.mp is
    cases other
  · rename_i noArp
    rw [if_neg noArp, if_neg noArp]
    split at is
    · rename_i type
      obtain ⟨rfl, isV4⟩ := (ipUpper_version is).1 rfl
      rw [if_pos type, if_pos type, ipLayers, isV4, if_pos rfl]
      exact ipUpper_replaced _ _
    · rename_i noV4
      rw [if_neg noV4, if_neg noV4]
      split at is
      · rename_i type
        obtain ⟨rfl, isV4⟩ := (ipUpper_version is).2 rfl
        rw [if_pos type, if_pos type, ipLayers, isV4, if_neg (by decide)]
        exact ipUpper_replaced _ _
      · rename_i noV6
        rw [if_neg noV6, if_neg noV6]
        split at is
        · rename_i type
          rw [if_pos type, if_pos type]
          exact mplsUpper_agree is agree
        · split at is
          · cases is
          · cases is

end Parse

namespace Headers

open Bytes (AgreeBelow)

variable {d d' : Bytes} {h : Headers} {ip : IpHeader}

/-- Headers with another network header and what follows it. -/
def replaced (h : Headers) (u : Parse.Upper) : Headers :=
  { h with network := u.network, transport := u.transport }

/-- A frame that agrees with one that was read up to the first byte of its IP header has the same
headers before it, and behind them what is read there. -/
theorem parse_replaced (read : parse d = .ok h) (is : h.ip? = some ip)
    (agree : AgreeBelow (ip.offset + 1) d d') :
    parse d' = .ok (h.replaced (Parse.ipLayers d' ip.isV4 ip.offset)) := by
  have laid := laid_of_parse read
  obtain ⟨long, rfl⟩ := eq_assemble read
  have found : (assemble d (Parse.etherEnd d)).upper.network = some (.ip ip) := ip?_eq_some.mp is
  have before : (assemble d (Parse.etherEnd d)).body ≤ ip.offset := (laid.upper.ip ip found).1
  rw [upper_assemble] at found
  cases payload : (assemble d (Parse.etherEnd d)).payload with
  | none =>
    rw [payload] at found
    cases found
  | some p =>
    rw [payload] at found
    have found : (Parse.upper d (Parse.etherEnd d).ethType p).network = some (.ip ip) := found
    have start : (Parse.etherEnd d).payload = some p := (Option.filter_eq_some_iff.mp payload).1
    have body : (assemble d (Parse.etherEnd d)).body = p := by rw [body, payload]; rfl
    have typed : (Parse.etherEnd d).ethType ≠ EtherType.notEtherType := by
      intro untyped
      rw [untyped] at found
      cases found
    have ended := Parse.etherEnd_agree agree long start (by omega) typed
    have upper := Parse.upper_agree found agree
    have first : d'.word 6 0 = d.word 6 0 := agree.word 6 (by have := laid.behind; omega)
    have second : d'.word 6 6 = d.word 6 6 := agree.word 6 (by have := laid.behind; omega)
    have kept : (Parse.etherEnd d).payload.filter (· < d.length) = some p := payload
    rw [parse_of_long (by rw [agree.length]; exact long), ended]
    simp only [assemble, replaced, agree.length, first, second, kept, Option.map_some,
      Option.getD_some, upper, Parse.Upper.replaced]

/-- The headers behind the IP header are those that are read there. -/
theorem eq_replaced (read : parse d = .ok h) (is : h.ip? = some ip) :
    h = h.replaced (Parse.ipLayers d ip.isV4 ip.offset) :=
  Except.ok.inj (read.symm.trans (parse_replaced read is (.refl _ d)))

end Headers

namespace Parse

open Bytes (AgreeBelow)

variable {d d' : Bytes} {n o q : Nat} {proto : BitVec 8} {seen : Extensions} {e : Extension}

/-! ## The IP header and its transport header -/

theorem ipv4?_agree (agree : AgreeBelow (o + 20) d d') : ipv4? d' o = ipv4? d o := by
  unfold ipv4?
  simp (disch := omega) only [agree.length, agree.byte, agree.word]

/-- The transport header is read inside the datagram. -/
theorem transport?_agree {ip : IpHeader} (length : d'.length = d.length)
    (same : ∀ i, o ≤ i → i < ip.stop → d'[i]? = d[i]?) :
    transport? d' ip o = transport? d ip o := by
  have byte (i : Nat) (from_ : o ≤ i) (below : i < ip.stop) : d'.byte i = d.byte i := by
    rw [Bytes.byte, Bytes.byte, same i from_ below]
  have word (k i : Nat) (from_ : o ≤ i) (below : i + k ≤ ip.stop) : d'.word k i = d.word k i :=
    Bytes.word_congr length fun j behind before => same j (by omega) (by omega)
  have message (room : o + 4 ≤ ip.stop) : icmpv6 d' o ip.stop = icmpv6 d o ip.stop := by
    have target : (if o + 24 ≤ ip.stop then d'.word 16 (o + 8) else 0) =
        if o + 24 ≤ ip.stop then d.word 16 (o + 8) else 0 := by
      split
      · exact word 16 (o + 8) (by omega) (by omega)
      · rfl
    have link (type : BitVec 8) :
        (if o + 32 ≤ ip.stop && d'.byte (o + 24) == type && d'.byte (o + 24 + 1) == 1 then
            d'.word 6 (o + 24 + 2) else 0) =
          if o + 32 ≤ ip.stop && d.byte (o + 24) == type && d.byte (o + 24 + 1) == 1 then
            d.word 6 (o + 24 + 2) else 0 := by
      by_cases option : o + 32 ≤ ip.stop
      · rw [byte (o + 24) (by omega) (by omega), byte (o + 24 + 1) (by omega) (by omega),
          word 6 (o + 24 + 2) (by omega) (by omega)]
      · simp [option]
    unfold icmpv6
    simp only [byte o (by omega) (by omega), byte (o + 1) (by omega) (by omega), target, link]
  have header : transportHeader? d' ip o = transportHeader? d ip o := by
    unfold transportHeader?
    dsimp only
    by_cases room : o + 4 ≤ ip.stop
    · rw [word 2 o (by omega) (by omega), word 2 (o + 2) (by omega) (by omega),
        byte o (by omega) (by omega), byte (o + 1) (by omega) (by omega), message room]
      by_cases long : o + 20 ≤ ip.stop
      · rw [byte (o + 12) (by omega) (by omega)]
      · simp [show ip.stop - o < 20 by omega]
    · have few : ip.stop - o < 4 := by omega
      simp [few, show ip.stop - o < 20 by omega, show ip.stop - o < 8 by omega,
        show ip.stop - o < 12 by omega]
  rw [transport?, header, transport?]

/-- Behind the end of the datagram there is no transport header. -/
theorem transport?_behind {ip : IpHeader} (behind : ip.stop ≤ o) : transport? d ip o = none := by
  cases found : transport? d ip o with
  | none => rfl
  | some t =>
    have within := (transport?_within found).2
    have positive := t.header.least_pos
    omega

/-! ## The chain of extension headers -/

/-- Walking from the header of kind `proto` at `o`, a header `e` at `q` is read. -/
inductive Passes (d : Bytes) : BitVec 8 → Nat → Extension → Nat → Prop
  | here {proto : BitVec 8} {o : Nat} {e : Extension} :
    Extension.ofProtocol? proto = some e → o + 2 ≤ d.length → Passes d proto o e o
  | further {proto : BitVec 8} {o q : Nat} {e e' : Extension} :
    Extension.ofProtocol? proto = some e → o + 2 ≤ d.length →
      Passes d (d.byte o) (o + e.length (d.byte (o + 1))) e' q → Passes d proto o e' q

/-- The walk over the chain, from its place in the frame. -/
def chainAt (d : Bytes) (proto : BitVec 8) (o : Nat) (seen : Extensions) : ChainEnd :=
  extensionChain proto o seen (d.drop o)

/-- The walk over the extension headers of the IPv6 header at `o`. -/
def chainOf (d : Bytes) (o : Nat) : ChainEnd := chainAt d (d.byte (o + 6)) (o + 40) {}

/-- An extension header `e` of the IPv6 header at `o` is read at `q`. -/
def Extends (d : Bytes) (o : Nat) (e : Extension) (q : Nat) : Prop :=
  Passes d (d.byte (o + 6)) (o + 40) e q

theorem strict_chainAt (d : Bytes) (proto : BitVec 8) (o : Nat) (seen : Extensions) :
    Strict.extensionChain d proto o seen = some (chainAt d proto o seen) :=
  Strict.extensionChain_eq proto seen rfl

theorem not_ended (known : Extension.ofProtocol? proto = some e) : proto ≠ 50 ∧ proto ≠ 59 := by
  constructor
  · rintro rfl
    cases known
  · rintro rfl
    cases known

/-- A header that is read leads to the next one. -/
theorem chainAt_step (known : Extension.ofProtocol? proto = some e) (fits : o + 2 ≤ d.length) :
    chainAt d proto o seen =
      chainAt d (d.byte o) (o + e.length (d.byte (o + 1))) (e.mark seen) := by
  obtain ⟨notEsp, notLast⟩ := not_ended known
  refine Option.some.inj ?_
  rw [← strict_chainAt, ← strict_chainAt, Strict.extensionChain, if_neg notEsp, if_neg notLast,
    known]
  simp only [dif_pos fits, Bytes.byte?_eq_byte (show o < d.length by omega),
    Bytes.byte?_eq_byte (show o + 1 < d.length by omega), Option.bind_eq_bind, Option.bind_some]

/-- A header that is cut ends the walk. -/
theorem chainAt_cut (known : Extension.ofProtocol? proto = some e) (short : d.length < o + 2) :
    chainAt d proto o seen = ⟨e.mark seen, proto, none⟩ := by
  obtain ⟨notEsp, notLast⟩ := not_ended known
  refine Option.some.inj ?_
  rw [← strict_chainAt, Strict.extensionChain, if_neg notEsp, if_neg notLast, known]
  simp only [dif_neg (Nat.not_le.mpr short)]

/-- Where no extension header is named, the walk ends without a look at the frame. -/
theorem chainAt_ended (unknown : Extension.ofProtocol? proto = none) (seen : Extensions) :
    ∃ reached, ∀ d o, chainAt d proto o seen =
      ⟨reached, proto, if proto = 50 ∨ proto = 59 then none else some o⟩ := by
  by_cases esp : proto = 50
  · refine ⟨{ seen with esp := true }, fun d o => ?_⟩
    rw [chainAt, extensionChain, if_pos esp, if_pos (.inl esp)]
  · by_cases last : proto = 59
    · refine ⟨{ seen with noNext := true }, fun d o => ?_⟩
      rw [chainAt, extensionChain, if_neg esp, if_pos last, if_pos (.inr last)]
    · refine ⟨seen, fun d o => ?_⟩
      rw [chainAt, extensionChain, if_neg esp, if_neg last, unknown,
        if_neg (not_or.mpr ⟨esp, last⟩)]

/-- The walk ends where no header is named or the header is cut, or it goes on. -/
theorem chain_induction (d : Bytes) {motive : BitVec 8 → Nat → Extensions → Prop}
    (ended : ∀ proto o seen, Extension.ofProtocol? proto = none → motive proto o seen)
    (cut : ∀ proto o seen e, Extension.ofProtocol? proto = some e → d.length < o + 2 →
      motive proto o seen)
    (step : ∀ proto o seen e, Extension.ofProtocol? proto = some e → o + 2 ≤ d.length →
      motive (d.byte o) (o + e.length (d.byte (o + 1))) (e.mark seen) → motive proto o seen)
    (proto : BitVec 8) (o : Nat) (seen : Extensions) : motive proto o seen := by
  fun_induction Strict.extensionChain d proto o seen with
  | case1 => exact ended _ _ _ rfl
  | case2 => exact ended _ _ _ rfl
  | case3 _ _ _ _ _ unknown => exact ended _ _ _ unknown
  | case4 _ _ _ _ _ e known fits ih => exact step _ _ _ e known fits (ih _ _)
  | case5 _ _ _ _ _ e known short => exact cut _ _ _ e known (Nat.not_le.mp short)

namespace Passes

theorem fits (passes : Passes d proto o e q) : o ≤ q ∧ q + 2 ≤ d.length := by
  induction passes with
  | here _ fits => exact ⟨Nat.le_refl _, fits⟩
  | further _ _ _ ih => exact ⟨Nat.le_trans (Nat.le_add_right ..) ih.1, ih.2⟩

/-- What follows the chain lies behind every header of it. -/
theorem before_payload (passes : Passes d proto o e q) {p : Nat}
    (payload : (chainAt d proto o seen).payload = some p) : q + 8 ≤ p := by
  induction passes generalizing seen with
  | here known fits =>
    rw [chainAt_step known fits] at payload
    exact Nat.le_trans (Nat.add_le_add_left (Extension.length_ge ..) _)
      (extensionChain_within payload)
  | further known fits _ ih =>
    rw [chainAt_step known fits] at payload
    exact ih payload

end Passes

/-- Frames that agree on the two bytes of every header that is read have the same chain. -/
theorem chainAt_congr (length : d'.length = d.length) (proto : BitVec 8) (o : Nat)
    (seen : Extensions)
    (same : ∀ e q, Passes d proto o e q → d'.byte q = d.byte q ∧ d'.byte (q + 1) = d.byte (q + 1)) :
    chainAt d' proto o seen = chainAt d proto o seen := by
  induction proto, o, seen using chain_induction d with
  | ended proto o seen unknown =>
    obtain ⟨_, ended⟩ := chainAt_ended unknown seen
    rw [ended, ended]
  | cut proto o seen e known short =>
    rw [chainAt_cut known short, chainAt_cut known (by omega)]
  | step proto o seen e known fits ih =>
    have read := same e o (.here known fits)
    rw [chainAt_step known fits, chainAt_step known (by omega), read.1, read.2]
    exact ih fun e' q passes => same e' q (.further known fits passes)

/-- The bytes before a header that is read lead to it. -/
theorem Passes.carry (passes : Passes d proto o e q) (length : d'.length = d.length)
    (same : ∀ i, i < q → d'.byte i = d.byte i) : Passes d' proto o e q := by
  induction passes with
  | here known fits => exact .here known (by omega)
  | @further proto o q e e' known fits rest ih =>
    have behind := rest.fits.1
    have long := e.length_ge (d.byte (o + 1))
    refine .further known (by omega) ?_
    rw [same o (by omega), same (o + 1) (by omega)]
    exact ih same

/-- A header that names no extension header is the last one. -/
theorem Passes.proto_eq (passes : Passes d proto o e q)
    (last : Extension.ofProtocol? (d.byte q) = none) (seen : Extensions) :
    (chainAt d proto o seen).proto = d.byte q := by
  induction passes generalizing seen with
  | @here proto o e known fits =>
    obtain ⟨_, ended⟩ := chainAt_ended last (e.mark seen)
    rw [chainAt_step known fits, ended]
  | further known fits _ ih =>
    rw [chainAt_step known fits]
    exact ih last _

/-- Two headers of one chain are the same or lie apart. -/
theorem Passes.apart {e' : Extension} {q' : Nat} (passes : Passes d proto o e q)
    (passes' : Passes d proto o e' q') : q = q' ∨ q + 8 ≤ q' ∨ q' + 8 ≤ q := by
  induction passes with
  | @here proto o e known fits =>
    cases passes' with
    | here => exact .inl rfl
    | @further _ _ _ e _ _ _ rest =>
      have behind := rest.fits.1
      have long := e.length_ge (d.byte (o + 1))
      exact .inr (.inl (by omega))
  | @further proto o q e _ known fits rest ih =>
    have behind := rest.fits.1
    have long := e.length_ge (d.byte (o + 1))
    cases passes' with
    | here => exact .inr (.inr (by omega))
    | further known' _ rest' =>
      rw [known] at known'
      cases known'
      exact ih rest'

end Parse

end FlowSwitch
