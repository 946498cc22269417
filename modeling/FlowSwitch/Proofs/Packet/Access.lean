import FlowSwitch.Proofs.Packet.Layout

/-!
# Reads in range

The readers of headers once more, told by the places at which they read. Here a read past the
end of the frame stops the reader, where the readers take a zero for what is not there. No
reader is ever stopped: what it checks before a read puts the place of the read inside the frame.
-/

namespace FlowSwitch

namespace Bytes

/-- The byte at `offset`, if it is there. -/
def byte? (d : Bytes) (offset : Nat) : Option (BitVec 8) := d[offset]?.map (·.toBitVec)

variable {d : Bytes} {n o stop : Nat}

theorem byte?_eq_byte (inside : o < d.length) : d.byte? o = some (d.byte o) := by
  rw [byte?, byte, List.getElem?_eq_getElem inside]
  rfl

theorem word?_eq_word (fits : o + n ≤ d.length) : d.word? n o = some (d.word n o) := by
  rw [word, word?, slice?, if_pos fits]
  rfl

theorem byte?_slice (inside : o < stop) (fits : stop ≤ d.length) :
    byte? (d.take stop) o = some (d.byte o) := by
  rw [← byte?_eq_byte (by omega), byte?, byte?, List.getElem?_take, if_pos inside]

theorem word?_slice (inside : o + n ≤ stop) (fits : stop ≤ d.length) :
    word? (d.take stop) n o = some (d.word n o) := by
  have short : o + n ≤ (d.take stop).length := by
    rw [List.length_take]
    omega
  rw [← word?_eq_word (by omega), word?, word?, slice?, slice?, if_pos short, if_pos (by omega),
    List.drop_take, List.take_take, Nat.min_eq_left (by omega)]

end Bytes

namespace Strict

open Parse

/-- Whether a SNAP header follows. -/
def isSnap (d : Bytes) (offset : Nat) : Option Bool := do
  let dsap ← d[offset]?
  let ssap ← d[offset + 1]?
  let oui0 ← d[offset + 3]?
  let oui1 ← d[offset + 4]?
  let oui2 ← d[offset + 5]?
  return dsap == 0xaa && ssap == 0xaa && oui0 == 0 && oui1 == 0 && oui2 == 0

def etherTags (d : Bytes) (t : BitVec 16) (offset : Nat) (framing : Framing)
    (vlan : Option VlanTag) : Option EtherEnd :=
  if t ≤ EtherType.maxLength then
    let llc : EtherEnd :=
      ⟨EtherType.notEtherType, { framing with llc := true }, vlan, some offset⟩
    if _more : offset + 8 < d.length then do
      let snap ← isSnap d offset
      if snap then
        let inner ← d.word? 2 (offset + 6)
        etherTags d inner (offset + 8) { framing with snap := true } vlan
      else return llc
    else some llc
  else
    let framing := { framing with ethernet2 := true }
    if EtherType.isVlan t then
      if _more : offset + 4 ≤ d.length then do
        let tci ← d.word? 2 offset
        let inner ← d.word? 2 (offset + 2)
        etherTags d inner (offset + 4) framing (vlan.or (some ⟨offset - 2, t, tci⟩))
      else some ⟨t, framing, vlan, none⟩
    else some ⟨t, framing, vlan, some offset⟩
termination_by d.length - offset

def arp? (d : Bytes) (offset : Nat) : Option (Option ArpHeader) :=
  if d.length < offset + 28 then some none else do
    let op ← d.word? 2 (offset + 6)
    let senderMac ← d.word? 6 (offset + 8)
    let senderIp ← d.word? 4 (offset + 14)
    let targetMac ← d.word? 6 (offset + 18)
    let targetIp ← d.word? 4 (offset + 24)
    return some { offset, op, senderMac, senderIp, targetMac, targetIp }

def labelStackEnd (d : Bytes) (offset : Nat) : Option (Option Nat) :=
  if _more : offset + 4 ≤ d.length then do
    let tcBos ← d[offset + 2]?
    if tcBos &&& 1 != 0 then return some (offset + 4) else labelStackEnd d (offset + 4)
  else some none
termination_by d.length - offset

/-- The target address in a neighbour message at `offset`. -/
def target (datagram : Bytes) (offset : Nat) : Option Ipv6Address :=
  if offset + 24 ≤ datagram.length then datagram.word? 16 (offset + 8) else some 0

/-- The address in the first option of a neighbour message at `offset`. -/
def linkLayer (datagram : Bytes) (offset : Nat) (optionType : BitVec 8) : Option MacAddress :=
  if offset + 32 ≤ datagram.length then do
    let type ← datagram.byte? (offset + 24)
    let units ← datagram.byte? (offset + 25)
    if type == optionType && units == 1 then datagram.word? 6 (offset + 26) else return 0
  else some 0

/-- A message is read in its datagram alone, which has to be inside the frame. -/
def icmpv6 (d : Bytes) (offset stop : Nat) : Option Icmpv6Header := do
  let datagram ← d.slice? 0 stop
  let type ← datagram.byte? offset
  let code ← datagram.byte? (offset + 1)
  if type == Icmpv6Header.neighborSolicitation || type == Icmpv6Header.neighborAdvertisement then
    let target ← target datagram offset
    let linkLayer ←
      linkLayer datagram offset (if type == Icmpv6Header.neighborSolicitation then 1 else 2)
    return { type, code, target, linkLayer }
  else return { type, code, target := 0, linkLayer := 0 }

/-- Two ports at the beginning of a transport header. -/
def ports (d : Bytes) (offset length : Nat) (header : BitVec 16 → BitVec 16 → TransportHeader) :
    Option (Option (TransportHeader × Nat)) := do
  let src ← d.word? 2 offset
  let dst ← d.word? 2 (offset + 2)
  return some (header src dst, length)

def transportHeader? (d : Bytes) (ip : IpHeader) (offset : Nat) :
    Option (Option (TransportHeader × Nat)) :=
  let available := ip.stop - offset
  if ip.stop ≤ offset then some none
  else if ip.proto = IpProtocol.tcp then
    if available < 20 then some none else do
      let offsets ← d.byte? (offset + 12)
      let length := (offsets >>> 4).toNat * 4
      if length < 20 || available < length then return none
      else ports d offset length .tcp
  else if ip.proto = IpProtocol.udp then
    if available < 8 then some none else ports d offset 8 .udp
  else if ip.proto = IpProtocol.sctp then
    if available < 12 then some none else ports d offset 12 .sctp
  else if ip.proto = IpProtocol.icmp && ip.isV4 then
    if available < 4 then some none else do
      let type ← d.byte? offset
      let code ← d.byte? (offset + 1)
      return some (.icmpv4 type code, 4)
  else if ip.proto = IpProtocol.icmpv6 && ip.isV6 then
    if available < 4 then some none else do
      let message ← icmpv6 d offset ip.stop
      return some (.icmpv6 message, 4)
  else some none

def transport? (d : Bytes) (ip : IpHeader) (offset : Nat) : Option (Option Transport) := do
  let header ← transportHeader? d ip offset
  return header.map fun (header, length) =>
    { offset, header
      payload := if offset + length < ip.stop then some (offset + length) else none }

def ipv4? (d : Bytes) (offset : Nat) : Option (Option (WithPayload IpHeader)) :=
  if d.length < offset + 20 then some none else do
    let first ← d.byte? offset
    let length := (first &&& 0x0f).toNat * 4
    if length < 20 || d.length < offset + length then return none else
      let tos ← d.byte? (offset + 1)
      let total ← d.word? 2 (offset + 2)
      let fragment ← d.word? 2 (offset + 6)
      let ttl ← d.byte? (offset + 8)
      let proto ← d.byte? (offset + 9)
      let src ← d.word? 4 (offset + 12)
      let dst ← d.word? 4 (offset + 16)
      let header : IpHeader := {
        offset
        stop := if length ≤ total.toNat then min (offset + total.toNat) d.length else d.length
        dscp := tos >>> 2
        ecn := tos &&& 3
        ttl, proto
        version := .v4 src dst }
      return some (header, if fragment &&& 0x1fff = 0 then some (offset + length) else none)

def extensionChain (d : Bytes) (proto : BitVec 8) (offset : Nat) (seen : Extensions) :
    Option ChainEnd :=
  if proto = 50 then some ⟨{ seen with esp := true }, proto, none⟩
  else if proto = 59 then some ⟨{ seen with noNext := true }, proto, none⟩
  else
    match Extension.ofProtocol? proto with
    | none => some ⟨seen, proto, some offset⟩
    | some e =>
      if _more : offset + 2 ≤ d.length then do
        let next ← d.byte? offset
        let field ← d.byte? (offset + 1)
        extensionChain d next (offset + e.length field) (e.mark seen)
      else some ⟨e.mark seen, proto, none⟩
termination_by d.length - offset
decreasing_by
  have := e.length_ge field
  omega

def ipv6? (d : Bytes) (offset : Nat) : Option (Option (WithPayload IpHeader)) :=
  if d.length < offset + 40 then some none else do
    let control ← d.word? 4 offset
    let size ← d.word? 2 (offset + 4)
    let first ← d.byte? (offset + 6)
    let ttl ← d.byte? (offset + 7)
    let src ← d.word? 16 (offset + 8)
    let dst ← d.word? 16 (offset + 24)
    let chain ← extensionChain d first (offset + 40) {}
    let trafficClass : BitVec 8 := (control >>> 20).setWidth 8
    let header : IpHeader := {
      offset
      stop := min (offset + 40 + size.toNat) d.length
      dscp := trafficClass >>> 2
      ecn := trafficClass &&& 3
      ttl
      proto := chain.proto
      version := .v6 src dst (control &&& 0x000fffff) chain.seen }
    return some (header, chain.payload)

/-- The layers from an IP header on. -/
def ipUpper (d : Bytes) (read : Option (Option (WithPayload IpHeader))) : Option Upper := do
  match ← read with
  | none => return {}
  | some (ip, none) => return { network := some (.ip ip) }
  | some (ip, some next) => return { network := some (.ip ip), transport := ← transport? d ip next }

/-- The layers behind a label stack that ends at `next`. -/
def labelled (d : Bytes) (next : Nat) : Option Upper :=
  if d.length ≤ next then some {} else do
    let first ← d[next]?
    if first >>> 4 = 4 then ipUpper d (ipv4? d next)
    else if first >>> 4 = 6 then ipUpper d (ipv6? d next)
    else return {}

def mplsUpper (d : Bytes) (offset : Nat) : Option Upper :=
  if d.length < offset + 4 then some {} else do
    let word ← d.word? 4 offset
    let stack ← labelStackEnd d offset
    let inner ← stack.elim (some {}) (labelled d)
    return { inner with mpls := some ⟨offset, word⟩ }

def upper (d : Bytes) (t : BitVec 16) (offset : Nat) : Option Upper :=
  if t = EtherType.arp then do
    let arp ← arp? d offset
    return { network := arp.map .arp }
  else if t = EtherType.ipv4 then ipUpper d (ipv4? d offset)
  else if t = EtherType.ipv6 then ipUpper d (ipv6? d offset)
  else if EtherType.isMpls t then mplsUpper d offset
  else if t = EtherType.pbb then
    if d.length < offset + 4 then some {} else do
      let tci ← d.word? 4 offset
      return { pbb := some ⟨offset, tci &&& 0x00ffffff⟩ }
  else some {}

/-- The headers of the frame `d`, or `none` if something was to be read that is not there. -/
def parse (d : Bytes) : Option (Except ParseError Headers) :=
  if d.length = 0 then some (.error .empty)
  else if d.length < ParseError.required then some (.error (.truncated d.length))
  else do
    let ethDst ← d.word? 6 0
    let ethSrc ← d.word? 6 6
    let t ← d.word? 2 12
    let ether ← etherTags d t 14 {} none
    let payload := ether.payload.filter (· < d.length)
    let upper ← payload.elim (some {}) (upper d ether.ethType)
    return .ok {
      length := d.length
      ethDst, ethSrc
      ethType := ether.ethType
      framing := ether.framing
      vlan := ether.vlan
      payload
      mpls := upper.mpls
      pbb := upper.pbb
      network := upper.network
      transport := upper.transport }

/-! ## No reader is stopped -/

variable {d rest : Bytes} {offset : Nat}

theorem exists_four {α : Type} {l : List α} (long : 4 ≤ l.length) :
    ∃ a b c e tail, l = a :: b :: c :: e :: tail := by
  match l, long with
  | a :: b :: c :: e :: tail, _ => exact ⟨a, b, c, e, tail, rfl⟩

/-- The bytes from an offset on are found where they stand. -/
theorem getElem?_of_spelled (spelled : d.drop offset = rest) (i : Nat) :
    d[offset + i]? = rest[i]? := by
  rw [← spelled, List.getElem?_drop]

theorem isSnap_of_spelled {dsap ssap c oui0 oui1 oui2 : UInt8}
    (spelled : d.drop offset = dsap :: ssap :: c :: oui0 :: oui1 :: oui2 :: rest) :
    isSnap d offset
      = some (dsap == 0xaa && ssap == 0xaa && oui0 == 0 && oui1 == 0 && oui2 == 0) := by
  have byte := getElem?_of_spelled spelled
  rw [isSnap, ← Nat.add_zero offset, byte 0, byte 1, byte 3, byte 4, byte 5]
  rfl

theorem word?_of_spelled {hi lo : UInt8} (spelled : d.drop offset = hi :: lo :: rest) :
    d.word? 2 offset = some (hi.toBitVec ++ lo.toBitVec) := by
  have byte := getElem?_of_spelled spelled
  rw [Bytes.word?_two, byte 1, ← Nat.add_zero offset, byte 0]
  rfl

theorem etherTags_eq (t : BitVec 16) (framing : Framing) (vlan : Option VlanTag)
    (inside : offset ≤ d.length) (spelled : d.drop offset = rest) :
    etherTags d t offset framing vlan = some (Parse.etherTags t offset framing vlan rest) := by
  have length : rest.length = d.length - offset := by rw [← spelled, List.length_drop]
  fun_induction Parse.etherTags t offset framing vlan rest with
  | case1 t offset framing vlan small dsap ssap c oui0 oui1 oui2 hi lo tail snap ih =>
    obtain ⟨rfl, rfl, rfl, rfl, rfl, filled⟩ := snap
    have positive := List.length_pos_iff.mpr filled
    have next := (drop_of_spelled (s := [0xaa, 0xaa, c, 0, 0, 0]) spelled (by simp)).1
    have after := (drop_of_spelled (s := [0xaa, 0xaa, c, 0, 0, 0, hi, lo]) spelled (by simp)).1
    simp only [List.length_cons, List.length_nil] at length next after
    rw [etherTags, if_pos small, dif_pos (by omega), isSnap_of_spelled spelled]
    simp only [Option.bind_eq_bind, Option.bind_some, beq_self_eq_true, Bool.and_self, if_true,
      word?_of_spelled next]
    exact ih (by omega) after (by omega)
  | case2 t offset framing vlan small llc dsap ssap c oui0 oui1 oui2 hi lo tail plain =>
    simp only [List.length_cons] at length
    rw [etherTags, if_pos small]
    split
    · have filled : tail ≠ [] := List.length_pos_iff.mp (by omega)
      have other :
          (dsap == 0xaa && ssap == 0xaa && oui0 == 0 && oui1 == 0 && oui2 == 0) = false := by
        simpa [filled] using plain
      rw [isSnap_of_spelled spelled, other]
      rfl
    · rfl
  | case3 rest t offset framing vlan small llc short =>
    rw [etherTags, if_pos small, dif_neg]
    intro more
    obtain ⟨_, _, _, _, behind, rfl⟩ := exists_four (l := rest) (by omega)
    simp only [List.length_cons] at length
    obtain ⟨_, _, _, _, tail, rfl⟩ := exists_four (l := behind) (by omega)
    exact short _ _ _ _ _ _ _ _ _ rfl
  | case4 t offset framing vlan large framing' isVlan tciHi tciLo hi lo tail tag ih =>
    have next := (drop_of_spelled (s := [tciHi, tciLo]) spelled (by simp)).1
    have after := (drop_of_spelled (s := [tciHi, tciLo, hi, lo]) spelled (by simp)).1
    simp only [List.length_cons, List.length_nil] at length next after
    rw [etherTags, if_neg large, if_pos isVlan, dif_pos (by omega)]
    simp only [Option.bind_eq_bind, Option.bind_some, word?_of_spelled spelled,
      word?_of_spelled next]
    exact ih (by omega) after (by omega)
  | case5 rest t offset framing vlan large framing' isVlan short =>
    rw [etherTags, if_neg large, if_pos isVlan, dif_neg]
    intro more
    obtain ⟨_, _, _, _, tail, rfl⟩ := exists_four (l := rest) (by omega)
    exact short _ _ _ _ _ rfl
  | case6 rest t offset framing vlan large framing' other =>
    rw [etherTags, if_neg large, if_neg other]

theorem arp?_eq (d : Bytes) (offset : Nat) : arp? d offset = some (Parse.arp? d offset) := by
  unfold arp? Parse.arp?
  split
  · rfl
  · simp (disch := omega) only [Bytes.word?_eq_word, Option.bind_eq_bind, Option.bind_some]
    rfl

/-- Induction on the entries of the stack. -/
theorem labelStackEnd_eq (spelled : d.drop offset = rest) :
    labelStackEnd d offset = some ((Parse.labelStackEnd offset rest).map (·.1)) := by
  have length : rest.length = d.length - offset := by rw [← spelled, List.length_drop]
  fun_induction Parse.labelStackEnd offset rest with
  | case1 offset a b tcBos e tail bottom =>
    simp only [List.length_cons] at length
    have byte : d[offset + 2]? = some tcBos := getElem?_of_spelled spelled 2
    rw [labelStackEnd, dif_pos (by omega), byte]
    simp only [Option.bind_eq_bind, Option.bind_some, if_pos bottom]
    rfl
  | case2 offset a b tcBos e tail more ih =>
    have after := (drop_of_spelled (s := [a, b, tcBos, e]) spelled (by simp)).1
    simp only [List.length_cons, List.length_nil] at length after
    have byte : d[offset + 2]? = some tcBos := getElem?_of_spelled spelled 2
    rw [labelStackEnd, dif_pos (by omega), byte]
    simp only [Option.bind_eq_bind, Option.bind_some, if_neg more]
    exact ih after (by omega)
  | case3 rest offset short =>
    rw [labelStackEnd, dif_neg]
    · rfl
    intro more
    obtain ⟨_, _, _, _, tail, rfl⟩ := exists_four (l := rest) (by omega)
    exact short _ _ _ _ _ rfl

theorem target_eq {stop : Nat} (fits : stop ≤ d.length) :
    target (d.take stop) offset =
      some (if offset + 24 ≤ stop then d.word 16 (offset + 8) else 0) := by
  have length : (d.take stop).length = stop := List.length_take_of_le fits
  rw [target, length]
  split
  · exact Bytes.word?_slice (by omega) fits
  · rfl

theorem linkLayer_eq {stop : Nat} (optionType : BitVec 8) (fits : stop ≤ d.length) :
    linkLayer (d.take stop) offset optionType =
      some (if offset + 32 ≤ stop && d.byte (offset + 24) == optionType
        && d.byte (offset + 24 + 1) == 1 then d.word 6 (offset + 24 + 2) else 0) := by
  have length : (d.take stop).length = stop := List.length_take_of_le fits
  rw [linkLayer, length]
  by_cases long : offset + 32 ≤ stop
  · rw [if_pos long, decide_eq_true long, Bool.true_and]
    simp (disch := omega) only [Option.bind_eq_bind, Option.bind_some, Bytes.byte?_slice,
      Bytes.word?_slice, Nat.add_assoc]
    split
    · rfl
    · rfl
  · rw [if_neg long, decide_eq_false long]
    rfl

theorem icmpv6_eq {stop : Nat} (inside : offset + 4 ≤ stop) (fits : stop ≤ d.length) :
    icmpv6 d offset stop = some (Parse.icmpv6 d offset stop) := by
  have datagram : d.slice? 0 stop = some (d.take stop) := by
    rw [Bytes.slice?, if_pos (by omega)]
    rfl
  unfold icmpv6 Parse.icmpv6
  simp (disch := omega) only [datagram, Option.bind_eq_bind, Option.bind_some, Bytes.byte?_slice,
    target_eq fits, linkLayer_eq _ fits]
  split
  · rfl
  · rfl

theorem ports_eq {length : Nat} {header : BitVec 16 → BitVec 16 → TransportHeader}
    (inside : offset + 4 ≤ d.length) :
    ports d offset length header =
      some (some (header (d.word 2 offset) (d.word 2 (offset + 2)), length)) := by
  rw [ports, Bytes.word?_eq_word (by omega), Bytes.word?_eq_word (by omega)]
  rfl

theorem transportHeader?_eq {ip : IpHeader} (fits : ip.stop ≤ d.length) :
    transportHeader? d ip offset = some (Parse.transportHeader? d ip offset) := by
  unfold transportHeader? Parse.transportHeader?
  dsimp only
  by_cases inside : ip.stop ≤ offset
  · have none : ip.stop - offset = 0 := by omega
    simp [none, inside]
  · rw [if_neg inside]
    by_cases tcp : ip.proto = IpProtocol.tcp
    · rw [if_pos tcp, if_pos tcp]
      by_cases short : ip.stop - offset < 20
      · simp [short]
      · rw [if_neg short, decide_eq_false short, Bool.false_or, Bytes.byte?_eq_byte (by omega)]
        simp only [Option.bind_eq_bind, Option.bind_some]
        split
        · rfl
        · exact ports_eq (by omega)
    · rw [if_neg tcp, if_neg tcp]
      split
      · split
        · rfl
        · exact ports_eq (by omega)
      · split
        · split
          · rfl
          · exact ports_eq (by omega)
        · split
          · split
            · rfl
            · rw [Bytes.byte?_eq_byte (by omega), Bytes.byte?_eq_byte (by omega)]
              rfl
          · split
            · split
              · rfl
              · rw [icmpv6_eq (by omega) fits]
                rfl
            · rfl

theorem transport?_eq {ip : IpHeader} (fits : ip.stop ≤ d.length) :
    transport? d ip offset = some (Parse.transport? d ip offset) := by
  rw [transport?, transportHeader?_eq fits]
  rfl

theorem ipv4?_eq (d : Bytes) (offset : Nat) : ipv4? d offset = some (Parse.ipv4? d offset) := by
  unfold ipv4? Parse.ipv4?
  by_cases short : d.length < offset + 20
  · simp [short]
  · simp (disch := omega) only [if_neg short, decide_eq_false short, Bool.false_or,
      Bytes.byte?_eq_byte, Bytes.word?_eq_word, Option.bind_eq_bind, Option.bind_some]
    split
    · rfl
    · rfl

/-- Induction on the headers of the chain. -/
theorem extensionChain_eq (proto : BitVec 8) (seen : Extensions)
    (spelled : d.drop offset = rest) :
    extensionChain d proto offset seen = some (Parse.extensionChain proto offset seen rest) := by
  have length : rest.length = d.length - offset := by rw [← spelled, List.length_drop]
  fun_induction Parse.extensionChain proto offset seen rest with
  | case1 | case2 =>
    unfold extensionChain
    rfl
  | case3 proto offset seen rest notEsp notLast unknown =>
    unfold extensionChain
    rw [if_neg notEsp, if_neg notLast, unknown]
  | case4 proto offset seen notEsp notLast e known next field tail length' ih =>
    have least := e.length_ge field.toBitVec
    have first : d.byte? offset = some next.toBitVec :=
      congrArg (Option.map _) (getElem?_of_spelled spelled 0)
    have second : d.byte? (offset + 1) = some field.toBitVec :=
      congrArg (Option.map _) (getElem?_of_spelled spelled 1)
    have after : d.drop (offset + length') = tail.drop (length' - 2) := by
      have split : offset + length' = offset + 2 + (length' - 2) := by omega
      rw [split, ← List.drop_drop]
      exact congrArg _ (drop_of_spelled (s := [next, field]) spelled (by simp)).1
    have behind := List.length_drop (i := offset + length') (l := d)
    rw [after] at behind
    simp only [List.length_cons] at length
    unfold extensionChain
    simp only [if_neg notEsp, if_neg notLast, known, dif_pos (show offset + 2 ≤ d.length by omega),
      first, second, Option.bind_eq_bind, Option.bind_some]
    exact ih after behind
  | case5 proto offset seen rest notEsp notLast e known short =>
    unfold extensionChain
    simp only [if_neg notEsp, if_neg notLast, known]
    rw [dif_neg]
    intro more
    rcases rest with _ | ⟨next, _ | ⟨field, tail⟩⟩
    · rw [List.length_nil] at length
      omega
    · rw [List.length_singleton] at length
      omega
    · exact short next field tail rfl

theorem ipv6?_eq (d : Bytes) (offset : Nat) : ipv6? d offset = some (Parse.ipv6? d offset) := by
  unfold ipv6? Parse.ipv6?
  split
  · rfl
  · simp (disch := omega) only [Bytes.byte?_eq_byte, Bytes.word?_eq_word, Option.bind_eq_bind,
      Option.bind_some, extensionChain_eq _ _ rfl]
    rfl

theorem ipUpper_eq {read : Option (WithPayload IpHeader)}
    (inside : ∀ ip next, read = some (ip, next) → ip.stop ≤ d.length) :
    ipUpper d (some read) = some (Parse.ipUpper d read) := by
  match read, inside with
  | none, _ => rfl
  | some (ip, none), _ => rfl
  | some (ip, some next), inside =>
    simp only [ipUpper, Option.bind_eq_bind, Option.bind_some, transport?_eq (inside ip _ rfl)]
    rfl

theorem ipv4_eq (d : Bytes) (offset : Nat) :
    ipUpper d (ipv4? d offset) = some (Parse.ipUpper d (Parse.ipv4? d offset)) := by
  rw [ipv4?_eq]
  exact ipUpper_eq fun ip next read => (ipv4?_within read).2.1.stop

theorem ipv6_eq (d : Bytes) (offset : Nat) :
    ipUpper d (ipv6? d offset) = some (Parse.ipUpper d (Parse.ipv6? d offset)) := by
  rw [ipv6?_eq]
  exact ipUpper_eq fun ip next read => (ipv6?_within read).2.1.stop

theorem word?_of_short {n : Nat} (short : d.length < offset + n) : d.word? n offset = none := by
  simp [Bytes.word?, Bytes.slice?, Nat.not_le.mpr short]

theorem mplsUpper_eq (d : Bytes) (offset : Nat) :
    mplsUpper d offset = some (Parse.mplsUpper d offset) := by
  unfold mplsUpper Parse.mplsUpper
  by_cases short : d.length < offset + 4
  · rw [if_pos short, word?_of_short short]
  · rw [if_neg short, Bytes.word?_eq_word (by omega), labelStackEnd_eq rfl]
    cases ended : Parse.labelStackEnd offset (d.drop offset) with
    | none => rfl
    | some found =>
      obtain ⟨next, tail⟩ := found
      have spelled := (labelStackEnd_within rfl ended).2
      have length := List.length_drop (i := next) (l := d)
      rw [spelled] at length
      simp only [Option.map_some, Option.bind_eq_bind, Option.bind_some, Option.elim_some, labelled]
      cases tail with
      | nil =>
        have past : d.length ≤ next := by
          simp only [List.length_nil] at length
          omega
        rw [if_pos past]
        rfl
      | cons first tail =>
        have inside : ¬ d.length ≤ next := by
          simp only [List.length_cons] at length
          omega
        have there : d[next]? = some first := getElem?_of_spelled spelled 0
        simp only [if_neg inside, there, Option.bind_some, ipv4_eq, ipv6_eq]
        split
        · rfl
        · split
          · rfl
          · rfl

theorem upper_eq (d : Bytes) (t : BitVec 16) (offset : Nat) :
    upper d t offset = some (Parse.upper d t offset) := by
  unfold upper Parse.upper
  split
  · rw [arp?_eq]
    rfl
  · split
    · exact ipv4_eq d offset
    · split
      · exact ipv6_eq d offset
      · split
        · exact mplsUpper_eq d offset
        · split
          · split
            · rename_i short
              rw [word?_of_short short]
              rfl
            · rename_i fits
              rw [Bytes.word?_eq_word (Nat.not_lt.mp fits)]
              rfl
          · rfl

theorem parse_eq (d : Bytes) : parse d = some (Headers.parse d) := by
  unfold parse Headers.parse
  split
  · rfl
  · split
    · rfl
    · rename_i long
      have long : 14 ≤ d.length := Nat.not_lt.mp long
      simp (disch := omega) only [Bytes.word?_eq_word, Option.bind_eq_bind, Option.bind_some,
        etherTags_eq _ _ _ long rfl]
      generalize Parse.etherTags (d.word 2 12) 14 {} none (d.drop 14) = ether
      cases ether.payload.filter (· < d.length) with
      | none => rfl
      | some p =>
        simp only [Option.elim_some, upper_eq]
        rfl

end Strict

end FlowSwitch
