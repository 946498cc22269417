import FlowSwitch.Proofs.Packet.Extent
import FlowSwitch.Proofs.Packet.Push

/-!
# Writes in range

The changes of a frame once more, told by the places that they read and write. Here a place past
the end of the frame stops a change, and so does a difference below zero, where the changes leave
alone what is not there. Only what a frame may lack is asked for first: the second label, and
what a neighbour message carries. No change of a frame that was read is ever stopped, since the
places that are recorded of it have their headers behind them.
-/

namespace FlowSwitch

namespace Bytes

variable {d s : Bytes} {o n : Nat}

theorem slice?_of_fits (fits : o + n ≤ d.length) : d.slice? o n = some ((d.drop o).take n) :=
  if_pos fits

theorem overwrite?_of_fits (fits : o + s.length ≤ d.length) :
    d.overwrite? o s = some (d.overwrite o s) := by
  rw [overwrite, overwrite?, if_pos fits]
  rfl

end Bytes

namespace FieldWrite

variable {d new : Bytes} {sums : List Nat} {o : Nat} {value : BitVec 8}

theorem length_patch : (patch o new sums d).length = d.length := by
  unfold patch
  split
  · rfl
  · refine List.foldlRecOn (motive := fun d' : Bytes => d'.length = d.length) _ _
      (Bytes.length_overwrite ..) fun d' length w _ => ?_
    dsimp only
    split
    · exact length
    · exact length_adjust.trans length

theorem length_patchHigh : (patchHigh o value sums d).length = d.length := by
  unfold patchHigh
  split
  · exact length_patch
  · rfl

theorem length_patchLow : (patchLow o value sums d).length = d.length := by
  unfold patchLow
  split
  · exact length_patch
  · rfl

theorem length_patchMasked {mask v : BitVec 32} : (patchMasked o mask v d).length = d.length := by
  unfold patchMasked
  split
  · exact length_patch
  · rfl

theorem length_setMplsTtl (h : Headers) (ttl : BitVec 8) (d : Bytes) :
    (setMplsTtl h ttl d).length = d.length := by
  unfold setMplsTtl setMpls
  split
  · exact length_patchMasked
  · rfl

theorem length_setIpTtl (h : Headers) (ttl : BitVec 8) (d : Bytes) :
    (setIpTtl h ttl d).length = d.length := by
  unfold setIpTtl
  split
  · rfl
  · split
    · exact length_patchHigh
    · exact length_patchLow

end FieldWrite

namespace Strict

variable {d : Bytes} {n o : Nat}

/-! ## Checksums and words -/

/-- The difference of two places, if it is not below zero. -/
def before (o n : Nat) : Option Nat := if n ≤ o then some (o - n) else none

theorem before_of_le (behind : n ≤ o) : before o n = some (o - n) := if_pos behind

def adjust (sums : List Nat) (old new : BitVec 16) (d : Bytes) : Option Bytes :=
  sums.foldlM
    (fun d at_ => do
      let sum ← d.word? 2 at_
      d.overwrite? at_ (Bytes.ofWord 2 (Checksum.update sum old new)))
    d

def patch (offset : Nat) (new : Bytes) (sums : List Nat) (d : Bytes) : Option Bytes := do
  let old ← d.slice? offset new.length
  let written ← d.overwrite? offset new
  (old.toWords.zip new.toWords).foldlM
    (fun d (o, n) => if o = n then some d else adjust sums o n d)
    written

def patchHigh (offset : Nat) (value : BitVec 8) (sums : List Nat) (d : Bytes) : Option Bytes := do
  let w ← d.word? 2 offset
  patch offset (Bytes.ofWord 2 ((w &&& 0x00ff) ||| (value.setWidth 16 <<< 8))) sums d

def patchLow (offset : Nat) (value : BitVec 8) (sums : List Nat) (d : Bytes) : Option Bytes := do
  let w ← d.word? 2 offset
  patch offset (Bytes.ofWord 2 ((w &&& 0xff00) ||| value.setWidth 16)) sums d

def patchMasked (offset : Nat) (mask value : BitVec 32) (d : Bytes) : Option Bytes := do
  let w ← d.word? 4 offset
  patch offset (Bytes.ofWord 4 ((w &&& ~~~mask) ||| (value &&& mask))) [] d

/-- Steps that are not stopped where something holds, and keep it, are not stopped one after the
other. -/
theorem foldlM_eq_foldl {α : Type} {step : Bytes → α → Bytes}
    {strict : Bytes → α → Option Bytes} {l : List α} (holds : Bytes → Prop)
    (each : ∀ a ∈ l, ∀ d, holds d → strict d a = some (step d a) ∧ holds (step d a))
    (begins : holds d) :
    l.foldlM strict d = some (l.foldl step d) := by
  induction l generalizing d with
  | nil => rfl
  | cons a l ih =>
    obtain ⟨first, kept⟩ := each a List.mem_cons_self d begins
    rw [List.foldlM_cons, first, List.foldl_cons]
    exact ih (fun b inside => each b (List.mem_cons_of_mem a inside)) kept

theorem adjust_eq {sums : List Nat} (inside : ∀ s ∈ sums, s + 2 ≤ d.length)
    (old new : BitVec 16) :
    adjust sums old new d = some (FieldWrite.adjust sums old new d) := by
  refine foldlM_eq_foldl (fun d' => d'.length = d.length)
    (fun s listed d' length => ?_) rfl
  have fits : s + 2 ≤ d'.length := length ▸ inside s listed
  rw [Bytes.word?_eq_word fits]
  refine ⟨Bytes.overwrite?_of_fits ?_, (Bytes.length_overwrite ..).trans length⟩
  rwa [Bytes.length_ofWord]

theorem patch_eq {new : Bytes} {sums : List Nat} (fits : o + new.length ≤ d.length)
    (inside : ∀ s ∈ sums, s + 2 ≤ d.length) :
    patch o new sums d = some (FieldWrite.patch o new sums d) := by
  rw [patch, FieldWrite.patch, Bytes.slice?_of_fits fits, Bytes.overwrite?_of_fits fits]
  refine foldlM_eq_foldl (fun d' => d'.length = d.length) (fun w _ d' length => ?_)
    (Bytes.length_overwrite ..)
  dsimp only
  split
  · exact ⟨rfl, length⟩
  · exact ⟨adjust_eq (length ▸ inside) _ _, FieldWrite.length_adjust.trans length⟩

theorem patchWord_eq {k : Nat} {sums : List Nat} (fits : o + k ≤ d.length)
    (inside : ∀ s ∈ sums, s + 2 ≤ d.length) (w : BitVec (8 * k)) :
    patch o (Bytes.ofWord k w) sums d = some (FieldWrite.patch o (Bytes.ofWord k w) sums d) :=
  patch_eq (by rwa [Bytes.length_ofWord]) inside

theorem patchHigh_eq {sums : List Nat} (fits : o + 2 ≤ d.length)
    (inside : ∀ s ∈ sums, s + 2 ≤ d.length) (value : BitVec 8) :
    patchHigh o value sums d = some (FieldWrite.patchHigh o value sums d) := by
  rw [patchHigh, FieldWrite.patchHigh, Bytes.word?_eq_word fits]
  exact patchWord_eq fits inside _

theorem patchLow_eq {sums : List Nat} (fits : o + 2 ≤ d.length)
    (inside : ∀ s ∈ sums, s + 2 ≤ d.length) (value : BitVec 8) :
    patchLow o value sums d = some (FieldWrite.patchLow o value sums d) := by
  rw [patchLow, FieldWrite.patchLow, Bytes.word?_eq_word fits]
  exact patchWord_eq fits inside _

theorem patchMasked_eq (fits : o + 4 ≤ d.length) (mask value : BitVec 32) :
    patchMasked o mask value d = some (FieldWrite.patchMasked o mask value d) := by
  rw [patchMasked, FieldWrite.patchMasked, Bytes.word?_eq_word fits]
  exact patchWord_eq fits (fun _ none => absurd none List.not_mem_nil) _

/-! ## Fields -/

def pseudoHeaderSum (h : Headers) (d : Bytes) : Option (List Nat) :=
  match h.transport with
  | some ⟨offset, .tcp .., _⟩ => some [offset + 16]
  | some ⟨offset, .udp .., _⟩ => do
    let sum ← d.word? 2 (offset + 6)
    return if sum = 0 then [] else [offset + 6]
  | some ⟨offset, .icmpv6 .., _⟩ => some [offset + 2]
  | _ => some []

def setVlan (h : Headers) (mask value : BitVec 16) (d : Bytes) : Option Bytes :=
  match h.vlan with
  | some tag => patch (tag.offset + 2) (Bytes.ofWord 2 ((tag.tci &&& ~~~mask) ||| value)) [] d
  | none => some d

def setVlanId (h : Headers) (vid : BitVec 16) : Bytes → Option Bytes :=
  setVlan h 0x0fff (vid &&& 0x0fff)

def setVlanPriority (h : Headers) (pcp : BitVec 8) : Bytes → Option Bytes :=
  setVlan h 0xe000 ((pcp &&& 7).setWidth 16 <<< 13)

def setTrafficClass (h : Headers) (mask value : BitVec 8) (d : Bytes) : Option Bytes :=
  match h.ip? with
  | none => some d
  | some ip =>
    if ip.isV4 then do
      let tos ← d.byte? (ip.offset + 1)
      patchLow ip.offset ((tos &&& ~~~mask) ||| (value &&& mask)) (FieldWrite.headerSum ip) d
    else patchMasked ip.offset (mask.setWidth 32 <<< 20) (value.setWidth 32 <<< 20) d

def setDscp (h : Headers) (dscp : BitVec 8) : Bytes → Option Bytes :=
  setTrafficClass h 0xfc (dscp <<< 2)

def setProtocol (h : Headers) (proto : BitVec 8) (d : Bytes) : Option Bytes :=
  match h.ip? with
  | none => some d
  | some ip => do
    let sums ← pseudoHeaderSum h d
    let follow := adjust sums (ip.proto.setWidth 16) (proto.setWidth 16)
    match ip.version with
    | .v4 .. => patchLow (ip.offset + 8) proto (FieldWrite.headerSum ip) d >>= follow
    | .v6 _ _ _ extensions =>
      if extensions = {} then patchHigh (ip.offset + 6) proto [] d >>= follow else some d

def setIpTtl (h : Headers) (ttl : BitVec 8) (d : Bytes) : Option Bytes :=
  match h.ip? with
  | none => some d
  | some ip =>
    if ip.isV4 then patchHigh (ip.offset + 8) ttl (FieldWrite.headerSum ip) d
    else patchLow (ip.offset + 6) ttl [] d

def setIpv4Address (h : Headers) (position : Nat) (address : Ipv4Address) (d : Bytes) :
    Option Bytes :=
  match h.ip? with
  | some ip =>
    if ip.isV4 then do
      let sums ← pseudoHeaderSum h d
      patch (ip.offset + position) (Bytes.ofWord 4 address) (FieldWrite.headerSum ip ++ sums) d
    else some d
  | none => some d

def setIpv6Address (h : Headers) (position : Nat) (address : Ipv6Address) (d : Bytes) :
    Option Bytes :=
  match h.ip? with
  | some ip =>
    if ip.isV6 then do
      let sums ← pseudoHeaderSum h d
      patch (ip.offset + position) (Bytes.ofWord 16 address) sums d
    else some d
  | none => some d

def setFlowLabel (h : Headers) (label : BitVec 32) (d : Bytes) : Option Bytes :=
  match h.ip? with
  | some ip => if ip.isV6 then patchMasked ip.offset 0x000fffff label d else some d
  | none => some d

def setPort (h : Headers) (offset position : Nat) (port : BitVec 16) (d : Bytes) :
    Option Bytes := do
  let sums ← pseudoHeaderSum h d
  patch (offset + position) (Bytes.ofWord 2 port) sums d

def updateSctp (h : Headers) (offset : Nat) (d : Bytes) : Option Bytes := do
  let length ← before (min h.networkStop d.length) offset
  let packet ← d.slice? offset length
  d.overwrite? (offset + 8) (Crc32c.sctp packet)

def setTcpPort (h : Headers) (position : Nat) (port : BitVec 16) (d : Bytes) : Option Bytes :=
  match h.transport with
  | some ⟨offset, .tcp .., _⟩ => setPort h offset position port d
  | _ => some d

def setUdpPort (h : Headers) (position : Nat) (port : BitVec 16) (d : Bytes) : Option Bytes :=
  match h.transport with
  | some ⟨offset, .udp .., _⟩ => setPort h offset position port d
  | _ => some d

def setSctpPort (h : Headers) (position : Nat) (port : BitVec 16) (d : Bytes) : Option Bytes :=
  match h.transport with
  | some ⟨offset, .sctp .., _⟩ => setPort h offset position port d >>= updateSctp h offset
  | _ => some d

def setIcmpType (offset : Option Nat) (type : BitVec 8) (d : Bytes) : Option Bytes :=
  match offset with
  | some o => patchHigh o type [o + 2] d
  | none => some d

def setIcmpCode (offset : Option Nat) (code : BitVec 8) (d : Bytes) : Option Bytes :=
  match offset with
  | some o => patchLow o code [o + 2] d
  | none => some d

def setArp (h : Headers) (position : Nat) (value : Bytes) (d : Bytes) : Option Bytes :=
  match h.arp? with
  | some arp => patch (arp.offset + position) value [] d
  | none => some d

/-- A message that is cut short has no target. -/
def setNeighborTarget (h : Headers) (target : Ipv6Address) (d : Bytes) : Option Bytes :=
  let hasTarget (t : BitVec 8) : Bool :=
    t == 0 || t == Icmpv6Header.neighborSolicitation || t == Icmpv6Header.neighborAdvertisement
  match FieldWrite.icmpv6Offset? h hasTarget with
  | some o =>
    if o + 24 ≤ d.length then patch (o + 8) (Bytes.ofWord 16 target) [o + 2] d else some d
  | none => some d

/-- A message that is cut short has no option, or not all of it. -/
def setNeighborLink (h : Headers) (type : BitVec 8) (optionType : UInt8) (address : MacAddress)
    (d : Bytes) : Option Bytes :=
  match FieldWrite.icmpv6Offset? h (· == type) with
  | some o =>
    if o + 32 ≤ d.length ∧ d[o + 24]? = some optionType ∧ d[o + 25]? = some 1 then
      patch (o + 26) (Bytes.ofWord 6 address) [o + 2] d
    else some d
  | none => some d

def setMpls (h : Headers) (mask value : BitVec 32) (d : Bytes) : Option Bytes :=
  match h.mpls with
  | some entry => patchMasked entry.offset mask value d
  | none => some d

def setMplsLabel (h : Headers) (label : BitVec 32) : Bytes → Option Bytes :=
  setMpls h 0xfffff000 (label <<< 12)

def setMplsTrafficClass (h : Headers) (tc : BitVec 8) : Bytes → Option Bytes :=
  setMpls h 0x00000e00 (tc.setWidth 32 <<< 9)

def setMplsBottom (h : Headers) (bottom : BitVec 8) : Bytes → Option Bytes :=
  setMpls h 0x00000100 (bottom.setWidth 32 <<< 8)

def setMplsTtl (h : Headers) (ttl : BitVec 8) : Bytes → Option Bytes :=
  setMpls h 0xff (ttl.setWidth 32)

def setPbb (h : Headers) (isid : BitVec 32) (d : Bytes) : Option Bytes :=
  match h.pbb with
  | some tag => patchMasked tag.offset 0x00ffffff isid d
  | none => some d

def setEthType (h : Headers) (type : BitVec 16) (d : Bytes) : Option Bytes :=
  match h.payload with
  | some payload =>
    if h.framing.ethernet2 || h.framing.snap then do
      let offset ← before payload 2
      patch offset (Bytes.ofWord 2 type) [] d
    else some d
  | none => some d

def setField (h : Headers) (d : Bytes) : (f : Field) → BitVec f.width → Option Bytes
  | .ethDst, v => patch 0 (Bytes.ofWord 6 v) [] d
  | .ethSrc, v => patch 6 (Bytes.ofWord 6 v) [] d
  | .ethType, v => setEthType h v d
  | .vlanVid, v => setVlanId h v d
  | .vlanPcp, v => setVlanPriority h v d
  | .ipDscp, v => setDscp h v d
  | .ipEcn, v => setTrafficClass h 0x03 v d
  | .ipProto, v => setProtocol h v d
  | .ipv4Src, v => setIpv4Address h 12 v d
  | .ipv4Dst, v => setIpv4Address h 16 v d
  | .tcpSrc, v => setTcpPort h 0 v d
  | .tcpDst, v => setTcpPort h 2 v d
  | .udpSrc, v => setUdpPort h 0 v d
  | .udpDst, v => setUdpPort h 2 v d
  | .sctpSrc, v => setSctpPort h 0 v d
  | .sctpDst, v => setSctpPort h 2 v d
  | .icmpv4Type, v => setIcmpType (FieldWrite.icmpv4Offset? h) v d
  | .icmpv4Code, v => setIcmpCode (FieldWrite.icmpv4Offset? h) v d
  | .arpOp, v => setArp h 6 (Bytes.ofWord 2 v) d
  | .arpSha, v => setArp h 8 (Bytes.ofWord 6 v) d
  | .arpSpa, v => setArp h 14 (Bytes.ofWord 4 v) d
  | .arpTha, v => setArp h 18 (Bytes.ofWord 6 v) d
  | .arpTpa, v => setArp h 24 (Bytes.ofWord 4 v) d
  | .ipv6Src, v => setIpv6Address h 8 v d
  | .ipv6Dst, v => setIpv6Address h 24 v d
  | .ipv6Flabel, v => setFlowLabel h v d
  | .icmpv6Type, v => setIcmpType (FieldWrite.icmpv6Offset? h fun _ => true) v d
  | .icmpv6Code, v => setIcmpCode (FieldWrite.icmpv6Offset? h fun _ => true) v d
  | .ipv6NdTarget, v => setNeighborTarget h v d
  | .ipv6NdSll, v => setNeighborLink h Icmpv6Header.neighborSolicitation 1 v d
  | .ipv6NdTll, v => setNeighborLink h Icmpv6Header.neighborAdvertisement 2 v d
  | .mplsLabel, v => setMplsLabel h v d
  | .mplsTc, v => setMplsTrafficClass h v d
  | .mplsBos, v => setMplsBottom h v d
  | .pbbIsid, v => setPbb h v d
  | .inPort, _ | .inPhyPort, _ | .metadata, _ | .tunnelId, _ | .ipv6Exthdr, _ => some d

def setFields (h : Headers) (m : Match) (d : Bytes) : Option Bytes :=
  Field.all.foldlM
    (fun d f => if (m.get f).valid then setField h d f (m.get f).value else some d)
    d

/-! ## No field is stopped -/

end Strict

/-- Whether a frame of `n` bytes has the headers behind their places. -/
structure Headers.Reaches (h : Headers) (n : Nat) : Prop where
  ethernet : 14 ≤ n
  payload : ∀ p, h.payload = some p → 14 ≤ p ∧ p ≤ n
  vlan : ∀ tag, h.vlan = some tag → 12 ≤ tag.offset ∧ tag.offset + 6 ≤ n
  mpls : ∀ e, h.mpls = some e → 14 ≤ e.offset ∧ e.offset + 4 ≤ n
  pbb : ∀ tag, h.pbb = some tag → tag.offset + 4 ≤ n
  arp : ∀ a, h.arp? = some a → a.offset + 28 ≤ n
  ip : ∀ ip, h.ip? = some ip → ip.offset + ip.least ≤ n
  transport : ∀ t, h.transport = some t →
    t.offset + t.header.least ≤ h.networkStop ∧ h.networkStop ≤ n

theorem Headers.Laid.reaches {h : Headers} {d : Bytes} (laid : h.Laid d) : h.Reaches d.length where
  ethernet := Nat.le_trans laid.behind laid.inside
  payload p is := by
    have body : h.body = p := by rw [body, is, Option.getD_some]
    exact body ▸ ⟨laid.behind, laid.inside⟩
  vlan tag is := ⟨(laid.tag tag is).1, Nat.le_trans (laid.tag tag is).2.1 laid.inside⟩
  mpls e is := by
    obtain ⟨here, fits, -⟩ := laid.upper.mpls e is
    rw [here]
    exact ⟨laid.behind, fits⟩
  pbb tag is := by
    obtain ⟨here, fits, -⟩ := laid.upper.pbb tag is
    rwa [here]
  arp a is := by
    obtain ⟨here, fits, -⟩ := laid.upper.arp a (Headers.arp?_eq_some.mp is)
    rwa [here]
  ip ip is := by
    exact (laid.upper.ip ip (Headers.ip?_eq_some.mp is)).2.inside
  transport t is := by
    obtain ⟨ip, network, -, -, fits⟩ := laid.upper.transport t is
    rw [Headers.networkStop_of_ip network]
    exact ⟨fits, (laid.upper.ip ip network).2.stop⟩

namespace Strict

section

variable {h : Headers} {d : Bytes} {n : Nat} (reaches : h.Reaches n) (length : d.length = n)
include reaches length

theorem pseudoHeaderSum_eq : pseudoHeaderSum h d = some (FieldWrite.pseudoHeaderSum h d) := by
  unfold pseudoHeaderSum FieldWrite.pseudoHeaderSum
  cases is : h.transport with
  | none => rfl
  | some t =>
    obtain ⟨o, header, q⟩ := t
    cases header with
    | udp src dst =>
      obtain ⟨fits, stop⟩ := reaches.transport _ is
      simp only [TransportHeader.least] at fits
      dsimp only
      rw [Bytes.word?_eq_word (by omega)]
      rfl
    | _ => rfl

theorem pseudoHeaderSum_inside : ∀ s ∈ FieldWrite.pseudoHeaderSum h d, s + 2 ≤ d.length := by
  intro s listed
  unfold FieldWrite.pseudoHeaderSum at listed
  cases is : h.transport with
  | none =>
    rw [is] at listed
    cases listed
  | some t =>
    obtain ⟨fits, stop⟩ := reaches.transport t is
    obtain ⟨o, header, q⟩ := t
    rw [is] at listed
    cases header with
    | tcp src dst =>
      obtain rfl := List.mem_singleton.mp listed
      simp only [TransportHeader.least] at fits
      omega
    | udp src dst =>
      dsimp only at listed
      split at listed
      · cases listed
      · obtain rfl := List.mem_singleton.mp listed
        simp only [TransportHeader.least] at fits
        omega
    | icmpv6 m =>
      obtain rfl := List.mem_singleton.mp listed
      simp only [TransportHeader.least] at fits
      omega
    | _ => cases listed

theorem headerSum_inside {ip : IpHeader} (is : h.ip? = some ip) :
    ∀ s ∈ FieldWrite.headerSum ip, s + 2 ≤ d.length := by
  intro s listed
  have fits := reaches.ip ip is
  unfold FieldWrite.headerSum at listed
  split at listed
  · next v4 =>
    obtain rfl := List.mem_singleton.mp listed
    rw [IpHeader.least_v4 v4] at fits
    omega
  · cases listed

omit reaches length in
theorem nothing_inside : ∀ s ∈ ([] : List Nat), s + 2 ≤ d.length :=
  fun _ listed => absurd listed List.not_mem_nil

theorem setVlan_eq (mask value : BitVec 16) :
    setVlan h mask value d = some (FieldWrite.setVlan h mask value d) := by
  unfold setVlan FieldWrite.setVlan
  cases is : h.vlan with
  | none => rfl
  | some tag =>
    have fits := (reaches.vlan tag is).2
    exact patchWord_eq (by omega) nothing_inside _

theorem setTrafficClass_eq (mask value : BitVec 8) :
    setTrafficClass h mask value d = some (FieldWrite.setTrafficClass h mask value d) := by
  unfold setTrafficClass FieldWrite.setTrafficClass
  cases is : h.ip? with
  | none => rfl
  | some ip =>
    have fits := reaches.ip ip is
    dsimp only
    split
    · next v4 =>
      rw [IpHeader.least_v4 v4] at fits
      rw [Bytes.byte?_eq_byte (by omega)]
      exact patchLow_eq (by omega) (headerSum_inside reaches length is) _
    · next v6 =>
      rw [IpHeader.least_v6 (Bool.eq_false_iff.mpr v6)] at fits
      exact patchMasked_eq (by omega) _ _

theorem setProtocol_eq (proto : BitVec 8) :
    setProtocol h proto d = some (FieldWrite.setProtocol h proto d) := by
  unfold setProtocol FieldWrite.setProtocol
  cases is : h.ip? with
  | none => rfl
  | some ip =>
    have fits := reaches.ip ip is
    have least := ip.least_ge
    have sums := pseudoHeaderSum_inside reaches length
    simp only [pseudoHeaderSum_eq reaches length, Option.bind_eq_bind, Option.bind_some]
    cases ip.version with
    | v4 src dst =>
      dsimp only
      rw [patchLow_eq (by omega) (headerSum_inside reaches length is), Option.bind_some]
      exact adjust_eq (by rwa [FieldWrite.length_patchLow]) _ _
    | v6 src dst label extensions =>
      dsimp only
      split
      · rw [patchHigh_eq (by omega) nothing_inside, Option.bind_some]
        exact adjust_eq (by rwa [FieldWrite.length_patchHigh]) _ _
      · rfl

theorem setIpTtl_eq (ttl : BitVec 8) :
    setIpTtl h ttl d = some (FieldWrite.setIpTtl h ttl d) := by
  unfold setIpTtl FieldWrite.setIpTtl
  cases is : h.ip? with
  | none => rfl
  | some ip =>
    have fits := reaches.ip ip is
    have least := ip.least_ge
    dsimp only
    split
    · exact patchHigh_eq (by omega) (headerSum_inside reaches length is) _
    · exact patchLow_eq (by omega) nothing_inside _

theorem setIpv4Address_eq {position : Nat} (within : position + 4 ≤ 20) (address : Ipv4Address) :
    setIpv4Address h position address d
      = some (FieldWrite.setIpv4Address h position address d) := by
  unfold setIpv4Address FieldWrite.setIpv4Address
  cases is : h.ip? with
  | none => rfl
  | some ip =>
    have fits := reaches.ip ip is
    dsimp only
    split
    · next v4 =>
      rw [IpHeader.least_v4 v4] at fits
      simp only [pseudoHeaderSum_eq reaches length, Option.bind_eq_bind, Option.bind_some]
      refine patchWord_eq (by omega) (fun s listed => ?_) _
      obtain header | pseudo := List.mem_append.mp listed
      · exact headerSum_inside reaches length is s header
      · exact pseudoHeaderSum_inside reaches length s pseudo
    · rfl

theorem setIpv6Address_eq {position : Nat} (within : position + 16 ≤ 40) (address : Ipv6Address) :
    setIpv6Address h position address d
      = some (FieldWrite.setIpv6Address h position address d) := by
  unfold setIpv6Address FieldWrite.setIpv6Address
  cases is : h.ip? with
  | none => rfl
  | some ip =>
    have fits := reaches.ip ip is
    dsimp only
    split
    · next v6 =>
      rw [IpHeader.least_v6 (IpHeader.isV6_iff.mp v6)] at fits
      simp only [pseudoHeaderSum_eq reaches length, Option.bind_eq_bind, Option.bind_some]
      exact patchWord_eq (by omega) (pseudoHeaderSum_inside reaches length) _
    · rfl

theorem setFlowLabel_eq (label : BitVec 32) :
    setFlowLabel h label d = some (FieldWrite.setFlowLabel h label d) := by
  unfold setFlowLabel FieldWrite.setFlowLabel
  cases is : h.ip? with
  | none => rfl
  | some ip =>
    have fits := reaches.ip ip is
    dsimp only
    split
    · next v6 =>
      rw [IpHeader.least_v6 (IpHeader.isV6_iff.mp v6)] at fits
      exact patchMasked_eq (by omega) _ _
    · rfl

theorem setPort_eq {position : Nat} {t : Transport} (is : h.transport = some t)
    (within : position + 2 ≤ t.header.least) (port : BitVec 16) :
    setPort h t.offset position port d
      = some (FieldWrite.setPort h t.offset position port d) := by
  obtain ⟨fits, stop⟩ := reaches.transport t is
  rw [setPort, FieldWrite.setPort]
  simp only [pseudoHeaderSum_eq reaches length, Option.bind_eq_bind, Option.bind_some]
  exact patchWord_eq (by omega) (pseudoHeaderSum_inside reaches length) _

theorem updateSctp_eq {t : Transport} (is : h.transport = some t) (long : 12 ≤ t.header.least) :
    updateSctp h t.offset d = some (FieldWrite.updateSctp h t.offset d) := by
  obtain ⟨fits, stop⟩ := reaches.transport t is
  have inside : t.offset ≤ min h.networkStop d.length := by omega
  unfold updateSctp FieldWrite.updateSctp
  dsimp only
  rw [if_pos inside, before_of_le inside]
  simp only [Option.bind_eq_bind, Option.bind_some]
  rw [Bytes.slice?_of_fits (by omega), Option.bind_some]
  exact Bytes.overwrite?_of_fits (by rw [Headers.length_sctp]; omega)

theorem setTcpPort_eq {position : Nat} (within : position + 2 ≤ 20) (port : BitVec 16) :
    setTcpPort h position port d = some (FieldWrite.setTcpPort h position port d) := by
  unfold setTcpPort FieldWrite.setTcpPort
  cases is : h.transport with
  | none => rfl
  | some t =>
    obtain ⟨o, header, q⟩ := t
    cases header with
    | tcp src dst => exact setPort_eq reaches length is within port
    | _ => rfl

theorem setUdpPort_eq {position : Nat} (within : position + 2 ≤ 8) (port : BitVec 16) :
    setUdpPort h position port d = some (FieldWrite.setUdpPort h position port d) := by
  unfold setUdpPort FieldWrite.setUdpPort
  cases is : h.transport with
  | none => rfl
  | some t =>
    obtain ⟨o, header, q⟩ := t
    cases header with
    | udp src dst => exact setPort_eq reaches length is within port
    | _ => rfl

theorem setSctpPort_eq {position : Nat} (within : position + 2 ≤ 12) (port : BitVec 16) :
    setSctpPort h position port d = some (FieldWrite.setSctpPort h position port d) := by
  unfold setSctpPort FieldWrite.setSctpPort
  cases is : h.transport with
  | none => rfl
  | some t =>
    obtain ⟨o, header, q⟩ := t
    cases header with
    | sctp src dst =>
      have set := setPort_eq reaches length is within port
      have longer : (FieldWrite.setPort h o position port d).length = n :=
        FieldWrite.length_patch.trans length
      dsimp only at set ⊢
      rw [set, Option.bind_eq_bind, Option.bind_some]
      exact updateSctp_eq reaches longer is (Nat.le_refl 12)
    | _ => rfl

omit reaches in
theorem setIcmp_eq {offset : Option Nat}
    (there : ∀ o, offset = some o → o + 4 ≤ n) (v : BitVec 8) :
    setIcmpType offset v d = some (FieldWrite.setIcmpType offset v d) ∧
      setIcmpCode offset v d = some (FieldWrite.setIcmpCode offset v d) := by
  cases offset with
  | none => exact ⟨rfl, rfl⟩
  | some o =>
    have fits := there o rfl
    have sum : ∀ s ∈ [o + 2], s + 2 ≤ d.length := by
      intro s listed
      obtain rfl := List.mem_singleton.mp listed
      omega
    exact ⟨patchHigh_eq (by omega) sum v, patchLow_eq (by omega) sum v⟩

omit length in
theorem icmpv4Offset?_inside {o : Nat} (is : FieldWrite.icmpv4Offset? h = some o) :
    o + 4 ≤ n := by
  unfold FieldWrite.icmpv4Offset? at is
  split at is
  · next there =>
    cases is
    obtain ⟨fits, stop⟩ := reaches.transport _ there
    exact Nat.le_trans fits stop
  · cases is

omit length in
theorem icmpv6Offset?_inside {accepts : BitVec 8 → Bool} {o : Nat}
    (is : FieldWrite.icmpv6Offset? h accepts = some o) : o + 4 ≤ n := by
  unfold FieldWrite.icmpv6Offset? at is
  split at is
  · next there =>
    obtain ⟨fits, stop⟩ := reaches.transport _ there
    split at is
    · cases is
      exact Nat.le_trans fits stop
    · cases is
  · cases is

theorem setArp_eq {position k : Nat} (within : position + k ≤ 28) (w : BitVec (8 * k)) :
    setArp h position (Bytes.ofWord k w) d
      = some (FieldWrite.setArp h position (Bytes.ofWord k w) d) := by
  unfold setArp FieldWrite.setArp
  cases is : h.arp? with
  | none => rfl
  | some a =>
    have fits := reaches.arp a is
    exact patchWord_eq (by omega) nothing_inside w

theorem setNeighborTarget_eq (target : Ipv6Address) :
    setNeighborTarget h target d = some (FieldWrite.setNeighborTarget h target d) := by
  unfold setNeighborTarget FieldWrite.setNeighborTarget
  dsimp only
  cases is : FieldWrite.icmpv6Offset? h _ with
  | none => rfl
  | some o =>
    have fits := icmpv6Offset?_inside reaches is
    dsimp only
    split
    · refine patchWord_eq (by omega) (fun s listed => ?_) _
      obtain rfl := List.mem_singleton.mp listed
      omega
    · next short =>
      rw [FieldWrite.patch, Bytes.slice?, if_neg (by rw [Bytes.length_ofWord]; omega)]

theorem setNeighborLink_eq (type : BitVec 8) (optionType : UInt8) (address : MacAddress) :
    setNeighborLink h type optionType address d
      = some (FieldWrite.setNeighborLink h type optionType address d) := by
  unfold setNeighborLink FieldWrite.setNeighborLink
  cases is : FieldWrite.icmpv6Offset? h _ with
  | none => rfl
  | some o =>
    have fits := icmpv6Offset?_inside reaches is
    dsimp only
    by_cases option : d[o + 24]? = some optionType ∧ d[o + 25]? = some 1
    · by_cases long : o + 32 ≤ d.length
      · rw [if_pos ⟨long, option⟩, if_pos option]
        refine patchWord_eq (by omega) (fun s listed => ?_) _
        obtain rfl := List.mem_singleton.mp listed
        omega
      · rw [if_neg fun found => long found.1, if_pos option, FieldWrite.patch, Bytes.slice?,
          if_neg (by rw [Bytes.length_ofWord]; omega)]
    · rw [if_neg fun found => option found.2, if_neg option]

theorem setMpls_eq (mask value : BitVec 32) :
    setMpls h mask value d = some (FieldWrite.setMpls h mask value d) := by
  unfold setMpls FieldWrite.setMpls
  cases is : h.mpls with
  | none => rfl
  | some e =>
    have fits := (reaches.mpls e is).2
    exact patchMasked_eq (by omega) _ _

theorem setMplsTtl_eq (ttl : BitVec 8) :
    setMplsTtl h ttl d = some (FieldWrite.setMplsTtl h ttl d) :=
  setMpls_eq reaches length _ _

theorem setPbb_eq (isid : BitVec 32) : setPbb h isid d = some (FieldWrite.setPbb h isid d) := by
  unfold setPbb FieldWrite.setPbb
  cases is : h.pbb with
  | none => rfl
  | some tag =>
    have fits := reaches.pbb tag is
    exact patchMasked_eq (by omega) _ _

theorem setEthType_eq (type : BitVec 16) :
    setEthType h type d = some (FieldWrite.setEthType h type d) := by
  unfold setEthType FieldWrite.setEthType
  cases is : h.payload with
  | none => rfl
  | some p =>
    have fits := reaches.payload p is
    dsimp only
    split
    · rw [before_of_le (by omega)]
      exact patchWord_eq (by omega) nothing_inside _
    · rfl

/-- No field is written to a place that the frame does not have. -/
theorem setField_eq (f : Field) (v : BitVec f.width) :
    setField h d f v = some (FieldWrite.setField h d f v) := by
  have ethernet (o : Nat) (within : o + 6 ≤ 14) (w : MacAddress) :
      patch o (Bytes.ofWord 6 w) [] d = some (FieldWrite.patch o (Bytes.ofWord 6 w) [] d) := by
    have long := reaches.ethernet
    exact patchWord_eq (k := 6) (by omega) nothing_inside w
  cases f with
  | ethDst => exact ethernet 0 (by decide) v
  | ethSrc => exact ethernet 6 (by decide) v
  | ethType => exact setEthType_eq reaches length v
  | vlanVid | vlanPcp => exact setVlan_eq reaches length _ _
  | ipDscp | ipEcn => exact setTrafficClass_eq reaches length _ _
  | ipProto => exact setProtocol_eq reaches length v
  | ipv4Src | ipv4Dst => exact setIpv4Address_eq reaches length (by decide) v
  | ipv6Src | ipv6Dst => exact setIpv6Address_eq reaches length (by decide) v
  | ipv6Flabel => exact setFlowLabel_eq reaches length v
  | tcpSrc | tcpDst => exact setTcpPort_eq reaches length (by decide) v
  | udpSrc | udpDst => exact setUdpPort_eq reaches length (by decide) v
  | sctpSrc | sctpDst => exact setSctpPort_eq reaches length (by decide) v
  | icmpv4Type => exact (setIcmp_eq length (fun _ => icmpv4Offset?_inside reaches) v).1
  | icmpv4Code => exact (setIcmp_eq length (fun _ => icmpv4Offset?_inside reaches) v).2
  | icmpv6Type => exact (setIcmp_eq length (fun _ => icmpv6Offset?_inside reaches) v).1
  | icmpv6Code => exact (setIcmp_eq length (fun _ => icmpv6Offset?_inside reaches) v).2
  | arpOp | arpSha | arpSpa | arpTha | arpTpa =>
    exact setArp_eq reaches length (by decide) v
  | ipv6NdTarget => exact setNeighborTarget_eq reaches length v
  | ipv6NdSll | ipv6NdTll => exact setNeighborLink_eq reaches length _ _ v
  | mplsLabel | mplsTc | mplsBos => exact setMpls_eq reaches length _ _
  | pbbIsid => exact setPbb_eq reaches length v
  | inPort | inPhyPort | metadata | tunnelId | ipv6Exthdr => rfl

end

theorem setFields_eq {h : Headers} {d : Bytes} (laid : h.Laid d) (m : Match) :
    setFields h m d = some (FieldWrite.setFields h m d) := by
  have reaches := laid.reaches
  refine foldlM_eq_foldl (h.Steady d) (fun f _ d' steady => ?_) (Headers.steady_refl h d)
  split
  · exact ⟨setField_eq reaches steady.length f _, steady.setField laid f _⟩
  · exact ⟨rfl, steady⟩

end Strict

end FlowSwitch
