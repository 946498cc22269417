import FlowSwitch.Proofs.Packet.Residue
import FlowSwitch.Proofs.Packet.Steady

/-!
# Weights that edits keep

Each named word of a frame has a weight. Setting fields keeps the weight of a frame when every
word weighs as much as the checksums that cover it. Two such weights are those of an IPv4
header, and those of a transport message together with the addresses of its pseudo header.
-/

namespace FlowSwitch

namespace Headers

open Bytes (weigh Level)

variable {h : Headers} {d₀ d : Bytes} {live : Bool} {w : Nat → ZMod 65535}

/-- The transport checksum is behind the IP header. -/
theorem rank_of_pseudoSum {t : Spot} (covers : t ∈ h.pseudoSum live) : t.1.rank = 5 := by
  unfold pseudoSum at covers
  split at covers
  · obtain rfl := List.mem_singleton.mp covers
    rfl
  · split at covers
    · obtain rfl := List.mem_singleton.mp covers
      rfl
    · cases covers
  · obtain rfl := List.mem_singleton.mp covers
    rfl
  · cases covers

theorem placed_of_pseudoSum {t : Spot} (covers : t ∈ h.pseudoSum live) :
    ∃ p, h.place? d t = some p := by
  unfold pseudoSum at covers
  split at covers
  · rename_i o src dst p is
    obtain rfl := List.mem_singleton.mp covers
    exact ⟨_, place?_of_transport is 8 (show 8 < Layer.tcp.words by decide)⟩
  · rename_i o src dst p is
    split at covers
    · obtain rfl := List.mem_singleton.mp covers
      exact ⟨_, place?_of_transport is 3 (show 3 < Layer.udp.words by decide)⟩
    · cases covers
  · rename_i o m p is
    obtain rfl := List.mem_singleton.mp covers
    exact ⟨_, place?_of_transport is 1 (show 1 < Layer.icmpv6.words by decide)⟩
  · cases covers

/-- A word that is there has its checksums there. -/
theorem placed_of_covering {s t : Spot} {i : Nat} (there : h.place? d s = some i)
    (covers : t ∈ h.covering live s) : ∃ p, h.place? d t = some p := by
  obtain ⟨small, b, base, -⟩ := place?_eq_some.mp there
  have message {o : Nat} {m : Icmpv6Header} {p : Option Nat}
      (is : h.transport = some ⟨o, .icmpv6 m, p⟩) (covers : t ∈ [(Layer.icmpv6, 1)]) :
      ∃ p, h.place? d t = some p := by
    obtain rfl := List.mem_singleton.mp covers
    exact ⟨_, place?_of_transport is 1 (show 1 < Layer.icmpv6.words by decide)⟩
  obtain ⟨l, k⟩ := s
  cases l with
  | ipv4 =>
    rcases List.mem_cons.mp covers with rfl | covers
    · exact ⟨_, place?_of_base? base (by decide)⟩
    · split at covers
      · exact placed_of_pseudoSum covers
      · cases covers
  | ipv6 =>
    simp only [covering] at covers
    split at covers
    · exact placed_of_pseudoSum covers
    · cases covers
  | tcp => exact placed_of_pseudoSum covers
  | udp => exact placed_of_pseudoSum covers
  | icmpv4 =>
    obtain rfl := List.mem_singleton.mp covers
    exact ⟨_, place?_of_base? base (by decide)⟩
  | icmpv6 =>
    obtain rfl := List.mem_singleton.mp covers
    exact ⟨_, place?_of_base? base (by decide)⟩
  | target =>
    obtain ⟨o, m, p, is, -⟩ := message_of_target base
    exact message is covers
  | sourceLink =>
    obtain ⟨o, m, p, is, -⟩ := message_of_linkOffset? base
    exact message is covers
  | targetLink =>
    obtain ⟨o, m, p, is, -⟩ := message_of_linkOffset? base
    exact message is covers
  | _ => cases covers

/-- What checksums that are there weigh together. -/
theorem sum_placed {W : Spot → ZMod 65535} {spots : List Spot}
    (weighed : ∀ t ∈ spots, ∃ p, h.place? d t = some p ∧ w (p + 1) = W t) :
    ((spots.filterMap (h.place? d)).map fun p => w (p + 1)).sum = (spots.map W).sum := by
  induction spots with
  | nil => rfl
  | cons t spots ih =>
    obtain ⟨⟨p, at_, weight⟩, rest⟩ := List.forall_mem_cons.mp weighed
    rw [List.filterMap_cons_some at_, List.map_cons, List.sum_cons, ih rest, weight, List.map_cons,
      List.sum_cons]

/-- Weights of named words that every edit keeps: they are known for the words of `covered` and
for all checksums, and a word weighs as much as the checksums that cover it. -/
structure Balance (h : Headers) (d : Bytes) (w : Nat → ZMod 65535) (W : Spot → ZMod 65535)
    (covered : Spot → Prop) : Prop where
  weighs : ∀ s i, covered s → h.place? d s = some i → Level w i ∧ w (i + 1) = W s
  checksums : ∀ s ∈ checksums, covered s
  even : ∀ live s i, covered s → h.place? d s = some i → ((h.covering live s).map W).sum = W s

variable {W : Spot → ZMod 65535} {covered : Spot → Prop}

/-- Edits keep weights for which each word that is written weighs as much as what covers it. -/
theorem weigh_script (laid : h.Laid d₀) (steady : h.Steady d₀ d) {spots : List (Spot × BitVec 16)}
    (weighs : ∀ s i, covered s → h.place? d₀ s = some i → Level w i ∧ w (i + 1) = W s)
    (sums : ∀ s ∈ checksums, covered s)
    (even : ∀ s i, covered s → h.place? d₀ s = some i → ((h.covering live s).map W).sum = W s)
    (inside : ∀ s ∈ spots, covered s.1) (ws : List (BitVec 16)) :
    weigh w ((h.script live d₀ spots ws).foldl Edit.apply d) = weigh w d := by
  refine Edit.weigh_foldl fun e made => ?_
  obtain ⟨s, listed, there, -, placed⟩ := mem_script made
  obtain ⟨level, weight⟩ := weighs s.1 e.place (inside s listed) there
  have sum (t : Spot) (covers : t ∈ h.covering live s.1) :
      covered t := sums t (covering_subset h live s.1 covers)
  refine ⟨level, fun p isSum => ?_, fun p isSum => ?_, ?_⟩
  · rw [placed] at isSum
    obtain ⟨t, -, at_⟩ := List.mem_filterMap.mp isSum
    rw [steady.length]
    exact place?_fits laid at_
  · rw [placed] at isSum
    obtain ⟨t, covers, at_⟩ := List.mem_filterMap.mp isSum
    exact (weighs t p (sum t covers) at_).1
  · rw [placed, weight, ← even s.1 e.place (inside s listed) there]
    refine sum_placed fun t covers => ?_
    obtain ⟨p, at_⟩ := placed_of_covering there covers
    exact ⟨p, at_, (weighs t p (sum t covers) at_).2⟩

theorem Balance.script (laid : h.Laid d₀) (balance : h.Balance d₀ w W covered)
    (steady : h.Steady d₀ d) {spots : List (Spot × BitVec 16)} (inside : ∀ s ∈ spots, covered s.1)
    (live : Bool) (ws : List (BitVec 16)) :
    weigh w ((h.script live d₀ spots ws).foldl Edit.apply d) = weigh w d :=
  weigh_script laid steady balance.weighs balance.checksums (balance.even live) inside ws

theorem Balance.setField (laid : h.Laid d₀) (balance : h.Balance d₀ w W covered)
    (steady : h.Steady d₀ d) (sealed : ∀ d, h.Steady d₀ d → weigh w (h.reseal d) = weigh w d)
    {f : Field} (plain : f ≠ .ipProto) (inside : ∀ s ∈ f.spots, covered s.1)
    (v : BitVec f.width) : weigh w (FieldWrite.setField h d f v) = weigh w d := by
  rw [setField_eq laid steady plain, resealIf]
  split
  · exact (sealed _ (steady.script laid _ _ _)).trans (balance.script laid steady inside _ _)
  · exact balance.script laid steady inside _ _

/-- The protocol is also in the pseudo header, so its checksum must not weigh. -/
theorem Balance.setProtocol (laid : h.Laid d₀) (balance : h.Balance d₀ w W covered)
    (steady : h.Steady d₀ d) (inside : covered (.ipv4, 4) ∧ covered (.ipv6, 3))
    (light : ∀ live, ∀ t ∈ h.pseudoSum live, W t = 0) (proto : BitVec 8) :
    weigh w (FieldWrite.setProtocol h proto d) = weigh w d := by
  rcases setProtocol_cases (d := d) laid proto with same | ⟨s, named, word, old, new, changed⟩
  · rw [same]
  · have edited := steady.script laid (h.live d) [s] [word]
    have pseudo (t : Spot) (covers : t ∈ h.pseudoSum (h.live d)) (p : Nat)
        (at_ : h.place? d₀ t = some p) : Level w p ∧ w (p + 1) = W t :=
      balance.weighs t p (balance.checksums t (pseudoSum_subset h _ covers)) at_
    have weightless : (((h.pseudoSum (h.live d)).filterMap (h.place? d₀)).map
        fun p => w (p + 1)).sum = 0 := by
      rw [sum_placed fun t covers => ?_]
      · exact List.sum_eq_zero fun x inside => by
          obtain ⟨t, covers, rfl⟩ := List.mem_map.mp inside
          exact light _ t covers
      · obtain ⟨p, at_⟩ := placed_of_pseudoSum covers
        exact ⟨p, at_, (pseudo t covers p at_).2⟩
    rw [changed, FieldWrite.weigh_adjust, weightless, zero_mul, add_zero]
    · refine balance.script laid steady (fun t only => ?_) _ _
      obtain rfl := List.mem_singleton.mp only
      rcases named with is | is
      · exact is ▸ inside.1
      · exact is ▸ inside.2
    · intro p isSum
      obtain ⟨t, -, at_⟩ := List.mem_filterMap.mp isSum
      rw [edited.length]
      exact place?_fits laid at_
    · intro p isSum
      obtain ⟨t, covers, at_⟩ := List.mem_filterMap.mp isSum
      exact (pseudo t covers p at_).1

theorem Balance.setFields (laid : h.Laid d₀) (balance : h.Balance d₀ w W covered) (m : Match)
    (sealed : ∀ d, h.Steady d₀ d → weigh w (h.reseal d) = weigh w d)
    (inside : ∀ f, (m.get f).valid = true → f ≠ .ipProto → ∀ s ∈ f.spots, covered s.1)
    (proto : (m.get .ipProto).valid = true → (covered (.ipv4, 4) ∧ covered (.ipv6, 3)) ∧
      ∀ live, ∀ t ∈ h.pseudoSum live, W t = 0) :
    weigh w (FieldWrite.setFields h m d₀) = weigh w d₀ := by
  have run (fields : List Field) (d : Bytes) (steady : h.Steady d₀ d) :
      weigh w (fields.foldl (fun d f => if (m.get f).valid then
        FieldWrite.setField h d f (m.get f).value else d) d) = weigh w d := by
    induction fields generalizing d with
    | nil => rfl
    | cons f fields ih =>
      rw [List.foldl_cons]
      split
      · rename_i valid
        rw [ih _ (steady.setField laid f _)]
        by_cases isProto : f = .ipProto
        · subst isProto
          obtain ⟨named, light⟩ := proto valid
          exact balance.setProtocol laid steady named light _
        · exact balance.setField laid steady sealed isProto (inside f valid isProto) _
      · exact ih d steady
  exact run Field.all d₀ (steady_refl h d₀)

/-! ## The IPv4 header -/

/-- The words of an IPv4 header, when `ip` was read from `d`. -/
def headerWeight (ip : IpHeader) (d : Bytes) : Nat → ZMod 65535 :=
  Bytes.span ip.offset (ip.offset + ip.size d)

theorem span_inside {start stop p k : Nat} (here : p = start + 2 * k) (fits : p + 2 ≤ stop) :
    Level (Bytes.span start stop) p ∧ Bytes.span start stop (p + 1) = 1 := by
  have first : Bytes.span start stop p = 256 := by
    rw [Bytes.span, if_pos (by omega), Bytes.alternate, if_pos (by omega)]
  have second : Bytes.span start stop (p + 1) = 1 := by
    rw [Bytes.span, if_pos (by omega), Bytes.alternate, if_neg (by omega)]
  refine ⟨?_, second⟩
  rw [Level, first, second, mul_one]

theorem span_outside {start stop p : Nat} (out : p + 2 ≤ start ∨ stop ≤ p) :
    Level (Bytes.span start stop) p ∧ Bytes.span start stop (p + 1) = 0 := by
  have first : Bytes.span start stop p = 0 := by rw [Bytes.span, if_neg (by omega)]
  have second : Bytes.span start stop (p + 1) = 0 := by rw [Bytes.span, if_neg (by omega)]
  refine ⟨?_, second⟩
  rw [Level, first, second, mul_zero]

theorem weighs_header (laid : h.Laid d) {ip : IpHeader} (is : h.network = some (.ip ip))
    (isV4 : ip.isV4 = true) {s : Spot} {i : Nat} (there : h.place? d s = some i) :
    Level (headerWeight ip d) i ∧ headerWeight ip d (i + 1) = if s.1 = .ipv4 then 1 else 0 := by
  have within := (laid.upper.ip ip is).2
  have least := Nat.le_trans ip.least_ge within.least
  have base : h.base? d .ipv4 = some ip.offset := base?_ipv4 (ip?_eq_some.mpr is) isV4
  obtain ⟨start, stop⟩ := ip_between laid is
  by_cases ipv4 : s.1 = .ipv4
  · obtain ⟨small, b, at_, rfl⟩ := place?_eq_some.mp there
    rw [ipv4, base] at at_
    obtain rfl := Option.some.inj at_
    rw [ipv4] at small
    simp only [Layer.words] at small
    rw [if_pos ipv4]
    exact span_inside rfl (by omega)
  · rw [if_neg ipv4]
    refine span_outside ?_
    rcases Nat.lt_trichotomy s.1.rank 4 with below | same | above
    · exact .inl (start ▸ place?_upto laid there below)
    · obtain ⟨-, b, at_, -⟩ := place?_eq_some.mp there
      exact absurd (layer_unique laid at_ base same) ipv4
    · exact .inr (Nat.le_trans stop (place?_from laid there above))

theorem pseudoSum_light {t : Spot} (covers : t ∈ h.pseudoSum live) :
    (if t.1 = .ipv4 then (1 : ZMod 65535) else 0) = 0 :=
  if_neg fun ipv4 => absurd (rank_of_pseudoSum covers) (by rw [ipv4]; decide)

theorem balance_header (laid : h.Laid d) {ip : IpHeader} (is : h.network = some (.ip ip))
    (isV4 : ip.isV4 = true) :
    h.Balance d (headerWeight ip d) (fun s => if s.1 = .ipv4 then 1 else 0) fun _ => True where
  weighs _ _ _ there := weighs_header laid is isV4 there
  checksums _ _ := trivial
  even live s i _ there := by
    have pseudo : ((h.pseudoSum live).map fun s => if s.1 = .ipv4 then (1 : ZMod 65535) else 0).sum
        = 0 := List.sum_eq_zero fun x listed => by
      obtain ⟨t, covers, rfl⟩ := List.mem_map.mp listed
      exact pseudoSum_light covers
    obtain ⟨l, k⟩ := s
    cases l with
    | ipv4 =>
      rw [covering, List.map_cons, List.sum_cons, if_pos rfl]
      split
      · rw [pseudo, add_zero]
      · rfl
    | ipv6 =>
      rw [covering]
      split
      · exact pseudo
      · rfl
    | tcp => exact pseudo
    | udp => exact pseudo
    | _ => rfl

theorem weigh_header_reseal (laid : h.Laid d₀) {ip : IpHeader} (is : h.network = some (.ip ip))
    (d : Bytes) : weigh (headerWeight ip d₀) (h.reseal d) = weigh (headerWeight ip d₀) d := by
  refine Bytes.weigh_congr (h.length_reseal d) fun i heavy => ?_
  cases transport : h.transport with
  | none => rw [reseal, transport]
  | some t =>
    obtain ⟨ip', network, after, -, -⟩ := laid.upper.transport t transport
    obtain rfl := (ip_unique is network).symm
    have inside : i < ip.offset + ip.size d₀ := by
      refine Nat.lt_of_not_le fun beyond => heavy ?_
      rw [headerWeight, Bytes.span, if_neg (by omega)]
    exact getElem?_reseal transport (.inl (by omega))

/-! ## The transport message -/

/-- The transport checksum covers a pseudo header too. -/
def pseudoFactor : TransportHeader → ZMod 65535
  | .icmpv4 .. => 0
  | _ => 1

/-- Where the addresses of an IP header begin. Both versions end with them. -/
def addressStart (ip : IpHeader) : Nat := if ip.isV4 then 12 else 8

/-- The words of the addresses of an IP header. -/
def addressWeight (ip : IpHeader) : Nat → ZMod 65535 :=
  Bytes.span (ip.offset + addressStart ip) (ip.offset + ip.least)

/-- The words that a transport checksum is about. -/
def messageWeight (ip : IpHeader) (t : Transport) (i : Nat) : ZMod 65535 :=
  Bytes.span t.offset ip.stop i + pseudoFactor t.header * addressWeight ip i

/-- A word of an IP address. -/
def isAddress (s : Spot) : Bool := (s.1 = .ipv4 && 6 ≤ s.2) || (s.1 = .ipv6 && 4 ≤ s.2)

/-- What a named word weighs in the transport checksum. -/
def shareOf (t : Transport) (s : Spot) : ZMod 65535 :=
  (if 5 ≤ s.1.rank then 1 else 0) + pseudoFactor t.header * (if isAddress s then 1 else 0)

theorem level_add {w w' : Nat → ZMod 65535} {p : Nat} (one : Level w p) (two : Level w' p) :
    Level (fun i => w i + w' i) p := by
  rw [Level] at *
  rw [one, two]
  ring

theorem level_mul {w : Nat → ZMod 65535} {p : Nat} (c : ZMod 65535) (one : Level w p) :
    Level (fun i => c * w i) p := by
  rw [Level] at *
  rw [one]
  ring

theorem rank_of_isAddress {s : Spot} (address : isAddress s = true) : s.1.rank = 4 := by
  obtain ⟨l, k⟩ := s
  cases l with
  | ipv4 | ipv6 => rfl
  | _ => cases address

/-- An address word of the IP header weighs, any other word of it does not. -/
theorem weighs_address {ip : IpHeader} (network : h.network = some (.ip ip))
    {s : Spot} {i : Nat} (rank : s.1.rank = 4) (there : h.place? d s = some i) :
    Level (addressWeight ip) i ∧ addressWeight ip (i + 1) = if isAddress s then 1 else 0 := by
  obtain ⟨small, b, base, rfl⟩ := place?_eq_some.mp there
  obtain ⟨l, k⟩ := s
  have same {ip' : IpHeader} (also : h.network = some (.ip ip')) : ip' = ip :=
    ip_unique network also
  cases l with
  | arp =>
    obtain ⟨a, is, -⟩ := Option.map_eq_some_iff.mp base
    rw [arp?_eq_some.mp is] at network
    cases network
  | ipv4 =>
    obtain ⟨ip', is, isV4, rfl⟩ := ip_of_base? base
    obtain rfl := same is
    simp only [Layer.words] at small
    simp only [addressWeight, addressStart, IpHeader.least, isV4, if_true]
    by_cases high : 6 ≤ k
    · rw [if_pos (by simpa [isAddress] using high)]
      exact span_inside (k := k - 6) (by omega) (by omega)
    · rw [if_neg (by simpa [isAddress] using high)]
      exact span_outside (by omega)
  | ipv6 =>
    obtain ⟨ip', is, isV6, rfl⟩ := ip_of_base? base
    obtain rfl := same is
    have isV4 := IpHeader.isV6_iff.mp isV6
    simp only [Layer.words] at small
    simp only [addressWeight, addressStart, IpHeader.least, isV4, if_false, Bool.false_eq_true]
    by_cases high : 4 ≤ k
    · rw [if_pos (by simpa [isAddress] using high)]
      exact span_inside (k := k - 4) (by omega) (by omega)
    · rw [if_neg (by simpa [isAddress] using high)]
      exact span_outside (by omega)
  | _ => cases rank

/-- A word behind the IP header lies in the message, at an even distance from its start. -/
theorem place?_message (laid : h.Laid d) {ip : IpHeader} {t : Transport}
    (network : h.network = some (.ip ip)) (transport : h.transport = some t) {s : Spot} {i : Nat}
    (rank : 5 ≤ s.1.rank) (covered : s.1.rank ≤ 5 ∨ t.offset + 32 ≤ ip.stop)
    (there : h.place? d s = some i) : (∃ k, i = t.offset + 2 * k) ∧ i + 2 ≤ ip.stop := by
  obtain ⟨small, b, base, rfl⟩ := place?_eq_some.mp there
  obtain ⟨l, k⟩ := s
  have fits : t.offset + t.header.least ≤ ip.stop := by
    obtain ⟨ip', is, -, -, fits⟩ := laid.upper.transport t transport
    have is : h.network = some (.ip ip') := is
    rw [network] at is
    cases is
    exact fits
  have message {o : Nat} {m : Icmpv6Header} {p : Option Nat}
      (also : h.transport = some ⟨o, .icmpv6 m, p⟩) : o = t.offset := by
    rw [transport] at also
    cases also
    rfl
  have small : k < l.words := small
  have rank : 5 ≤ l.rank := rank
  have transported {l : Layer} (small : k < l.words)
      (base : (h.transport.filter fun t => Layer.ofTransport t.header = l).map (·.offset)
        = some b) : (∃ j, b + 2 * k = t.offset + 2 * j) ∧ b + 2 * k + 2 ≤ ip.stop := by
    obtain ⟨t', also, rfl, rfl⟩ := transport_of_base? base
    obtain rfl := Option.some.inj (transport.symm.trans also)
    have words := words_ofTransport t.header
    exact ⟨⟨k, rfl⟩, by omega⟩
  have roomy (rank : 5 < l.rank) : t.offset + 32 ≤ ip.stop :=
    covered.resolve_left (Nat.not_le.mpr rank)
  cases l with
  | tcp => exact transported small base
  | udp => exact transported small base
  | sctp => exact transported small base
  | icmpv4 => exact transported small base
  | icmpv6 => exact transported small base
  | target =>
    obtain ⟨o, m, p, also, rfl, -⟩ := message_of_target base
    obtain rfl := message also
    have room := roomy (by decide)
    simp only [Layer.words] at small
    exact ⟨⟨4 + k, by omega⟩, by omega⟩
  | sourceLink =>
    obtain ⟨o, m, p, also, -, rfl, -⟩ := message_of_linkOffset? base
    obtain rfl := message also
    have room := roomy (by decide)
    simp only [Layer.words] at small
    exact ⟨⟨13 + k, by omega⟩, by omega⟩
  | targetLink =>
    obtain ⟨o, m, p, also, -, rfl, -⟩ := message_of_linkOffset? base
    obtain rfl := message also
    have room := roomy (by decide)
    simp only [Layer.words] at small
    exact ⟨⟨13 + k, by omega⟩, by omega⟩
  | _ => exact absurd rank (by decide)

/-- A checksum that is in use weighs as much as the addresses do. -/
theorem even_pseudoSum {t : Transport} (is : h.transport = some t)
    (used : ∀ a b, t.header = .udp a b → live = true) (unsealed : ∀ a b, t.header ≠ .sctp a b) :
    ((h.pseudoSum live).map (shareOf t)).sum = pseudoFactor t.header := by
  obtain ⟨o, header, p⟩ := t
  cases header with
  | tcp a b => simp [pseudoSum, is, shareOf, Layer.rank, isAddress, pseudoFactor]
  | udp a b => simp [pseudoSum, is, used a b rfl, shareOf, Layer.rank, isAddress, pseudoFactor]
  | sctp a b => exact absurd rfl (unsealed a b)
  | icmpv4 => simp [pseudoSum, is, pseudoFactor]
  | icmpv6 m => simp [pseudoSum, is, shareOf, Layer.rank, isAddress, pseudoFactor]

theorem weighs_message (laid : h.Laid d) {ip : IpHeader} {t : Transport}
    (network : h.network = some (.ip ip)) (transport : h.transport = some t) {s : Spot} {i : Nat}
    (covered : s.1.rank ≤ 5 ∨ t.offset + 32 ≤ ip.stop) (there : h.place? d s = some i) :
    Level (messageWeight ip t) i ∧ messageWeight ip t (i + 1) = shareOf t s := by
  obtain ⟨start, headed⟩ := ip_between laid network
  obtain ⟨top, -⟩ := transport_between transport
  have least := (laid.upper.ip ip network).2.least
  rw [top] at headed
  have join {message address : ZMod 65535}
      (one : Level (Bytes.span t.offset ip.stop) i ∧ Bytes.span t.offset ip.stop (i + 1) = message)
      (two : Level (addressWeight ip) i ∧ addressWeight ip (i + 1) = address)
      (first : message = if 5 ≤ s.1.rank then 1 else 0)
      (second : address = if isAddress s then 1 else 0) :
      Level (messageWeight ip t) i ∧ messageWeight ip t (i + 1) = shareOf t s := by
    refine ⟨level_add one.1 (level_mul _ two.1), ?_⟩
    rw [messageWeight, shareOf, one.2, two.2, first, second]
  have noAddress (rank : s.1.rank ≠ 4) : (0 : ZMod 65535) = if isAddress s then 1 else 0 := by
    rw [if_neg fun address => rank (rank_of_isAddress address)]
  rcases Nat.lt_trichotomy s.1.rank 4 with below | same | above
  · have upto := place?_upto laid there below
    rw [start] at upto
    exact join (span_outside (by omega)) (span_outside (by omega)) (if_neg (by omega)).symm
      (noAddress (by omega))
  · have upto := place?_upto laid there (show s.1.rank < 5 by omega)
    rw [top] at upto
    exact join (span_outside (.inl upto)) (weighs_address network same there)
      (if_neg (by omega)).symm rfl
  · have from_ := place?_from laid there above
    rw [top] at from_
    obtain ⟨⟨k, here⟩, fits⟩ := place?_message laid network transport above covered there
    exact join (span_inside here fits) (span_outside (by omega)) (if_pos above).symm
      (noAddress (by omega))

/-- A word of a message or of an address weighs as much as the checksums that cover it. -/
theorem even_message {t : Transport} (transport : h.transport = some t)
    (used : ∀ a b, t.header = .udp a b → live = true) (unsealed : ∀ a b, t.header ≠ .sctp a b)
    {s : Spot} {i : Nat} (there : h.place? d s = some i) :
    ((h.covering live s).map (shareOf t)).sum = shareOf t s := by
  have pseudo := even_pseudoSum transport used unsealed
  obtain ⟨-, b, base, -⟩ := place?_eq_some.mp there
  have kind {l : Layer} (base : (h.transport.filter fun t => Layer.ofTransport t.header = l).map
      (·.offset) = some b) : Layer.ofTransport t.header = l := by
    obtain ⟨t', also, kind, -⟩ := transport_of_base? base
    obtain rfl := Option.some.inj (transport.symm.trans also)
    exact kind
  have factor (kind : Layer.ofTransport t.header ≠ .icmpv4) : pseudoFactor t.header = 1 := by
    cases header : t.header with
    | icmpv4 type code =>
      rw [header] at kind
      exact absurd rfl kind
    | _ => rfl
  obtain ⟨l, k⟩ := s
  cases l with
  | ipv4 =>
    rw [covering]
    by_cases high : 6 ≤ k
    · rw [if_pos high, List.map_cons, List.sum_cons, pseudo]
      simp [shareOf, Layer.rank, isAddress, high]
    · rw [if_neg high]
      simp [shareOf, Layer.rank, isAddress, high]
  | ipv6 =>
    rw [covering]
    by_cases high : 4 ≤ k
    · rw [if_pos high, pseudo]
      simp [shareOf, Layer.rank, isAddress, high]
    · rw [if_neg high]
      simp [shareOf, Layer.rank, isAddress, high]
  | tcp | udp =>
    rw [covering, pseudo, factor fun same => by cases (kind base).symm.trans same]
    simp [shareOf, Layer.rank, isAddress]
  | sctp =>
    have kind := kind base
    cases header : t.header with
    | sctp a b => exact absurd header (unsealed a b)
    | _ =>
      rw [header] at kind
      cases kind
  | _ => simp [covering, shareOf, Layer.rank, isAddress]

/-- The words of a neighbour message count only if the message has room for them. -/
theorem balance_message (laid : h.Laid d) {ip : IpHeader} {t : Transport}
    (network : h.network = some (.ip ip)) (transport : h.transport = some t)
    (plain : ∀ a b, t.header ≠ .udp a b) (unsealed : ∀ a b, t.header ≠ .sctp a b) :
    h.Balance d (messageWeight ip t) (shareOf t) fun s =>
      (s.1.rank ≤ 5 ∨ t.offset + 32 ≤ ip.stop) ∨ h.base? d s.1 = none where
  weighs s i covered there := by
    rcases covered with room | absent
    · exact weighs_message laid network transport room there
    · obtain ⟨-, b, base, -⟩ := place?_eq_some.mp there
      rw [absent] at base
      cases base
  checksums := by
    intro s sum
    refine .inl (.inl ?_)
    simp only [checksums, List.mem_cons, List.not_mem_nil, or_false] at sum
    rcases sum with rfl | rfl | rfl | rfl | rfl <;> decide
  even live s i _ there :=
    even_message transport (fun a b is => absurd is (plain a b)) unsealed there

end Headers

end FlowSwitch
