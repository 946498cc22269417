import FlowSwitch.Meter.Police
import FlowSwitch.Proofs.Packet.Bits
import FlowSwitch.Proofs.Packet.Checksums
import FlowSwitch.Proofs.Packet.Shape

/-!
# Code points

The code point of an IP header is six bits of the word that the header begins with. Setting it
succeeds and is seen when the frame is read again; the layers stay where they were, and an IPv4
header sums up as before.
-/

namespace FlowSwitch

namespace IpHeader

/-- The code point in the first word of the header. -/
def codePoint (ip : IpHeader) (w : BitVec 16) : BitVec 8 :=
  if ip.isV4 then (w.extractLsb' 2 6).setWidth 8 else (w.extractLsb' 6 6).setWidth 8

end IpHeader

namespace Parse

variable {d : Bytes} {o : Nat} {ip : IpHeader} {next : Option Nat}

theorem ipv4?_dscp (read : ipv4? d o = some (ip, next)) :
    ip.dscp = ip.codePoint (d.word 2 ip.offset) := by
  obtain ⟨rfl, within, isV4, -⟩ := ipv4?_within read
  have inside := within.inside
  rw [IpHeader.least_v4 isV4] at inside
  have low := Bytes.byte_succ_eq_extract (show ip.offset + 2 ≤ d.length by omega)
  obtain ⟨told, -⟩ := ipv4?_told read
  rw [told, low, IpHeader.codePoint, if_pos isV4]
  apply BitVec.eq_of_getLsbD_eq
  intro i below
  simp only [BitVec.getLsbD_ushiftRight, BitVec.getLsbD_extractLsb', BitVec.getLsbD_setWidth, below]
  grind

theorem ipv6?_dscp (read : ipv6? d o = some (ip, next)) :
    ip.dscp = ip.codePoint (d.word 2 ip.offset) := by
  obtain ⟨rfl, within, isV4, -⟩ := ipv6?_within read
  have inside := within.inside
  rw [IpHeader.least_v6 isV4] at inside
  obtain ⟨control, there⟩ : ∃ w, d.word? 4 ip.offset = some w := by
    simp [Bytes.word?, Bytes.slice?, show ip.offset + 4 ≤ d.length by omega]
  obtain ⟨told, -⟩ := ipv6?_told read
  rw [told, Bytes.word_of_word? there, Bytes.word_of_word? (FieldWrite.word?_four there).1,
    IpHeader.codePoint, if_neg (by simp [isV4]), FieldWrite.upper]
  apply BitVec.eq_of_getLsbD_eq
  intro i below
  simp only [BitVec.getLsbD_ushiftRight, BitVec.getLsbD_extractLsb', BitVec.getLsbD_setWidth, below]
  grind

theorem ipUpper_dscp {read : Option (WithPayload IpHeader)}
    (version : read = ipv4? d o ∨ read = ipv6? d o)
    (is : (ipUpper d read).network = some (.ip ip)) :
    ip.dscp = ip.codePoint (d.word 2 ip.offset) := by
  obtain ⟨ip', next, found, same⟩ := ipUpper_network is
  obtain rfl := Network.ip.inj same
  rcases version with is | is
  · exact ipv4?_dscp (is.symm.trans found)
  · exact ipv6?_dscp (is.symm.trans found)

theorem mplsUpper_dscp (is : (mplsUpper d o).network = some (.ip ip)) :
    ip.dscp = ip.codePoint (d.word 2 ip.offset) := by
  cases there : d.word? 4 o with
  | none => simp [mplsUpper, there] at is
  | some word =>
    rw [mplsUpper_eq there] at is
    cases ended : stackEnd d o with
    | none =>
      rw [ended] at is
      cases is
    | some behind =>
      rw [ended] at is
      simp only [Option.elim_some, labelled] at is
      split at is
      · exact ipUpper_dscp (.inl rfl) is
      · split at is
        · exact ipUpper_dscp (.inr rfl) is
        · cases is

theorem upper_dscp {t : BitVec 16} (is : (upper d t o).network = some (.ip ip)) :
    ip.dscp = ip.codePoint (d.word 2 ip.offset) := by
  revert is
  refine upper_cases t o (fun _ is => ?arp) (fun _ is => ipUpper_dscp (.inl rfl) is)
    (fun _ is => ipUpper_dscp (.inr rfl) is) (fun _ is => mplsUpper_dscp is) (fun _ is => ?pbb)
    (fun is => ?none)
  case arp =>
    obtain ⟨a, -, other⟩ := Option.map_eq_some_iff.mp is
    cases other
  case pbb | none => cases is

end Parse

namespace Headers

variable {d : Bytes} {h : Headers} {ip : IpHeader}

theorem dscp_of_parse (read : parse d = .ok h) (is : h.ip? = some ip) :
    ip.dscp = ip.codePoint (d.word 2 ip.offset) := by
  obtain ⟨-, rfl⟩ := eq_assemble read
  have found : (assemble d (Parse.etherEnd d)).upper.network = some (.ip ip) := ip?_eq_some.mp is
  rw [upper_assemble] at found
  cases start : (assemble d (Parse.etherEnd d)).payload with
  | none =>
    rw [start] at found
    cases found
  | some p =>
    rw [start] at found
    exact Parse.upper_dscp found

/-- A field of a word that lies under the mask is written whole. -/
theorem extractLsb'_becomes {e : Edit} {start n : Nat} (inside : start + n < 16)
    (under : e.mask.extractLsb' start n = BitVec.allOnes n) (w : BitVec 16) :
    (e.becomes w).extractLsb' start n = e.value.extractLsb' start n := by
  rw [Edit.becomes, BitVec.extractLsb'_or, BitVec.extractLsb'_and, BitVec.extractLsb'_and,
    BitVec.extractLsb'_not_of_lt inside, under, BitVec.not_allOnes, BitVec.and_zero,
    BitVec.zero_or, BitVec.and_allOnes]

/-- The code point of IPv4 in the second byte of a word. -/
theorem codePoint_word (v : BitVec 8) : ((v <<< 2).setWidth 16).extractLsb' 2 6 = v.setWidth 6 :=
  calc ((v <<< 2).setWidth 16).extractLsb' 2 6
      = (v <<< 2).extractLsb' 2 6 := BitVec.extractLsb'_setWidth_of_le (by decide)
    _ = v.setWidth 6 := Bytes.extractLsb'_shiftLeft_self v (by decide)

/-- The code point of IPv6 across the first two bytes of a word. -/
theorem codePoint_upper (v : BitVec 8) :
    (FieldWrite.upper ((v <<< 2).setWidth 32 <<< 20)).extractLsb' 6 6 = v.setWidth 6 :=
  calc (FieldWrite.upper ((v <<< 2).setWidth 32 <<< 20)).extractLsb' 6 6
      = ((v <<< 2).setWidth 32 <<< 20).extractLsb' (20 + 2) 6 :=
        Bytes.extractLsb'_extractLsb' (s := 16) (j := 6) _ (by decide)
    _ = ((v <<< 2).setWidth 32).extractLsb' 2 6 := Bytes.extractLsb'_shiftLeft _ (by decide)
    _ = (v <<< 2).extractLsb' 2 6 := BitVec.extractLsb'_setWidth_of_le (by decide)
    _ = v.setWidth 6 := Bytes.extractLsb'_shiftLeft_self v (by decide)

theorem codePoint_bits (v : BitVec 8) : (v.setWidth 6).setWidth 8 = v &&& 0x3f := by
  have low : v.extractLsb' 0 6 = v.setWidth 6 := (BitVec.setWidth_eq_extractLsb' (by decide)).symm
  rw [Bytes.and_of_ones (n := 6) v (by decide), low]

/-- The code point that was set is the one that is there, without the two bits it has not. -/
theorem codePoint_setDscp (laid : h.Laid d) (is : h.ip? = some ip) (dscp : BitVec 8) :
    ip.codePoint ((FieldWrite.setDscp h dscp d).word 2 ip.offset) = dscp &&& 0x3f := by
  have within := (laid.upper.ip ip (ip?_eq_some.mp is)).2
  have inside := within.inside
  have least := ip.least_ge
  obtain ⟨w, there⟩ := Option.isSome_iff_exists.mp
    (Bytes.word?_isSome.mpr (show ip.offset + 2 ≤ d.length by omega))
  unfold FieldWrite.setDscp FieldWrite.setTrafficClass
  rw [is]
  dsimp only
  cases isV4 : ip.isV4 with
  | true =>
    have sums : FieldWrite.headerSum ip = [ip.offset + 10] := by
      rw [FieldWrite.headerSum, if_pos isV4]
    have apart : ∀ p ∈ [ip.offset + 10], Bytes.Apart p ip.offset := fun p only => by
      obtain rfl := List.mem_singleton.mp only
      exact .inr (by omega)
    have under : ((0xfc : BitVec 8).setWidth 16).extractLsb' 2 6 = BitVec.allOnes 6 := by decide
    rw [if_pos rfl, sums, FieldWrite.patchTos_eq _ _ apart, Bytes.word,
      Edit.word?_apply_self apart, there, Option.map_some, Option.getD_some, IpHeader.codePoint,
      if_pos isV4, extractLsb'_becomes (by decide) under, codePoint_word, codePoint_bits]
  | false =>
    have under : (FieldWrite.upper ((0xfc : BitVec 8).setWidth 32 <<< 20)).extractLsb' 6 6 =
        BitVec.allOnes 6 := by decide
    rw [if_neg (by simp), FieldWrite.patchMasked_eq _ _ (by omega), List.foldl_cons,
      List.foldl_cons, List.foldl_nil, Bytes.word,
      Edit.word?_apply_of_spares ⟨.inr (Nat.le_refl _), List.forall_mem_nil _⟩,
      Edit.word?_apply_self (List.forall_mem_nil _), there, Option.map_some, Option.getD_some,
      IpHeader.codePoint, if_neg (by simp [isV4]), extractLsb'_becomes (by decide) under,
      codePoint_upper, codePoint_bits]

end Headers

/-- The frame `g` is the frame `f` with the code point `dscp` in its IP header. -/
structure Frame.Recoded (f g : Frame) (dscp : BitVec 8) : Prop where
  consistent : g.Consistent
  context : g.context? = f.context?
  length : g.length = f.length
  layers : g.headers?.map (·.blank) = f.headers?.map (·.blank)
  dscp : g.dscp = dscp
  header : ∀ ip, f.headers?.bind (·.ip?) = some ip → ip.isV4 = true →
    Headers.HeaderKept ip f.data g.data

namespace Frame

variable {f : Frame} {h : Headers} {ip : IpHeader}

theorem dscp_of_ip (held : f.headers? = some h) (is : h.ip? = some ip) : f.dscp = ip.dscp := by
  rw [dscp, held, Option.bind_some, is]

theorem setDscp_recoded (held : f.headers? = some h) (read : Headers.parse f.data = .ok h)
    (is : h.ip? = some ip) (dscp : BitVec 8) :
    ∃ g, f.setDscp dscp = (.ok (), g) ∧ f.Recoded g (dscp &&& 0x3f) := by
  have laid := Headers.laid_of_parse read
  have kept : h.Kept f.data (FieldWrite.setDscp h dscp f.data) :=
    Headers.kept_setField laid (f := .ipDscp) rfl dscp
  obtain ⟨g, set, data, consistent, context⟩ := alter_data held read
    (fun h d => FieldWrite.setDscp h dscp d) kept.length
  obtain ⟨h', again, same⟩ := Headers.parse_kept read kept
  have held' : g.headers? = some h' := by
    obtain ⟨h₁, there, read'⟩ := consistent
    rw [data] at read'
    rw [there, Except.ok.inj (read'.symm.trans again)]
  -- The header is found again where it was, and with the same version.
  obtain ⟨ip', is', blank⟩ : ∃ ip', h'.ip? = some ip' ∧ ip'.blank = ip.blank := by
    have mapped : h'.ip?.map IpHeader.blank = some ip.blank := by
      rw [← Headers.blank_ip?, same, Headers.blank_ip?, is, Option.map_some]
    exact Option.map_eq_some_iff.mp mapped
  refine ⟨g, set, consistent, context, ?_, ?_, ?_, fun ip₁ is₁ isV4 => ?_⟩
  · rw [length, length, data, kept.length]
  · rw [held, held', Option.map_some, Option.map_some, same]
  · have offset : ip'.offset = ip.offset := congrArg (·.offset) blank
    have version : ip'.isV4 = ip.isV4 := by rw [← ip'.blank_isV4, blank, ip.blank_isV4]
    rw [dscp_of_ip held' is', Headers.dscp_of_parse again is', offset, IpHeader.codePoint, version]
    exact Headers.codePoint_setDscp laid is dscp
  · rw [held, Option.bind_some, is] at is₁
    obtain rfl := Option.some.inj is₁
    rw [data, FieldWrite.setDscp,
      Headers.setTrafficClass_eq laid (Headers.steady_refl h f.data) 0xfc (dscp <<< 2)]
    exact Headers.headerKept_script laid (Headers.ip?_eq_some.mp is) isV4 (by decide) true _

/-- A code point has six bits. -/
theorem dscp_and (consistent : f.Consistent) : f.dscp &&& 0x3f = f.dscp := by
  obtain ⟨h, held, read⟩ := consistent
  have six (v : BitVec 6) : v.setWidth 8 &&& 0x3f = v.setWidth 8 := by
    revert v
    decide
  cases is : h.ip? with
  | none =>
    rw [dscp, held, Option.bind_some, is]
    rfl
  | some ip =>
    rw [dscp_of_ip held is, Headers.dscp_of_parse read is, IpHeader.codePoint]
    split
    · exact six _
    · exact six _

end Frame

/-- The code point `new` has the class of `old` and is not lower. -/
def Raised (old new : BitVec 8) : Prop := new >>> 3 = old >>> 3 ∧ old ≤ new

instance (old new : BitVec 8) : Decidable (Raised old new) := inferInstanceAs (Decidable (_ ∧ _))

theorem raised_precedence (dscp : BitVec 8) (by_ : UInt8) :
    Raised dscp (raisePrecedence dscp by_) := by
  have lifted : ∀ d : BitVec 8, ∀ k : Fin 8, (d &&& 7).toNat ≤ k →
      Raised d ((d >>> 3 <<< 3) ||| BitVec.ofNat 8 k) := by decide +kernel
  unfold raisePrecedence
  dsimp only
  split
  · have low : (dscp &&& 7).toNat ≤ 7 := by
      rw [BitVec.toNat_and]
      exact Nat.and_le_right
    exact lifted dscp ⟨_, Nat.lt_succ_of_le (Nat.min_le_right ..)⟩
      (Nat.le_min.mpr ⟨Nat.le_add_right .., low⟩)
  · exact ⟨rfl, BitVec.le_refl _⟩

/-- A raised code point still has six bits. -/
theorem raised_and {old new : BitVec 8} (raised : Raised old new) (six : old &&& 0x3f = old) :
    new &&& 0x3f = new := by
  have kept : ∀ v : BitVec 8, v >>> 3 ≤ 7 → v &&& 0x3f = v := by decide
  have small : ∀ v : BitVec 8, v &&& 0x3f = v → v >>> 3 ≤ 7 := by decide
  exact kept new (raised.1 ▸ small old six)

/-- The code point of an IP frame can be raised. -/
theorem Frame.exists_raised {f : Frame} (known : f.view = none ∨ f.Consistent)
    (isIp : f.headers?.any (·.ip?.isSome) = true) (by_ : UInt8) :
    ∃ g, f.setDscp (raisePrecedence f.dscp by_) = (.ok (), g) ∧ Raised f.dscp g.dscp ∧
      f.Recoded g g.dscp := by
  rcases known with unknown | ⟨h, held, read⟩
  · rw [headers?, unknown] at isIp
    cases isIp
  · rw [held, Option.any_some] at isIp
    obtain ⟨ip, is⟩ := Option.isSome_iff_exists.mp isIp
    have raised := raised_precedence f.dscp by_
    obtain ⟨g, set, recoded⟩ := setDscp_recoded held read is (raisePrecedence f.dscp by_)
    rw [raised_and raised (dscp_and ⟨h, held, read⟩)] at recoded
    have told := recoded.dscp
    exact ⟨g, set, told ▸ raised, told ▸ recoded⟩

end FlowSwitch
