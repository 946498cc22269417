import FlowSwitch.Forward.Execute
import FlowSwitch.Proofs.Packet.Access
import FlowSwitch.Proofs.Packet.Reread
import FlowSwitch.Proofs.Packet.Spelling
import FlowSwitch.Proofs.Packet.View

/-!
# What was pushed can be popped

A frame with a new tag is read again with that tag outermost, wherever the tag had to go, so
popping a tag takes away the one that was pushed last and restores the frame and its view.
-/

namespace FlowSwitch

namespace Bytes

variable {a c d s : Bytes} {o n : Nat}

theorem length_insertAt (d : Bytes) (o : Nat) (s : Bytes) :
    (d.insertAt o s).length = d.length + s.length := by
  rw [insertAt, List.length_append, List.length_append, List.length_take, List.length_drop]
  omega

theorem removeAt_append (at_ : a.length = o) (size : s.length = n) :
    (a ++ s ++ c).removeAt o n = a ++ c := by
  have both : (a ++ s).length = o + n := by rw [List.length_append, at_, size]
  rw [removeAt, List.drop_left' both, List.append_assoc, List.take_left' at_]

/-- Bytes in the middle of a frame are replaced by as many. -/
theorem overwrite_middle (at_ : a.length = o) {t : Bytes} (size : t.length = s.length) :
    (a ++ s ++ c).overwrite o t = a ++ t ++ c := by
  have both : (a ++ s).length = o + t.length := by rw [List.length_append, at_, size]
  have fits : o + t.length ≤ (a ++ s ++ c).length := by
    rw [List.length_append, both]
    exact Nat.le_add_right ..
  rw [overwrite, overwrite?, if_pos fits, Option.getD_some, List.drop_left' both,
    List.append_assoc a s c, List.take_left' at_]

/-- The word that comes first from an offset on is read there, and the rest comes after it. -/
theorem word_of_spelled {w : BitVec (8 * n)} (spelled : d.drop o = ofWord n w ++ s) :
    d.word n o = w ∧ d.drop (o + n) = s := by
  have start : ofWord n w ++ s <+: d.drop o := by rw [spelled]
  refine ⟨(word_of_start start).1, ?_⟩
  rw [← List.drop_drop, spelled, List.drop_left' (length_ofWord n w)]

theorem insert_of_room (inside : o ≤ d.length) (room : d.length + s.length ≤ maxFrame) :
    d.insert o s = .ok (d.insertAt o s) := by
  rw [insert, checkInsert, if_neg (Nat.not_lt.mpr inside), if_neg (Nat.not_lt.mpr room)]
  rfl

theorem remove_of_inside (inside : o + n ≤ d.length) : d.remove o n = .ok (d.removeAt o n) := by
  rw [remove, if_neg (by omega), if_neg (by omega)]

end Bytes

namespace Parse

variable {d d' rest : Bytes} {o p : Nat}

theorem word_two_congr {i : Nat} (first : d'[i]? = d[i]?) (second : d'[i + 1]? = d[i + 1]?) :
    d'.word 2 i = d.word 2 i := by
  rw [Bytes.word, Bytes.word, Bytes.word?_two, Bytes.word?_two, first, second]

theorem drop_eq_word (inside : o + 2 ≤ d.length) :
    ∃ hi lo, d.drop o = hi :: lo :: d.drop (o + 2) ∧ d.word 2 o = hi.toBitVec ++ lo.toBitVec := by
  have spelled : d.drop o = d[o] :: d[o + 1] :: d.drop (o + 2) := by
    rw [List.drop_eq_getElem_cons (by omega), List.drop_eq_getElem_cons (by omega)]
  exact ⟨_, _, spelled, Bytes.word_of_word? (Strict.word?_of_spelled spelled)⟩

/-- A header `s` on the way is there in both frames, and an ethertype comes after it, though not
the same one if the walk ends right behind it. -/
theorem onward_of_spelled {s tail : Bytes} {hi lo : UInt8} {framing : Framing}
    {known : Option VlanTag} (spelled : d.drop o = s ++ hi :: lo :: tail)
    (ended : (etherTags (hi.toBitVec ++ lo.toBitVec) (o + s.length + 2) framing known tail).payload
      = some p) (more : p < d'.length) (same : ∀ i, i + 2 < p → d'[i]? = d[i]?) :
    o + s.length + 2 ≤ p ∧ d.drop (o + s.length + 2) = tail ∧
      d.word 2 (o + s.length) = hi.toBitVec ++ lo.toBitVec ∧
      ∃ hi' lo', d'.drop o = s ++ hi' :: lo' :: d'.drop (o + s.length + 2) ∧
        d'.word 2 (o + s.length) = hi'.toBitVec ++ lo'.toBitVec := by
  have last : d.drop (o + s.length) = hi :: lo :: tail := by
    rw [← List.drop_drop, spelled, List.drop_left]
  obtain ⟨next, room⟩ := drop_of_spelled (s := [hi, lo]) last (by simp)
  simp only [List.length_cons, List.length_nil] at next room
  have after := ((etherTags_within _ _ framing known next (by omega) (by omega)).payload p ended).1
  have header := drop_eq_append d' spelled fun i _ below => same i (by omega)
  obtain ⟨hi', lo', begins, word⟩ := drop_eq_word (d := d') (o := o + s.length) (by omega)
  exact ⟨after, next, Bytes.word_of_word? (Strict.word?_of_spelled last), hi', lo',
    by rw [header, begins], word⟩

/-- A walk ends where it did when only what stands before the end is another ethertype. Induction
on the walk: up to its last step it reads what is the same. -/
theorem etherTags_retyped {t e : BitVec 16} {framing : Framing} {known : Option VlanTag}
    (spelled : d.drop o = rest) (behind : 2 ≤ o) (here : d.word 2 (o - 2) = t)
    (ended : (etherTags t o framing known rest).payload = some p) (more : p < d'.length)
    (same : ∀ i, i + 2 < p → d'[i]? = d[i]?) (type : d'.word 2 (p - 2) = e)
    (large : ¬ e ≤ EtherType.maxLength) (untagged : EtherType.isVlan e = false) :
    ∃ framing', etherTags (d'.word 2 (o - 2)) o framing known (d'.drop o) =
      ⟨e, framing', (etherTags t o framing known rest).vlan, some p⟩ := by
  have unchanged {o : Nat} (behind : 2 ≤ o) (before : o + 2 ≤ p) :
      d'.word 2 (o - 2) = d.word 2 (o - 2) :=
    word_two_congr (same _ (by omega)) (same _ (by omega))
  fun_induction etherTags t o framing known rest with
  | case1 t o framing known low dsap ssap c oui0 oui1 oui2 hi lo tail snap ih =>
    obtain ⟨after, next, word, hi', lo', header, word'⟩ :=
      onward_of_spelled (s := [dsap, ssap, c, oui0, oui1, oui2]) spelled ended more same
    simp only [List.length_cons, List.length_nil] at after next
    obtain ⟨framing', found⟩ := ih next (by omega) word ended
    have filled : d'.drop (o + 8) ≠ [] := by
      refine List.length_pos_iff.mp ?_
      rw [List.length_drop]
      omega
    refine ⟨framing', ?_⟩
    obtain ⟨rfl, rfl, rfl, rfl, rfl, -⟩ := snap
    have onward := etherTags_snap low o framing known c hi' lo' filled
    rw [← word'] at onward
    rw [unchanged behind (by omega), here, header]
    exact onward.trans found
  | case4 t o framing known high framing' vlan tciHi tciLo hi lo tail tag ih =>
    obtain ⟨after, next, word, hi', lo', header, word'⟩ :=
      onward_of_spelled (s := [tciHi, tciLo]) spelled ended more same
    simp only [List.length_cons, List.length_nil] at after next
    obtain ⟨framing', found⟩ := ih next (by omega) word ended
    refine ⟨framing', ?_⟩
    rw [unchanged behind (by omega), here, header]
    simp only [List.cons_append, List.nil_append]
    rw [etherTags_tag vlan, ← word']
    exact found
  | case2 | case3 | case6 =>
    obtain rfl := Option.some.inj ended
    exact ⟨_, by rw [type, etherTags_stop large untagged]⟩
  | case5 => cases ended

theorem ipUpper_mpls (d : Bytes) (read : Option (WithPayload IpHeader)) :
    (ipUpper d read).mpls = none := by
  cases read <;> rfl

/-- The top label is the word that the layers above Ethernet begin with. -/
theorem upper_mpls {t : BitVec 16} {top : MplsEntry} (is : (upper d t o).mpls = some top) :
    top.offset = o ∧ d.word? 4 o = some top.word := by
  revert is
  refine upper_cases t o (fun _ is => ?arp) (fun _ is => ?ipv4) (fun _ is => ?ipv6)
    (fun _ is => ?mpls) (fun _ is => ?pbb) (fun is => ?none)
  case arp | pbb | none => cases is
  case ipv4 | ipv6 => simp only [ipUpper_mpls, reduceCtorEq] at is
  case mpls =>
    cases there : d.word? 4 o with
    | none => simp only [mplsUpper, there, reduceCtorEq] at is
    | some word =>
      rw [mplsUpper_eq there] at is
      obtain rfl := Option.some.inj is
      exact ⟨rfl, rfl⟩

end Parse

namespace Headers

open Parse (etherEnd etherTags)

variable {d d' rest : Bytes}

/-- A VLAN tag behind the addresses is the outermost one, whatever follows it. -/
theorem parse_tagged {tpid tci : BitVec 16} (isVlan : EtherType.isVlan tpid = true)
    (long : 2 ≤ rest.length)
    (spelled : d'.drop 12 = Bytes.ofWord 2 tpid ++ (Bytes.ofWord 2 tci ++ rest)) :
    ∃ h, parse d' = .ok h ∧ h.vlan = some ⟨12, tpid, tci⟩ := by
  obtain ⟨type, value⟩ := Bytes.word_of_spelled spelled
  obtain ⟨hi, lo, tail, rfl⟩ : ∃ hi lo tail, rest = hi :: lo :: tail := by
    match rest, long with
    | hi :: lo :: tail, _ => exact ⟨hi, lo, tail, rfl⟩
  have value : d'.drop 14 = Bytes.high tci :: Bytes.low tci :: hi :: lo :: tail := by
    rw [value, Bytes.ofWord_two]
    rfl
  obtain ⟨next, length⟩ := Parse.drop_of_spelled
    (s := [Bytes.high tci, Bytes.low tci, hi, lo]) value (by simp)
  simp only [List.length_cons, List.length_nil] at next length
  refine ⟨_, parse_of_long (by omega), ?_⟩
  show (etherTags (d'.word 2 12) 14 {} none (d'.drop 14)).vlan = some ⟨12, tpid, tci⟩
  rw [type, value, Parse.etherTags_tag isVlan, Bytes.append_high_low]
  exact (Parse.etherTags_within _ 18 _ _ next (by omega) (by decide)).kept _ rfl

/-- An I-TAG behind the addresses is found there. -/
theorem parse_encapsulated (long : 18 ≤ d'.length)
    (spelled : d'.drop 12 = Bytes.ofWord 2 EtherType.pbb ++ rest) :
    ∃ h tag, parse d' = .ok h ∧ h.pbb = some tag ∧ tag.offset = 14 := by
  have type := (Bytes.word_of_spelled spelled).1
  have ended : etherEnd d' = ⟨EtherType.pbb, { ethernet2 := true }, none, some 14⟩ := by
    rw [etherEnd, type, Parse.etherTags_stop (by decide) rfl]
  obtain ⟨word, there⟩ : ∃ w, d'.word? 4 14 = some w := ⟨_, Bytes.word?_eq_word long⟩
  refine ⟨_, ⟨14, word &&& 0x00ffffff⟩, parse_of_long (by omega), ?_, rfl⟩
  have payload : (some 14).filter (· < d'.length) = some 14 := by
    rw [Option.filter_some, if_pos (by simp; omega)]
  have upper : Parse.upper d' EtherType.pbb 14 = { pbb := some ⟨14, word &&& 0x00ffffff⟩ } := by
    unfold Parse.upper
    rw [if_neg (by decide), if_neg (by decide), if_neg (by decide), if_neg (by decide),
      if_pos rfl, there, Option.map_some]
  rw [ended]
  simp only [assemble, payload, Option.map_some, Option.getD_some, upper]

theorem payload_within {h : Headers} (read : parse d = .ok h) {p : Nat} (at_ : h.payload = some p) :
    14 ≤ p ∧ p ≤ d.length := by
  have laid := laid_of_parse read
  have body : h.body = p := by rw [body, at_, Option.getD_some]
  exact body ▸ ⟨laid.behind, laid.inside⟩

/-- A label where the layers above Ethernet began is the top one. -/
theorem parse_labelled {d : Bytes} {h : Headers} (read : parse d = .ok h) {p : Nat}
    (at_ : h.payload = some p) {e : BitVec 16} (isMpls : EtherType.isMpls e = true)
    {entry : BitVec 32} (same : ∀ i, i + 2 < p → d'[i]? = d[i]?)
    (spelled : d'.drop (p - 2) = Bytes.ofWord 2 e ++ (Bytes.ofWord 4 entry ++ rest)) :
    ∃ h', parse d' = .ok h' ∧ h'.mpls = some ⟨p, entry⟩ := by
  obtain ⟨behind, -⟩ := payload_within read at_
  obtain ⟨long, rfl⟩ := eq_assemble read
  obtain ⟨ended, -⟩ := Option.filter_eq_some_iff.mp at_
  obtain ⟨type, next⟩ := Bytes.word_of_spelled spelled
  rw [show p - 2 + 2 = p by omega] at next
  have room : p + 4 ≤ d'.length := by
    have length := congrArg List.length next
    rw [List.length_drop, List.length_append, Bytes.length_ofWord] at length
    omega
  have there : d'.word? 4 p = some entry := by
    rw [Bytes.word?_eq_word room, (Bytes.word_of_spelled next).1]
  have known : e = EtherType.mpls ∨ e = EtherType.mplsMulticast := by
    simpa [EtherType.isMpls] using isMpls
  have large : ¬ e ≤ EtherType.maxLength := by
    rcases known with rfl | rfl <;> decide
  have untagged : EtherType.isVlan e = false := by
    rcases known with rfl | rfl <;> decide
  have upper : Parse.upper d' e p = Parse.mplsUpper d' p := by
    rcases known with rfl | rfl <;> rfl
  obtain ⟨framing', retyped⟩ := Parse.etherTags_retyped (o := 14) rfl (by decide) rfl ended
    (show p < d'.length by omega) same type large untagged
  refine ⟨_, parse_of_long (by omega), ?_⟩
  have ended' : etherEnd d' = _ := retyped
  have payload : (some p).filter (· < d'.length) = some p := by
    rw [Option.filter_some, if_pos (by simp; omega)]
  rw [ended']
  simp only [assemble, payload, Option.map_some, Option.getD_some, upper,
    Parse.mplsUpper_eq there]

theorem mpls_of_parse {h : Headers} (read : parse d = .ok h) {top : MplsEntry}
    (is : h.mpls = some top) :
    h.payload = some top.offset ∧ d.word 4 top.offset = top.word := by
  obtain ⟨-, rfl⟩ := eq_assemble read
  have found : (assemble d (etherEnd d)).upper.mpls = some top := is
  rw [upper_assemble] at found
  cases start : (assemble d (etherEnd d)).payload with
  | none =>
    rw [start] at found
    cases found
  | some p =>
    rw [start] at found
    obtain ⟨rfl, there⟩ := Parse.upper_mpls found
    exact ⟨rfl, Bytes.word_of_word? there⟩

end Headers

/-- The label `new` goes on top of those in `h`: it stands where they begin and repeats the one
that was there. The first label of all is the bottom one and takes over the time to live. -/
structure MplsEntry.Tops (new : MplsEntry) (h : Headers) : Prop where
  offset : h.payload = some new.offset
  bottom : new.bottom = if h.mpls = none then 1 else 0
  label : new.label = (h.mpls.map (·.label)).getD 0
  trafficClass : new.trafficClass = (h.mpls.map (·.trafficClass)).getD 0
  ttl : new.ttl = (h.mpls.map (·.ttl)).getD (Tagging.ipTtl h)

namespace MplsEntry

variable {h : Headers} {d : Bytes}

theorem getLsbD_not_bottom (w : BitVec 32) (i : Nat) :
    (w &&& ~~~0x100).getLsbD i = (w.getLsbD i && decide (i ≠ 8)) := by
  by_cases below : i < 32
  · have mask : ∀ i < 32, (~~~0x100 : BitVec 32).getLsbD i = decide (i ≠ 8) := by decide
    rw [BitVec.getLsbD_and, mask i below]
  · rw [BitVec.getLsbD_of_ge _ _ (by omega), BitVec.getLsbD_of_ge _ _ (by omega),
      Bool.false_and]

/-- A label that repeats the one below it differs from it only in that it is not the bottom. -/
theorem tops_repeated (read : Headers.parse d = .ok h) {top : MplsEntry} (is : h.mpls = some top) :
    (MplsEntry.mk top.offset (top.word &&& ~~~0x100)).Tops h where
  offset := (Headers.mpls_of_parse read is).1
  bottom := by
    rw [is, if_neg (by simp)]
    apply BitVec.eq_of_getLsbD_eq
    intro i _
    simp only [MplsEntry.bottom, BitVec.getLsbD_setWidth, BitVec.getLsbD_and,
      BitVec.getLsbD_ushiftRight]
    cases i <;> simp
  label := by
    rw [is, Option.map_some, Option.getD_some]
    apply BitVec.eq_of_getLsbD_eq
    intro i _
    simp only [MplsEntry.label, BitVec.getLsbD_ushiftRight, getLsbD_not_bottom]
    rw [decide_eq_true (by omega), Bool.and_true]
  trafficClass := by
    rw [is, Option.map_some, Option.getD_some]
    apply BitVec.eq_of_getLsbD_eq
    intro i _
    simp only [MplsEntry.trafficClass, BitVec.getLsbD_setWidth, BitVec.getLsbD_and (y := 7),
      BitVec.getLsbD_ushiftRight, getLsbD_not_bottom]
    rw [decide_eq_true (show 9 + i ≠ 8 by omega), Bool.and_true]
  ttl := by
    rw [is, Option.map_some, Option.getD_some]
    apply BitVec.eq_of_getLsbD_eq
    intro i below
    simp only [MplsEntry.ttl, BitVec.getLsbD_setWidth, getLsbD_not_bottom]
    rw [decide_eq_true (show i ≠ 8 by omega), Bool.and_true]

theorem first_reads : ∀ ttl : BitVec 8,
    (MplsEntry.mk 0 (0x100 ||| ttl.setWidth 32)).bottom = 1 ∧
      (MplsEntry.mk 0 (0x100 ||| ttl.setWidth 32)).label = 0 ∧
      (MplsEntry.mk 0 (0x100 ||| ttl.setWidth 32)).trafficClass = 0 ∧
      (MplsEntry.mk 0 (0x100 ||| ttl.setWidth 32)).ttl = ttl := by
  decide +kernel

theorem tops_first {p : Nat} (at_ : h.payload = some p) (none : h.mpls = none) :
    (MplsEntry.mk p (0x100 ||| (Tagging.ipTtl h).setWidth 32)).Tops h := by
  obtain ⟨bottom, label, trafficClass, ttl⟩ := first_reads (Tagging.ipTtl h)
  refine ⟨at_, bottom.trans (if_pos none).symm, ?_, ?_, ?_⟩
  · rw [none]
    exact label
  · rw [none]
    exact trafficClass
  · rw [none]
    exact ttl

end MplsEntry

theorem Tagging.newLabel_tops {h : Headers} {d : Bytes} (read : Headers.parse d = .ok h) {p : Nat}
    (at_ : h.payload = some p) :
    ∃ entry, newLabel h d = (p, entry) ∧ (MplsEntry.mk p entry).Tops h := by
  cases is : h.mpls with
  | none => exact ⟨_, by rw [newLabel, is, at_]; rfl, MplsEntry.tops_first at_ is⟩
  | some top =>
    obtain ⟨here, word⟩ := Headers.mpls_of_parse read is
    obtain rfl := Option.some.inj (here.symm.trans at_)
    exact ⟨_, by rw [newLabel, is, ← word], MplsEntry.tops_repeated read is⟩

namespace Frame

/-- The action `push` makes the frame `n` bytes longer and leaves a view that `shows` is true of;
after it, `pop` gives back the frame, its view included. -/
def Undoes (f : Frame) (push pop : Action) (n : Nat) (shows : Headers → Prop) : Prop :=
  ∃ g h, push.edit f = (.ok (), g) ∧ g.length = f.length + n ∧ g.headers? = some h ∧
    g.Consistent ∧ g.context? = f.context? ∧ shows h ∧ pop.edit g = (.ok (), f)

section

variable {f : Frame} {h : Headers} (held : f.headers? = some h)
  (read : Headers.parse f.data = .ok h)

include held read

/-- It is enough that the pop, told by the headers of the longer frame, brings back the bytes. -/
theorem undoes_of_data {push pop : Headers → Bytes → Except SpliceError (Option Bytes)} {d : Bytes}
    {n : Nat} {h' : Headers} {shows : Headers → Prop} (pushed : push h f.data = .ok (some d))
    (longer : d.length = f.data.length + n) (again : Headers.parse d = .ok h') (shown : shows h')
    (popped : pop h' d = .ok (some f.data)) :
    ∃ g h', f.edit push = (.ok (), g) ∧ g.length = f.length + n ∧ g.headers? = some h' ∧
      g.Consistent ∧ g.context? = f.context? ∧ shows h' ∧ g.edit pop = (.ok (), f) := by
  obtain ⟨data, view⟩ := f
  obtain ⟨⟨_, c⟩, rfl, rfl⟩ := Option.map_eq_some_iff.mp held
  refine ⟨⟨d, some ⟨h', c⟩⟩, h', ?_, longer, rfl, ⟨h', rfl, again⟩, rfl, shown, ?_⟩
  · simp only [edit, ensureParsed, headers?, Option.map_some, pushed, reparse, again,
      Option.getD_some]
  · simp only [edit, ensureParsed, headers?, Option.map_some, popped, reparse, read,
      Option.getD_some]

theorem popVlan_undoes {tpid : BitVec 16} (isVlan : EtherType.isVlan tpid = true)
    (room : f.length + 4 ≤ Bytes.maxFrame) :
    f.Undoes (.pushVlan tpid) .popVlan 4 fun g =>
      g.vlan = some ⟨12, tpid, (h.vlan.map (·.tci)).getD 0⟩ := by
  have long := (Headers.eq_assemble read).1
  have addresses : (f.data.take 12).length = 12 := by
    rw [List.length_take, Nat.min_eq_left (by omega)]
  generalize copied : (h.vlan.map (·.tci)).getD 0 = tci
  generalize new : Bytes.ofWord 2 tpid ++ Bytes.ofWord 2 tci = tag
  have size : tag.length = 4 := by
    rw [← new, List.length_append, Bytes.length_ofWord, Bytes.length_ofWord]
  have pushed : Tagging.pushVlan tpid h f.data = .ok (some (f.data.insertAt 12 tag)) := by
    rw [Tagging.pushVlan, copied, new, Bytes.insert_of_room (by omega) (by rw [size]; exact room)]
    rfl
  have longer : (f.data.insertAt 12 tag).length = f.data.length + 4 := by
    rw [Bytes.length_insertAt, size]
  have spelled : (f.data.insertAt 12 tag).drop 12 =
      Bytes.ofWord 2 tpid ++ (Bytes.ofWord 2 tci ++ f.data.drop 12) := by
    rw [Bytes.insertAt, List.append_assoc, List.drop_left' addresses, ← new, List.append_assoc]
  obtain ⟨h', again, shown⟩ := Headers.parse_tagged isVlan
    (by rw [List.length_drop]; omega) spelled
  have popped : Tagging.popVlan h' (f.data.insertAt 12 tag) = .ok (some f.data) := by
    rw [Tagging.popVlan, shown]
    dsimp only
    rw [Bytes.remove_of_inside (by omega), Bytes.insertAt, Bytes.removeAt_append addresses size,
      List.take_append_drop]
    rfl
  exact undoes_of_data held read pushed longer again shown popped

theorem popPbb_undoes (room : f.length + 18 ≤ Bytes.maxFrame) :
    f.Undoes (.pushPbb EtherType.pbb) .popPbb 18 fun g =>
      ∃ tag, g.pbb = some tag ∧ tag.offset = 14 := by
  have long := (Headers.eq_assemble read).1
  have addresses : (f.data.take 12).length = 12 := by
    rw [List.length_take, Nat.min_eq_left (by omega)]
  obtain ⟨service, inserted⟩ : ∃ service, Tagging.pushPbb EtherType.pbb h f.data =
      (f.data.insert 12 (Bytes.ofWord 2 EtherType.pbb ++ Bytes.ofWord 4 service ++
        f.data.take 12)).map some := ⟨_, rfl⟩
  generalize new : Bytes.ofWord 2 EtherType.pbb ++ Bytes.ofWord 4 service = tag at inserted
  have size : tag.length = 6 := by
    rw [← new, List.length_append, Bytes.length_ofWord, Bytes.length_ofWord]
  have brought : (tag ++ f.data.take 12).length = 18 := by
    rw [List.length_append, size, addresses]
  -- What comes behind the new tag is the customer frame, whole.
  have whole : f.data.insertAt 12 (tag ++ f.data.take 12) = f.data.take 12 ++ tag ++ f.data := by
    rw [Bytes.insertAt, ← List.append_assoc, List.append_assoc _ _ (f.data.drop 12),
      List.take_append_drop]
  have outer : (f.data.take 12 ++ tag).length = 18 := by
    rw [List.length_append, size, addresses]
  have longer : (f.data.take 12 ++ tag ++ f.data).length = f.data.length + 18 := by
    rw [List.length_append, outer, Nat.add_comm]
  have pushed : Tagging.pushPbb EtherType.pbb h f.data =
      .ok (some (f.data.take 12 ++ tag ++ f.data)) := by
    rw [inserted, Bytes.insert_of_room (by omega) (by rw [brought]; exact room), whole]
    rfl
  have spelled : (f.data.take 12 ++ tag ++ f.data).drop 12 =
      Bytes.ofWord 2 EtherType.pbb ++ (Bytes.ofWord 4 service ++ f.data) := by
    rw [List.append_assoc, List.drop_left' addresses, ← new, List.append_assoc]
  obtain ⟨h', itag, again, is, at_⟩ := Headers.parse_encapsulated (by omega) spelled
  have popped : Tagging.popPbb h' (f.data.take 12 ++ tag ++ f.data) = .ok (some f.data) := by
    rw [Tagging.popPbb, is]
    dsimp only
    rw [at_, Bytes.remove_of_inside (by omega)]
    exact congrArg (Except.ok ∘ some) (List.drop_left' outer)
  exact undoes_of_data held read pushed longer again ⟨itag, is, at_⟩ popped

theorem popMpls_undoes {p : Nat} (at_ : h.payload = some p) {e : BitVec 16}
    (isMpls : EtherType.isMpls e = true) (room : f.length + 4 ≤ Bytes.maxFrame) :
    f.Undoes (.pushMpls e) (.popMpls (f.data.word 2 (p - 2))) 4 fun g =>
      ∃ top, g.mpls = some top ∧ top.Tops h := by
  obtain ⟨behind, inside⟩ := Headers.payload_within read at_
  obtain ⟨entry, new, tops⟩ := Tagging.newLabel_tops read at_
  have size := Bytes.length_ofWord 4 entry
  generalize before : f.data.word 2 (p - 2) = t
  have typed : (Bytes.ofWord 2 e).length = (Bytes.ofWord 2 t).length := by
    rw [Bytes.length_ofWord, Bytes.length_ofWord]
  have front : (f.data.take (p - 2)).length = p - 2 := by
    rw [List.length_take, Nat.min_eq_left (by omega)]
  have head : f.data.take p = f.data.take (p - 2) ++ Bytes.ofWord 2 t := by
    rw [← before, Bytes.ofWord_word (by omega), ← List.take_add, show p - 2 + 2 = p by omega]
  generalize result : f.data.take (p - 2) ++ Bytes.ofWord 2 e ++
    (Bytes.ofWord 4 entry ++ f.data.drop p) = d
  have longer : d.length = f.data.length + 4 := by
    rw [← result, List.length_append, List.length_append, List.length_append, front, size,
      Bytes.length_ofWord, List.length_drop]
    omega
  have pushed : Tagging.pushMpls e h f.data = .ok (some d) := by
    rw [Tagging.pushMpls, new]
    dsimp only
    rw [Bytes.insert_of_room inside (by rw [size]; exact room), Bytes.insertAt, head,
      List.append_assoc _ _ (f.data.drop p), ← result]
    exact congrArg (Except.ok ∘ some) (Bytes.overwrite_middle front typed)
  have same : ∀ i, i + 2 < p → d[i]? = f.data[i]? := fun i below => by
    rw [← result, List.append_assoc, List.getElem?_append_left (by omega),
      List.getElem?_take_of_lt (by omega)]
  have spelled : d.drop (p - 2) =
      Bytes.ofWord 2 e ++ (Bytes.ofWord 4 entry ++ f.data.drop p) := by
    rw [← result, List.append_assoc, List.drop_left' front]
  obtain ⟨h', again, is⟩ := Headers.parse_labelled read at_ isMpls same spelled
  have popped : Tagging.popMpls t h' d = .ok (some f.data) := by
    have retyped : (f.data.take (p - 2) ++ Bytes.ofWord 2 e).length = p := by
      rw [List.length_append, front, Bytes.length_ofWord]
      omega
    rw [Tagging.popMpls, is]
    dsimp only
    rw [Bytes.remove_of_inside (by omega), ← result, ← List.append_assoc,
      Bytes.removeAt_append retyped size]
    refine congrArg (Except.ok ∘ some) ((Bytes.overwrite_middle front typed.symm).trans ?_)
    rw [← head, List.take_append_drop]
  exact undoes_of_data held read pushed longer again ⟨_, is, tops⟩ popped

end

/-- What was pushed last is popped first, and the frame and its view are as they were. A label
goes where the layers above Ethernet began, and its pop is told the ethertype that was there. -/
theorem pop_undoes_push {f : Frame} {h : Headers} (held : f.headers? = some h)
    (read : Headers.parse f.data = .ok h) :
    (∀ tpid, EtherType.isVlan tpid = true → f.length + 4 ≤ Bytes.maxFrame →
      f.Undoes (.pushVlan tpid) .popVlan 4 fun g =>
        g.vlan = some ⟨12, tpid, (h.vlan.map (·.tci)).getD 0⟩) ∧
    (f.length + 18 ≤ Bytes.maxFrame →
      f.Undoes (.pushPbb EtherType.pbb) .popPbb 18 fun g =>
        ∃ tag, g.pbb = some tag ∧ tag.offset = 14) ∧
    (∀ p e, h.payload = some p → EtherType.isMpls e = true → f.length + 4 ≤ Bytes.maxFrame →
      f.Undoes (.pushMpls e) (.popMpls (f.data.word 2 (p - 2))) 4 fun g =>
        ∃ top, g.mpls = some top ∧ top.Tops h) :=
  ⟨fun _ isVlan room => popVlan_undoes held read isVlan room, popPbb_undoes held read,
    fun _ _ at_ isMpls room => popMpls_undoes held read at_ isMpls room⟩

def stackedHeaders : Headers where
  length := 26
  ethDst := 0x020000000002
  ethSrc := 0x020000000001
  ethType := EtherType.mpls
  framing := { ethernet2 := true }
  vlan := some ⟨12, EtherType.vlan, 0x0064⟩
  payload := some 18
  mpls := some ⟨18, 0x00011b40⟩
  pbb := none
  network := none
  transport := none

/-- A frame with a tag, a label and four bytes that are no IP header. -/
def stacked : Frame where
  data := [
    0x02, 0x00, 0x00, 0x00, 0x00, 0x02, 0x02, 0x00, 0x00, 0x00, 0x00, 0x01,
    0x81, 0x00, 0x00, 0x64, 0x88, 0x47, 0x00, 0x01, 0x1b, 0x40, 0x00, 0x00, 0x00, 0x00]
  view := some { headers := stackedHeaders }

theorem pop_undoes_push_stacked :
    stacked.Consistent ∧
      (stacked.Undoes (.pushVlan EtherType.serviceVlan) .popVlan 4 fun g =>
        g.vlan = some ⟨12, EtherType.serviceVlan, 0x0064⟩) ∧
      (stacked.Undoes (.pushPbb EtherType.pbb) .popPbb 18 fun g =>
        ∃ tag, g.pbb = some tag ∧ tag.offset = 14) ∧
      stacked.Undoes (.pushMpls EtherType.mplsMulticast) (.popMpls EtherType.mpls) 4 fun g =>
        ∃ top, g.mpls = some top ∧ top.Tops stackedHeaders := by
  have read : Headers.parse stacked.data = .ok stackedHeaders := by decide +kernel
  have type : stacked.data.word 2 16 = EtherType.mpls := by decide +kernel
  obtain ⟨vlan, pbb, mpls⟩ := pop_undoes_push (f := stacked) rfl read
  refine ⟨⟨_, rfl, read⟩, vlan _ rfl (by decide), pbb (by decide), ?_⟩
  rw [← type]
  exact mpls 18 _ rfl rfl (by decide)

end Frame

end FlowSwitch
