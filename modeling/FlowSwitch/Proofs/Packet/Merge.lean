import FlowSwitch.Proofs.Packet.Checksums
import FlowSwitch.Proofs.Packet.Shape
import FlowSwitch.Proofs.Packet.Tag

/-!
# Merged matches

Setting the fields of two matches at once and setting them in turn come to the same when no field
tells the layers and the matches do not share out a tag. The headers are read again in between,
but what is found does not matter: layers stay where they are, and the fields can be set in any
order. Only the checksum of a UDP datagram can make a difference, if it comes to zero on the way.

A tag is shared out when one match gives it a new id and the other a priority. Then the two ways
differ, since the merged match loses the id.
-/

namespace FlowSwitch

/-- Two passes over a list are one, if the steps of the second can be taken before later steps of
the first. -/
theorem foldl_merge {α β : Type} {first second : β → α → β} (good : β → Prop)
    (keep : ∀ b a, good b → good (first b a)) (keep' : ∀ b a, good b → good (second b a))
    (comm : ∀ a a', a ≠ a' → ∀ b, good b → second (first b a') a = first (second b a) a')
    {l : List α} (distinct : l.Nodup) {b : β} (start : good b) :
    l.foldl (fun b a => second (first b a) a) b = l.foldl second (l.foldl first b) := by
  induction l generalizing b with
  | nil => rfl
  | cons a l ih =>
    obtain ⟨fresh, distinct⟩ := List.nodup_cons.mp distinct
    have now : good (first b a) := keep b a start
    have past := foldl_comm_of (fun b => second b a) good keep
      (fun a' inside b => comm a a' (fun same => fresh (same ▸ inside)) b) (l := l) now
    rw [List.foldl_cons, ih distinct (keep' _ _ now), ← past, List.foldl_cons, List.foldl_cons]

namespace Match

/-- No field is set by both. -/
def Disjoint (a b : Match) : Prop := ∀ f, (a.get f).valid = false ∨ (b.get f).valid = false

instance (a b : Match) : Decidable (a.Disjoint b) :=
  decidable_of_iff (∀ f ∈ Field.all, (a.get f).valid = false ∨ (b.get f).valid = false)
    ⟨fun each f => each f (Field.mem_all f), fun each f _ => each f⟩

variable {a b : Match}

theorem get_merge {f : Field} (valid : (b.get f).valid = true) : (a.merge b).get f = b.get f :=
  if_pos valid

theorem get_merge_of_absent {f : Field} (absent : (b.get f).valid = false) :
    (a.merge b).get f = a.get f := if_neg (by rw [absent]; decide)

theorem Disjoint.absent (disjoint : a.Disjoint b) {f : Field} (valid : (b.get f).valid = true) :
    (a.get f).valid = false := by
  rcases disjoint f with absent | absent
  · exact absent
  · rw [valid] at absent
    cases absent

theorem Disjoint.symm (disjoint : a.Disjoint b) : b.Disjoint a := fun f => (disjoint f).symm

theorem clear_merge (f : Field) : (a.clear f).merge (b.clear f) = (a.merge b).clear f := by
  apply Match.ext
  funext g
  by_cases same : f = g
  · subst same
    rw [get_merge_of_absent (b.valid_get_clear f), get_clear, get_clear, if_pos rfl, if_pos rfl]
  · rw [get_clear_of_ne _ same]
    unfold merge
    dsimp only
    rw [get_clear_of_ne a same, get_clear_of_ne b same]

theorem valid_clear {f g : Field} (absent : (a.get g).valid = false) :
    ((a.clear f).get g).valid = false := by
  by_cases same : f = g
  · exact same ▸ a.valid_get_clear f
  · rwa [get_clear_of_ne a same]

theorem Disjoint.clear (disjoint : a.Disjoint b) (f : Field) :
    (a.clear f).Disjoint (b.clear f) := by
  intro g
  rcases disjoint g with absent | absent
  · exact .inl (valid_clear absent)
  · exact .inr (valid_clear absent)

theorem IsPlain.clear (plain : a.IsPlain) (f : Field) : (a.clear f).IsPlain :=
  fun g structural => valid_clear (plain g structural)

/-- Clearing the id leaves a match without a priority none of a tag. -/
theorem sparesTag_clear (absent : (a.get .vlanPcp).valid = false) :
    (a.clear .vlanVid).SparesTag :=
  sparesTag_iff.mpr ⟨a.valid_get_clear .vlanVid, valid_clear absent⟩

/-- Whether a match gives a tag an id that it does not have. -/
def Renews (m : Match) (tag : VlanTag) : Prop :=
  (m.get .vlanVid).valid = true ∧ m.newId ≠ tag.vid

theorem IsPlain.merge (plain : a.IsPlain) (plain' : b.IsPlain) : (a.merge b).IsPlain := by
  intro f structural
  rw [get_merge_of_absent (plain' f structural)]
  exact plain f structural

end Match

namespace Headers

variable {h h' : Headers} {d₀ d d' : Bytes} {live : Bool} {a b m : Match}

theorem length_putFrom (h : Headers) (live : Bool) (d₀ : Bytes) (m : Match) (d : Bytes)
    (f : Field) : (h.putFrom live d₀ m d f).length = d.length := by
  unfold putFrom put resealIf
  split
  · split
    · rw [length_reseal, edits, Edit.length_foldl]
    · rw [edits, Edit.length_foldl]
  · rfl

theorem putFrom_congr {f : Field} (same : a.get f = b.get f) (d : Bytes) :
    h.putFrom live d₀ a d f = h.putFrom live d₀ b d f := by
  simp only [putFrom, same]

theorem putFrom_of_absent {f : Field} (absent : (m.get f).valid = false) (d : Bytes) :
    h.putFrom live d₀ m d f = d := if_neg (by rw [absent]; decide)

theorem putFrom_merge (disjoint : a.Disjoint b) (d : Bytes) (f : Field) :
    h.putFrom live d₀ (a.merge b) d f = h.putFrom live d₀ b (h.putFrom live d₀ a d f) f := by
  cases valid : (b.get f).valid with
  | true =>
    rw [putFrom_congr (Match.get_merge valid), putFrom_of_absent (disjoint.absent valid)]
  | false => rw [putFrom_congr (Match.get_merge_of_absent valid), putFrom_of_absent valid]

/-- Without a tag nothing is written of one. -/
theorem put_of_untagged (untagged : h.vlan = none) {f : Field} (tag : f.isTag = true)
    (v : BitVec f.width) (d : Bytes) : h.put live d₀ f v d = d := by
  have absent : h.base? d₀ .tci = none := by rw [base?, untagged]; rfl
  have none (ws : List (BitVec 16)) : h.script live d₀ (Field.whole .tci 0 1) ws = [] :=
    script_whole_of_none absent 0 1 ws
  cases f with
  | vlanVid | vlanPcp =>
    rw [put, resealIf, if_neg (by decide), edits]
    exact congrArg (·.foldl Edit.apply d) (none _)
  | _ => cases tag

theorem putFrom_comm (laid : h.Laid d₀)
    (tag : h.vlan = none ∨ a.SparesTag ∨ b.SparesTag) {f g : Field} (ne : f ≠ g)
    (length : d.length = d₀.length) :
    h.putFrom live d₀ b (h.putFrom live d₀ a d g) f =
      h.putFrom live d₀ a (h.putFrom live d₀ b d f) g := by
  unfold putFrom
  split
  · rename_i valid
    split
    · rename_i valid'
      by_cases both : (g.isTag && f.isTag) = true
      · obtain ⟨gTag, fTag⟩ := Bool.and_eq_true_iff.mp both
        rcases tag with untagged | spares | spares
        · simp only [put_of_untagged untagged fTag, put_of_untagged untagged gTag]
        · rw [spares g gTag] at valid'
          cases valid'
        · rw [spares f fTag] at valid
          cases valid
      · exact put_comm laid length (Ne.symm ne) (by simpa using both) _ _
    · rfl
  · rfl

/-- Putting the fields of both matches is putting those of one and then those of the other. -/
theorem putAll_merge (laid : h.Laid d₀) (disjoint : a.Disjoint b)
    (tag : h.vlan = none ∨ a.SparesTag ∨ b.SparesTag) (length : d.length = d₀.length) :
    h.putAll live d₀ (a.merge b) d = h.putAll live d₀ b (h.putAll live d₀ a d) := by
  have both : h.putFrom live d₀ (a.merge b) =
      fun d f => h.putFrom live d₀ b (h.putFrom live d₀ a d f) f := by
    funext d f
    exact putFrom_merge disjoint d f
  rw [putAll, both]
  refine foldl_merge (fun d => d.length = d₀.length) ?_ ?_ ?_ (by decide) length
  · exact fun d f length => (h.length_putFrom live d₀ a d f).trans length
  · exact fun d f length => (h.length_putFrom live d₀ b d f).trans length
  · exact fun f g ne d length => putFrom_comm laid tag ne length

/-! ## Reading the headers in between -/

/-- The fields of a second match are put as if the headers had not been read again. -/
theorem putAll_congr (steady : h.Steady d₀ d) (same : h'.blank = h.blank)
    (tag : m.SparesTag ∨ h'.vlan.map (·.tci) = h.vlan.map (·.tci)) :
    h'.putAll live d m = h.putAll live d₀ m := by
  have each : h'.putFrom live d m = h.putFrom live d₀ m := by
    funext x f
    unfold putFrom
    split
    · rename_i valid
      rw [put_congr same steady fun isTag => ?_]
      rcases tag with spares | value
      · rw [spares f isTag] at valid
        cases valid
      · exact value
    · rfl
  funext x
  rw [putAll, putAll, each]

/-- One match gives the tag that is there a new id, and the other a priority. -/
def SplitsTag (h : Headers) (a b : Match) : Prop :=
  ∃ tag, h.vlan = some tag ∧
    (a.Renews tag ∧ (b.get .vlanPcp).valid = true ∨ b.Renews tag ∧ (a.get .vlanPcp).valid = true)

theorem blank_reread (read : parse d = .ok h) (plain : a.IsPlain)
    (again : parse (FieldWrite.setFields h a d) = .ok h') : h'.blank = h.blank := by
  obtain ⟨h'', found, same⟩ := parse_kept read (kept_setFields (laid_of_parse read) plain)
  rw [again] at found
  exact Except.ok.inj found ▸ same

/-- What a merged match leaves of a tag has the id that was read if there is a priority, and the
one that is left in turn has the id that was set. -/
theorem not_splitsTag (read : parse d = .ok h) (plain : a.IsPlain) (disjoint : a.Disjoint b)
    (again : parse (FieldWrite.setFields h a d) = .ok h')
    (equal : FieldWrite.setFields h (a.merge b) d =
      FieldWrite.setFields h' b (FieldWrite.setFields h a d)) : ¬h.SplitsTag a b := by
  rintro ⟨tag, is, split⟩
  have laid := laid_of_parse read
  have laid' := laid_of_parse again
  obtain ⟨tag', is', offset, between⟩ := tci_reread laid laid' (blank_reread read plain again) is
  have word : h.tciAfter (a.merge b) = h'.tciAfter b := by
    rw [← word_setFields_tag laid is, ← word_setFields_tag laid' is', equal, offset]
  have ids : h.tciAfter (a.merge b) &&& 0x0fff = h'.tciAfter b &&& 0x0fff := by rw [word]
  have first : tag'.vid = _ := (congrArg (· &&& 0x0fff) between).trans (tciAfter_and is a)
  rw [tciAfter_and is, tciAfter_and is', first] at ids
  rcases split with ⟨⟨id, new⟩, priority⟩ | ⟨⟨id, new⟩, priority⟩
  · have absent : (b.get .vlanVid).valid = false := disjoint.symm.absent id
    have absent' : (a.get .vlanPcp).valid = false := disjoint.absent priority
    rw [Match.get_merge priority, if_neg (by simp [priority]), if_neg (by simp [absent]),
      if_pos ⟨id, absent'⟩] at ids
    exact new ids.symm
  · have absent : (b.get .vlanPcp).valid = false := disjoint.symm.absent priority
    rw [Match.get_merge_of_absent absent, if_neg (by simp [priority]), if_pos ⟨id, absent⟩] at ids
    exact new ids.symm

/-- Setting the fields of two matches at once, and in turn, if one spares the tag. -/
theorem bytes_merge_of_spares (read : parse d = .ok h) (plain : a.IsPlain) (plain' : b.IsPlain)
    (disjoint : a.Disjoint b) (tag : h.vlan = none ∨ a.SparesTag ∨ b.SparesTag)
    (again : parse (FieldWrite.setFields h a d) = .ok h') {merged second : Bytes}
    (once : FieldWrite.setFields h (a.merge b) d = merged)
    (twice : FieldWrite.setFields h' b (FieldWrite.setFields h a d) = second) :
    h.silence merged = h.silence second ∧
      (h.live merged = h.live second → merged = second) := by
  have laid := laid_of_parse read
  have laid' := laid_of_parse again
  have start := steady_refl h d
  have start' := steady_refl h' (FieldWrite.setFields h a d)
  have same := blank_reread read plain again
  have put (live : Bool) : h'.putAll live (FieldWrite.setFields h a d) b = h.putAll live d b := by
    refine putAll_congr (start.setFields laid a) same ?_
    rcases tag with untagged | spares | spares
    · exact .inr (tci_kept laid laid' same (.inl untagged))
    · exact .inr (tci_kept laid laid' same (.inr spares))
    · exact .inl spares
  have whole := setFields_eq laid start ((plain.merge plain') .ipProto rfl)
  have part := setFields_eq laid start (plain .ipProto rfl)
  have rest := setFields_eq laid' start' (plain' .ipProto rfl)
  rw [live_congr same, silence_congr same, put, put, twice] at rest
  rw [once] at whole
  have silent : h.silence merged = h.silence second := by
    rw [whole.2, rest.2, part.2, putAll_merge laid disjoint tag (h.length_silence d)]
  refine ⟨silent, fun agree => ?_⟩
  cases alive : h.live merged with
  | false =>
    rw [alive] at agree
    rwa [silence_of_dead alive, silence_of_dead agree.symm] at silent
  | true =>
    rw [alive] at agree
    obtain ⟨between, last⟩ := rest.1 agree.symm
    rw [(whole.1 alive).2, last, (part.1 between).2, putAll_merge laid disjoint tag rfl]

/-- Without a checksum a datagram has none in either way. -/
theorem live_merge (read : parse d = .ok h) (plain : a.IsPlain) (plain' : b.IsPlain)
    (again : parse (FieldWrite.setFields h a d) = .ok h') (dead : h.live d = false) :
    h.live (FieldWrite.setFields h (a.merge b) d) =
      h.live (FieldWrite.setFields h' b (FieldWrite.setFields h a d)) := by
  have laid := laid_of_parse read
  have same := blank_reread read plain again
  have start := steady_refl h d
  have still := live_setFields laid start (plain .ipProto rfl) dead
  rw [← live_congr same] at still
  have ends := live_setFields (laid_of_parse again) (steady_refl h' _) (plain' .ipProto rfl) still
  rw [live_congr same] at ends
  rw [live_setFields laid start ((plain.merge plain') .ipProto rfl) dead, ends]

/-- Setting the fields of two matches at once, and in turn. Of an id that the tag has already
nothing is written, so that it can be left out. -/
theorem bytes_merge (read : parse d = .ok h) (plain : a.IsPlain) (plain' : b.IsPlain)
    (disjoint : a.Disjoint b) (whole : ¬h.SplitsTag a b)
    (again : parse (FieldWrite.setFields h a d) = .ok h') {merged second : Bytes}
    (once : FieldWrite.setFields h (a.merge b) d = merged)
    (twice : FieldWrite.setFields h' b (FieldWrite.setFields h a d) = second) :
    h.silence merged = h.silence second ∧
      (h.live merged = h.live second → merged = second) := by
  cases is : h.vlan with
  | none => exact bytes_merge_of_spares read plain plain' disjoint (.inl is) again once twice
  | some tag =>
    by_cases spares : a.SparesTag ∨ b.SparesTag
    · exact bytes_merge_of_spares read plain plain' disjoint (.inr spares) again once twice
    · have laid := laid_of_parse read
      have laid' := laid_of_parse again
      have idle : (a.get .vlanVid).valid = true → a.newId = tag.vid := by
        intro id
        by_contra new
        refine whole ⟨tag, is, .inl ⟨⟨id, new⟩, Bool.of_not_eq_false fun absent => spares ?_⟩⟩
        exact .inr (Match.sparesTag_iff.mpr ⟨disjoint.symm.absent id, absent⟩)
      have idle' : (b.get .vlanVid).valid = true → b.newId = tag.vid := by
        intro id
        by_contra new
        refine whole ⟨tag, is, .inr ⟨⟨id, new⟩, Bool.of_not_eq_false fun absent => spares ?_⟩⟩
        exact .inl (Match.sparesTag_iff.mpr ⟨disjoint.absent id, absent⟩)
      obtain ⟨tag', is', -, between⟩ := tci_reread laid laid' (blank_reread read plain again) is
      have kept : tag'.vid = tag.vid := by
        refine (congrArg (· &&& 0x0fff) between).trans ((tciAfter_and is a).trans ?_)
        split
        · rename_i set
          exact idle set.1
        · rfl
      have first := setFields_clear_id laid is idle
      have rest := setFields_clear_id laid' is' fun id => (idle' id).trans kept.symm
      have both : FieldWrite.setFields h ((a.clear .vlanVid).merge (b.clear .vlanVid)) d =
          FieldWrite.setFields h (a.merge b) d := by
        rw [Match.clear_merge]
        refine setFields_clear_id laid is ?_
        cases id : (b.get .vlanVid).valid with
        | true =>
          rw [Match.newId, Match.get_merge id]
          exact fun _ => idle' id
        | false =>
          rw [Match.newId, Match.get_merge_of_absent id]
          exact idle
      have spared : (a.clear .vlanVid).SparesTag ∨ (b.clear .vlanVid).SparesTag :=
        (disjoint .vlanPcp).imp Match.sparesTag_clear Match.sparesTag_clear
      exact bytes_merge_of_spares read (plain.clear _) (plain'.clear _) (disjoint.clear _)
        (.inr spared) (first.symm ▸ again) (both.trans once) (by rw [first, rest, twice])

end Headers

namespace Frame

theorem Consistent.eq {f g : Frame} (consistent : f.Consistent) (consistent' : g.Consistent)
    (data : f.data = g.data) (context : f.context? = g.context?) : f = g := by
  obtain ⟨h, c, view, read⟩ := consistent.view
  obtain ⟨h', c', view', read'⟩ := consistent'.view
  obtain ⟨d, v⟩ := f
  obtain ⟨d', v'⟩ := g
  obtain rfl : d = d' := data
  obtain rfl : h = h' := Except.ok.inj (read.symm.trans read')
  subst view view'
  exact congrArg (fun c : Option PacketContext => Frame.mk d (c.map (PacketView.mk h))) context

theorem context_merge (a b : Match) :
    (Action.setField (a.merge b)).context =
      (Action.setField b).context ∘ (Action.setField a).context := by
  funext c
  unfold Action.context
  dsimp only [Function.comp_apply]
  cases valid : (b.get .tunnelId).valid with
  | true =>
    rw [Match.get_merge valid, if_pos valid, if_pos rfl]
    split
    · rfl
    · rfl
  | false =>
    rw [Match.get_merge_of_absent valid]
    exact (if_neg Bool.false_ne_true).symm

/-- A merged match acts like its parts in turn exactly if these do not share out a tag and the
checksum of a UDP datagram is in use after both or after neither. Without a checksum to start with,
or without such a datagram, that is always so. If no tag is shared out, the checksum is all that can
differ. -/
theorem setFields_merge {f : Frame} {h : Headers} (held : f.headers? = some h)
    (read : Headers.parse f.data = .ok h) {a b : Match} (plain : a.IsPlain) (plain' : b.IsPlain)
    (disjoint : a.Disjoint b) :
    ∃ merged first second, f.setFields (a.merge b) = (.ok (), merged) ∧
      f.setFields a = (.ok (), first) ∧ first.setFields b = (.ok (), second) ∧
        (merged = second ↔ ¬h.SplitsTag a b ∧ h.live merged.data = h.live second.data) ∧
        (¬h.SplitsTag a b → h.silence merged.data = h.silence second.data) ∧
        ((∀ o src dst p, h.transport ≠ some ⟨o, .udp src dst, p⟩) ∨ h.live f.data = false →
          h.live merged.data = h.live second.data) := by
  obtain ⟨merged, once, mergedData, mergedConsistent, mergedContext⟩ :=
    setFields_ok held read (a.merge b)
  obtain ⟨first, start, firstData, firstConsistent, firstContext⟩ := setFields_ok held read a
  obtain ⟨h', held', read'⟩ := firstConsistent
  obtain ⟨second, last, secondData, secondConsistent, secondContext⟩ := setFields_ok held' read' b
  rw [firstData] at read' secondData
  have bytes (whole : ¬h.SplitsTag a b) :=
    Headers.bytes_merge read plain plain' disjoint whole read' mergedData.symm secondData.symm
  refine ⟨merged, first, second, once, start, last, ⟨?_, ?_⟩, fun whole => (bytes whole).1, ?_⟩
  · rintro rfl
    exact ⟨Headers.not_splitsTag read plain disjoint read' (mergedData.symm.trans secondData), rfl⟩
  · rintro ⟨whole, agree⟩
    refine mergedConsistent.eq secondConsistent ((bytes whole).2 agree) ?_
    rw [mergedContext, secondContext, firstContext, Option.map_map, context_merge]
  · rintro (other | unused)
    · rw [Headers.live_of_other other, Headers.live_of_other other]
    · rw [mergedData, secondData]
      exact Headers.live_merge read plain plain' read' unused

/-- A new source address. -/
def renumbering : Match := Match.any.set .ipv4Src (.exact 0x0a000003)

/-- A new destination port. -/
def rerouting : Match := Match.any.set .tcpDst (.exact 443)

theorem setFields_merge_segment :
    Headers.parse segment = .ok segmentHeaders ∧ renumbering.IsPlain ∧ rerouting.IsPlain ∧
      renumbering.Disjoint rerouting ∧ segmentHeaders.vlan = none ∧
      ∃ merged first, setFields (renumbering.merge rerouting) ⟨segment, some ⟨segmentHeaders, {}⟩⟩ =
          (.ok (), merged) ∧
        setFields renumbering ⟨segment, some ⟨segmentHeaders, {}⟩⟩ = (.ok (), first) ∧
        first.setFields rerouting = (.ok (), merged) ∧ merged.data ≠ first.data := by
  have read : Headers.parse segment = .ok segmentHeaders := by decide +kernel
  have plain : renumbering.IsPlain := by decide
  have plain' : rerouting.IsPlain := by decide
  have disjoint : renumbering.Disjoint rerouting := by decide
  obtain ⟨merged, first, second, once, start, last, same, -, live⟩ :=
    setFields_merge (f := ⟨segment, some ⟨segmentHeaders, {}⟩⟩) rfl read plain plain' disjoint
  obtain rfl : merged = second := same.mpr ⟨nofun, live (.inl nofun)⟩
  refine ⟨read, plain, plain', disjoint, rfl, merged, first, once, start, last, ?_⟩
  have changed : (setFields (renumbering.merge rerouting)
      ⟨segment, some ⟨segmentHeaders, {}⟩⟩).2.data ≠
        (setFields renumbering ⟨segment, some ⟨segmentHeaders, {}⟩⟩).2.data := by
    decide +kernel
  rwa [once, start] at changed

/-- A frame with a tag and no more. -/
def tagged : Bytes := [
  0x02, 0x00, 0x00, 0x00, 0x00, 0x02, 0x02, 0x00, 0x00, 0x00, 0x00, 0x01,
  0x81, 0x00, 0x00, 0x64, 0x88, 0xb5]

def taggedHeaders : Headers where
  length := 18
  ethDst := 0x020000000002
  ethSrc := 0x020000000001
  ethType := 0x88b5
  framing := { ethernet2 := true }
  vlan := some ⟨12, EtherType.vlan, 0x0064⟩
  payload := none
  mpls := none
  pbb := none
  network := none
  transport := none

/-- The priority of a tag is written together with the id that was read, so an id that was set
before is lost. -/
theorem not_merge_of_tag :
    ¬∀ (f : Frame) (a b : Match), f.Consistent → a.IsPlain → b.IsPlain → a.Disjoint b →
      (f.setFields (a.merge b)).2 = ((f.setFields a).2.setFields b).2 := by
  intro claimed
  have read : Headers.parse tagged = .ok taggedHeaders := by decide +kernel
  have same := claimed ⟨tagged, some ⟨taggedHeaders, {}⟩⟩
    (Match.any.set .vlanVid (.exact 0x1007)) (Match.any.set .vlanPcp (.exact 5))
    ⟨taggedHeaders, rfl, read⟩ (by decide) (by decide) (by decide)
  revert same
  decide +kernel

end Frame

end FlowSwitch
