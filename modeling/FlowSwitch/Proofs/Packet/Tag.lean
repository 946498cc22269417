import FlowSwitch.Proofs.Packet.Reread

/-!
# The control word of a tag

The id and the priority of a VLAN tag are both written with the whole control word, spelled out
from the one that was read. So when a match sets both, the priority, which is set last, undoes
the id.
-/

namespace FlowSwitch

/-- Only the fields of a tag are written to its control word. -/
theorem Field.isTag_of_spot {f : Field} {t : Spot × BitVec 16} (listed : t ∈ f.spots)
    (here : t.1 = (.tci, 0)) : f.isTag = true := by
  have all : (Field.all.all fun f => f.isTag || f.spots.all fun t => t.1 != (.tci, 0)) = true := by
    decide
  have one := List.all_eq_true.mp all f (mem_all f)
  rcases (Bool.or_eq_true ..).mp one with tag | other
  · exact tag
  · have apart := List.all_eq_true.mp other t listed
    rw [here] at apart
    cases apart

namespace Match

/-- A match that gives no value to a field of a tag. -/
def SparesTag (m : Match) : Prop := ∀ f, f.isTag = true → (m.get f).valid = false

theorem sparesTag_iff {m : Match} :
    m.SparesTag ↔ (m.get .vlanVid).valid = false ∧ (m.get .vlanPcp).valid = false := by
  constructor
  · intro spares
    exact ⟨spares .vlanVid rfl, spares .vlanPcp rfl⟩
  · rintro ⟨id, priority⟩ f tag
    cases f with
    | vlanVid => exact id
    | vlanPcp => exact priority
    | _ => cases tag

/-- The id that a match gives. -/
def newId (m : Match) : BitVec 16 :=
  let id : BitVec 16 := (m.get .vlanVid).value
  id &&& 0x0fff

theorem get_clear (m : Match) (f g : Field) :
    (m.clear f).get g = if f = g then .wildcard else m.get g := by
  unfold clear set
  dsimp only
  by_cases same : f = g
  · subst same
    rw [if_pos rfl, dif_pos rfl]
  · rw [if_neg same, dif_neg same]

theorem valid_get_clear (m : Match) (f : Field) : ((m.clear f).get f).valid = false := by
  rw [get_clear, if_pos rfl]
  rfl

theorem get_clear_of_ne (m : Match) {f g : Field} (ne : f ≠ g) : (m.clear f).get g = m.get g := by
  rw [get_clear, if_neg ne]

end Match

namespace Headers

variable {h h' : Headers} {d d₀ : Bytes} {m : Match} {tag : VlanTag}

/-- The control word of the tag that was read. -/
def tci (h : Headers) : BitVec 16 := (h.vlan.map (·.tci)).getD 0

/-- The control word that setting the fields of a match leaves. -/
def tciAfter (h : Headers) (m : Match) : BitVec 16 :=
  if (m.get .vlanPcp).valid then h.priorityWord (m.get .vlanPcp).value
  else if (m.get .vlanVid).valid then h.idWord (m.get .vlanVid).value
  else h.tci

theorem place?_tci (is : h.vlan = some tag) : h.place? d (.tci, 0) = some (tag.offset + 2) :=
  place?_of_base? (by rw [base?, is]; rfl) (by decide)

theorem word_tci (laid : h.Laid d) (is : h.vlan = some tag) :
    d.word 2 (tag.offset + 2) = h.tci := by
  rw [Bytes.word_of_word? (laid.tag tag is).2.2, tci, is, Option.map_some, Option.getD_some]

/-- Fields that are not of the tag leave its word. -/
theorem word_foldl_tag (laid : h.Laid d₀) (steady : h.Steady d₀ d) (is : h.vlan = some tag)
    (m : Match) {fields : List Field}
    (spare : ∀ f ∈ fields, f.isTag = true → (m.get f).valid = false) :
    (fields.foldl (h.setFrom m) d).word 2 (tag.offset + 2) = d.word 2 (tag.offset + 2) := by
  have free : ∀ f ∈ fields, (m.get f).valid = true → ∀ t ∈ f.spots,
      t.1 = (.tci, 0) → t.2 &&& BitVec.allOnes 16 = 0 := by
    intro f listed valid t spot here
    rw [spare f listed (Field.isTag_of_spot spot here)] at valid
    cases valid
  have kept := word_foldl laid (place?_tci is) steady m (by decide) (by decide)
    (fun _ => by decide) free
  rwa [BitVec.and_allOnes, BitVec.and_allOnes] at kept

/-- A field of the tag replaces the whole word. -/
theorem setField_tag (laid : h.Laid d₀) (steady : h.Steady d₀ d) (is : h.vlan = some tag)
    {f : Field} {v : BitVec f.width} {w : BitVec 16} (isTag : f.isTag = true)
    (spelled : h.spell f v = [w]) :
    FieldWrite.setField h d f v = Edit.apply d ⟨tag.offset + 2, 0xffff, w, []⟩ := by
  have one : h.edits (h.live d) d₀ f v = [⟨tag.offset + 2, 0xffff, w, []⟩] := by
    have spots : f.spots = [((.tci, 0), 0xffff)] := by
      cases f with
      | vlanVid | vlanPcp => rfl
      | _ => cases isTag
    rw [edits, spots, spelled]
    exact script_cons_of_base? (k := 0) (by rw [base?, is]; rfl) (by decide)
  have other : f ≠ .ipProto ∧ ¬(f = .sctpSrc ∨ f = .sctpDst) := by
    cases f with
    | vlanVid | vlanPcp => decide
    | _ => cases isTag
  rw [setField_eq laid steady other.1, resealIf, if_neg other.2, one, List.foldl_cons,
    List.foldl_nil]

/-- The word of the tag is there after any fields were set. -/
theorem exists_word?_tag (laid : h.Laid d₀) (steady : h.Steady d₀ d) (is : h.vlan = some tag) :
    ∃ w, d.word? 2 (tag.offset + 2) = some w := by
  have fits : tag.offset + 2 + 2 ≤ d.length := by
    rw [steady.length]
    exact place?_fits laid (place?_tci is)
  exact Option.isSome_iff_exists.mp (Bytes.word?_isSome.mpr fits)

theorem word_setField_tag (laid : h.Laid d₀) (steady : h.Steady d₀ d) (is : h.vlan = some tag)
    {f : Field} {v : BitVec f.width} {w : BitVec 16} (isTag : f.isTag = true)
    (spelled : h.spell f v = [w]) :
    (FieldWrite.setField h d f v).word 2 (tag.offset + 2) = w := by
  obtain ⟨old, there⟩ := exists_word?_tag laid steady is
  rw [setField_tag laid steady is isTag spelled, Bytes.word, Edit.word?_apply_self (by simp)]
  dsimp only
  rw [there, Option.map_some, Edit.becomes_full, Option.getD_some]

/-- What setting the fields of a match leaves of the tag. -/
theorem word_setFields_tag (laid : h.Laid d) (is : h.vlan = some tag) (m : Match) :
    (FieldWrite.setFields h m d).word 2 (tag.offset + 2) = h.tciAfter m := by
  have split : Field.all = Field.all.take 6 ++ .vlanVid :: .vlanPcp :: Field.all.drop 8 := by decide
  have others (fields : List Field) (plain : ∀ f ∈ fields, f.isTag = false) :
      ∀ f ∈ fields, f.isTag = true → (m.get f).valid = false := by
    intro f listed isTag
    rw [plain f listed] at isTag
    cases isTag
  have first := word_foldl_tag laid (steady_refl h d) is m (others (Field.all.take 6) (by decide))
  have before := (steady_refl h d).inside laid
    (inside_foldl laid (steady_refl h d) m (Field.all.take 6))
  have whole : FieldWrite.setFields h m d = Field.all.foldl (h.setFrom m) d := rfl
  rw [whole, split, List.foldl_append, List.foldl_cons, List.foldl_cons]
  generalize (Field.all.take 6).foldl (h.setFrom m) d = x at first before
  have one (f : Field) {x : Bytes} (steady : h.Steady d x) : h.Steady d (h.setFrom m x f) := by
    unfold setFrom
    split
    · exact steady.setField laid f _
    · exact steady
  rw [word_foldl_tag laid (one _ (one _ before)) is m (others (Field.all.drop 8) (by decide)),
    tciAfter, setFrom]
  split
  · exact word_setField_tag laid (one _ before) is rfl rfl
  · rw [setFrom]
    split
    · exact word_setField_tag laid before is rfl rfl
    · exact first.trans (word_tci laid is)

/-- Writing the priority leaves the id. -/
theorem priorityWord_and (h : Headers) (pcp : BitVec 8) :
    h.priorityWord pcp &&& 0x0fff = h.tci &&& 0x0fff := by
  unfold priorityWord tagWord tci
  generalize (h.vlan.map (·.tci)).getD 0 = t
  generalize (pcp &&& 7).setWidth 16 = x
  apply BitVec.eq_of_getLsbD_eq
  intro i below
  have outside : ∀ i < 12, (0xe000 : BitVec 16).getLsbD i = false := by decide
  have inside : ∀ i < 16, 12 ≤ i → (0x0fff : BitVec 16).getLsbD i = false := by decide
  simp only [BitVec.getLsbD_and, BitVec.getLsbD_or, BitVec.getLsbD_not, BitVec.getLsbD_shiftLeft,
    below, decide_true, Bool.true_and]
  by_cases low : i < 12
  · have early : i < 13 := by omega
    rw [outside i low]
    simp [early]
  · rw [inside i below (by omega), Bool.and_false, Bool.and_false]

/-- An id that is there already leaves the word. -/
theorem idWord_eq_tci {vid : BitVec 16} (idle : vid &&& 0x0fff = h.tci &&& 0x0fff) :
    h.idWord vid = h.tci := by
  unfold idWord tagWord
  rw [idle, tci]
  generalize (h.vlan.map (·.tci)).getD 0 = t
  generalize (0x0fff : BitVec 16) = mask
  apply BitVec.eq_of_getLsbD_eq
  intro i below
  simp only [BitVec.getLsbD_and, BitVec.getLsbD_or, BitVec.getLsbD_not, below, decide_true,
    Bool.true_and]
  cases mask.getLsbD i <;> simp

theorem idWord_and (h : Headers) (vid : BitVec 16) : h.idWord vid &&& 0x0fff = vid &&& 0x0fff := by
  unfold idWord tagWord
  generalize (h.vlan.map (·.tci)).getD 0 = t
  generalize (0x0fff : BitVec 16) = mask
  apply BitVec.eq_of_getLsbD_eq
  intro i below
  simp only [BitVec.getLsbD_and, BitVec.getLsbD_or, BitVec.getLsbD_not, below, decide_true,
    Bool.true_and]
  cases mask.getLsbD i <;> simp

theorem tci_and (is : h.vlan = some tag) : h.tci &&& 0x0fff = tag.vid := by
  rw [tci, is]
  rfl

/-- The id that is left: the new one where no priority is set with it. -/
theorem tciAfter_and (is : h.vlan = some tag) (m : Match) :
    h.tciAfter m &&& 0x0fff =
      if (m.get .vlanVid).valid = true ∧ (m.get .vlanPcp).valid = false then m.newId
      else tag.vid := by
  have word := tci_and is
  unfold tciAfter
  cases (m.get .vlanPcp).valid with
  | true => exact ((h.priorityWord_and _).trans word).trans (if_neg (by simp)).symm
  | false =>
    cases (m.get .vlanVid).valid with
    | true => exact (h.idWord_and _).trans (if_pos ⟨rfl, rfl⟩).symm
    | false => exact word.trans (if_neg (by decide)).symm

/-- The tag that is read again has the word that was left. -/
theorem tci_reread (laid : h.Laid d) (laid' : h'.Laid (FieldWrite.setFields h m d))
    (same : h'.blank = h.blank) (is : h.vlan = some tag) :
    ∃ tag', h'.vlan = some tag' ∧ tag'.offset = tag.offset ∧ tag'.tci = h.tciAfter m := by
  have tags : h'.vlan.map Parse.blankTag = h.vlan.map Parse.blankTag := congrArg (·.vlan) same
  rw [is] at tags
  obtain ⟨tag', is', blank⟩ := Option.map_eq_some_iff.mp tags
  have offset : tag'.offset = tag.offset := congrArg (·.offset) blank
  refine ⟨tag', is', offset, ?_⟩
  rw [← word_setFields_tag laid is m, ← offset]
  exact (Bytes.word_of_word? (laid'.tag tag' is').2.2).symm

/-- A match that sets no field of a tag keeps its word. -/
theorem tci_kept (laid : h.Laid d) (laid' : h'.Laid (FieldWrite.setFields h m d))
    (same : h'.blank = h.blank) (spares : h.vlan = none ∨ m.SparesTag) :
    h'.vlan.map (·.tci) = h.vlan.map (·.tci) := by
  cases is : h.vlan with
  | none =>
    have tags : h'.vlan.map Parse.blankTag = h.vlan.map Parse.blankTag := congrArg (·.vlan) same
    rw [is] at tags
    rw [Option.map_eq_none_iff.mp tags]
  | some tag =>
    obtain ⟨tag', is', -, word⟩ := tci_reread laid laid' same is
    have spares : m.SparesTag := spares.resolve_left (by rw [is]; exact nofun)
    obtain ⟨id, priority⟩ := Match.sparesTag_iff.mp spares
    rw [is', Option.map_some, Option.map_some, word, tciAfter, id, priority, tci, is]
    rfl

/-- Setting the id that is there changes nothing. -/
theorem setFields_clear_id (laid : h.Laid d) (is : h.vlan = some tag)
    (idle : (m.get .vlanVid).valid = true → m.newId = tag.vid) :
    FieldWrite.setFields h (m.clear .vlanVid) d = FieldWrite.setFields h m d := by
  have split : Field.all = Field.all.take 6 ++ .vlanVid :: Field.all.drop 7 := by decide
  have others (fields : List Field) (apart : .vlanVid ∉ fields) (x : Bytes) :
      fields.foldl (h.setFrom (m.clear .vlanVid)) x = fields.foldl (h.setFrom m) x := by
    refine List.foldl_ext _ _ x fun x f listed => ?_
    have ne : .vlanVid ≠ f := fun same => apart (same ▸ listed)
    rw [setFrom, setFrom, m.get_clear_of_ne ne]
  have before := (steady_refl h d).inside laid
    (inside_foldl laid (steady_refl h d) m (Field.all.take 6))
  have spare : ∀ f ∈ Field.all.take 6, f.isTag = true → (m.get f).valid = false := by
    have plain : ∀ f ∈ Field.all.take 6, f.isTag = false := by decide
    intro f listed isTag
    rw [plain f listed] at isTag
    cases isTag
  have word := (word_foldl_tag laid (steady_refl h d) is m spare).trans (word_tci laid is)
  have whole (m : Match) : FieldWrite.setFields h m d = Field.all.foldl (h.setFrom m) d := rfl
  rw [whole, whole, split, List.foldl_append, List.foldl_append, List.foldl_cons, List.foldl_cons,
    others _ (by decide), others _ (by decide)]
  generalize (Field.all.take 6).foldl (h.setFrom m) d = x at before word
  congr 1
  rw [setFrom, setFrom, if_neg (by rw [m.valid_get_clear]; decide)]
  split
  · rename_i valid
    have same : h.idWord (m.get .vlanVid).value = h.tci :=
      idWord_eq_tci ((idle valid).trans (tci_and is).symm)
    have spelled : h.spell .vlanVid (m.get .vlanVid).value = [h.tci] :=
      congrArg (fun w => [w]) same
    obtain ⟨old, there⟩ := exists_word?_tag laid before is
    rw [Bytes.word_of_word? there] at word
    rw [setField_tag laid before is rfl spelled, Edit.apply]
    dsimp only
    rw [there]
    dsimp only
    rw [Edit.becomes_full, if_pos word]
  · rfl

end Headers

end FlowSwitch
