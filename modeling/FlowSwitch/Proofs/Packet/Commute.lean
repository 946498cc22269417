import FlowSwitch.Proofs.Crc32c
import FlowSwitch.Proofs.Packet.Residue
import FlowSwitch.Proofs.Packet.Steady

/-!
# Edits in any order

A checksum that follows several changes knows only what they amount to. So two edits that write
to different words, or to different bits of one word, can change places; and so can two fields.
-/

namespace FlowSwitch

/-- A map that commutes with each step commutes with all of them. -/
theorem foldl_comm_of {α β : Type} {step : β → α → β} {l : List α} (φ : β → β) (good : β → Prop)
    (keep : ∀ b a, good b → good (step b a))
    (comm : ∀ a ∈ l, ∀ b, good b → φ (step b a) = step (φ b) a) {b : β} (start : good b) :
    φ (l.foldl step b) = l.foldl step (φ b) := by
  induction l generalizing b with
  | nil => rfl
  | cons a l ih =>
    obtain ⟨first, rest⟩ := List.forall_mem_cons.mp comm
    rw [List.foldl_cons, List.foldl_cons, ih rest (keep b a start), first b start]

theorem foldl_comm {α β : Type} {step : β → α → β} {l : List α} (φ : β → β)
    (comm : ∀ a ∈ l, ∀ b, φ (step b a) = step (φ b) a) (b : β) :
    φ (l.foldl step b) = l.foldl step (φ b) :=
  foldl_comm_of φ (fun _ => True) (fun _ _ _ => trivial) (fun a inside b _ => comm a inside b)
    trivial

namespace Checksum

theorem fold_fold_add {m n : Nat} (small : m ≤ 3 * 0xffff) (small' : n ≤ 2 * 0xffff) :
    fold (fold (fold (fold m) + n)) = fold (fold (m + n)) := by
  by_cases zero : m = 0
  · rw [zero]
    rfl
  · have inner : fold (fold m) = (m - 1) % 0xffff + 1 := by
      rw [fold_fold_eq (by omega), if_neg zero]
    have outer : fold (fold (m + n)) = (m + n - 1) % 0xffff + 1 := by
      rw [fold_fold_eq (by omega), if_neg (by omega)]
    rw [inner, outer, fold_fold_eq (by omega), if_neg (by omega)]
    omega

theorem toNat_not_update (c old new : BitVec 16) :
    (~~~update c old new).toNat = fold (fold ((~~~c).toNat + ((~~~old).toNat + new.toNat))) := by
  have small := (~~~c).isLt
  have small' := (~~~old).isLt
  have small'' := new.isLt
  have below := (fold_fold ((~~~c).toNat + ((~~~old).toNat + new.toNat)) (by omega)).1
  rw [update, finish, BitVec.not_not, BitVec.toNat_ofNat, ← Nat.add_assoc] at *
  omega

/-- Two changes that a checksum follows in turn matter by their total only. -/
theorem update_update_congr {c o m p n o' m' p' n' : BitVec 16}
    (total : (~~~o).toNat + m.toNat + ((~~~p).toNat + n.toNat)
      = (~~~o').toNat + m'.toNat + ((~~~p').toNat + n'.toNat)) :
    update (update c o m) p n = update (update c o' m') p' n' := by
  have first := (~~~c).isLt
  have twice (o m p n : BitVec 16) : (~~~update (update c o m) p n).toNat =
      fold (fold ((~~~c).toNat + ((~~~o).toNat + m.toNat + ((~~~p).toNat + n.toNat)))) := by
    have second := (~~~o).isLt
    have third := m.isLt
    have fourth := (~~~p).isLt
    have fifth := n.isLt
    rw [toNat_not_update, toNat_not_update, fold_fold_add (by omega) (by omega), Nat.add_assoc]
  have same : ~~~update (update c o m) p n = ~~~update (update c o' m') p' n' := by
    apply BitVec.eq_of_toNat_eq
    rw [twice, twice, total]
  exact BitVec.not_inj.mp same
end Checksum

namespace FieldWrite

variable {d : Bytes} {o m p n o' m' p' n' old new old' new' : BitVec 16} {place at_ : Nat}
  {sums sums' : List Nat}

theorem word?_follow_of_apart (apart : Bytes.Apart place at_) :
    (follow old new d place).word? 2 at_ = d.word? 2 at_ := by
  unfold follow
  split
  · exact Bytes.word?_setWord_of_apart apart
  · rfl

/-- A checksum that follows two changes knows only what they amount to. -/
theorem follow_follow_congr (d : Bytes) (place : Nat)
    (total : (~~~o).toNat + m.toNat + ((~~~p).toNat + n.toNat)
      = (~~~o').toNat + m'.toNat + ((~~~p').toNat + n'.toNat)) :
    follow p n (follow o m d place) place = follow p' n' (follow o' m' d place) place := by
  cases there : d.word? 2 place with
  | none => simp only [follow, there]
  | some c =>
    have fits := Bytes.word?_fits there
    simp only [follow, there, Bytes.word?_setWord_self fits, Bytes.setWord_setWord,
      Checksum.update_update_congr total]

theorem follow_comm (d : Bytes) (apart : place = at_ ∨ Bytes.Apart place at_) :
    follow old new (follow old' new' d at_) place =
      follow old' new' (follow old new d place) at_ := by
  rcases apart with rfl | apart
  · exact follow_follow_congr d place (Nat.add_comm ..)
  · have kept : (follow old new d place).word? 2 at_ = d.word? 2 at_ := word?_follow_of_apart apart
    cases there : d.word? 2 at_ with
    | none =>
      rw [there] at kept
      simp only [follow.eq_1 old' new', there, kept]
    | some c =>
      rw [there] at kept
      simp only [follow.eq_1 old' new', there, kept]
      exact follow_overwrite (by rwa [Bytes.length_ofWord])

theorem adjust_comm (d : Bytes) (apart : ∀ p ∈ sums, ∀ q ∈ sums', p = q ∨ Bytes.Apart p q) :
    adjust sums old new (adjust sums' old' new' d) =
      adjust sums' old' new' (adjust sums old new d) := by
  simp only [adjust_eq]
  refine foldl_comm (fun d => sums.foldl (follow old new) d) (fun q inside d => ?_) d
  exact (foldl_comm (fun d => follow old' new' d q)
    (fun p listed d => (follow_comm d (apart p listed q inside)).symm) d).symm

theorem adjust_adjust_congr (d : Bytes)
    (apart : ∀ p ∈ sums, ∀ q ∈ sums, p = q ∨ Bytes.Apart p q)
    (total : (~~~o).toNat + m.toNat + ((~~~p).toNat + n.toNat)
      = (~~~o').toNat + m'.toNat + ((~~~p').toNat + n'.toNat)) :
    adjust sums p n (adjust sums o m d) = adjust sums p' n' (adjust sums o' m' d) := by
  induction sums generalizing d with
  | nil => rfl
  | cons q sums ih =>
    have past (o m p n : BitVec 16) (d : Bytes) :
        follow p n (adjust sums o m d) q = adjust sums o m (follow p n d q) := by
      have single : follow p n (adjust sums o m d) q = adjust [q] p n (adjust sums o m d) := rfl
      rw [single, adjust_comm d fun x only y listed => apart x ?_ y (List.mem_cons_of_mem _ listed)]
      · rfl
      · rw [List.mem_singleton.mp only]
        exact List.mem_cons_self
    have split (o m : BitVec 16) (d : Bytes) :
        adjust (q :: sums) o m d = adjust sums o m (follow o m d q) := rfl
    rw [split, split, split, split, past, past, follow_follow_congr d q total]
    exact ih _ fun x listed y also =>
      apart x (List.mem_cons_of_mem _ listed) y (List.mem_cons_of_mem _ also)

end FieldWrite

namespace Edit

open FieldWrite (adjust)

/-- Two edits that do not disturb each other: they write to different words, or other bits of the
same, and neither is at a checksum of one of them. -/
structure Clear (e e' : Edit) : Prop where
  words : Bytes.Apart e.place e'.place ∨
    e.place = e'.place ∧ e.sums = e'.sums ∧ e.mask &&& e'.mask = 0
  first : ∀ p ∈ e.sums, Bytes.Apart p e.place ∧ Bytes.Apart p e'.place
  second : ∀ p ∈ e'.sums, Bytes.Apart p e.place ∧ Bytes.Apart p e'.place
  sums : ∀ p ∈ e.sums, ∀ q ∈ e'.sums, p = q ∨ Bytes.Apart p q

variable {e e' : Edit} {d : Bytes} {w w' : BitVec 16}

/-- What an edit does when it finds `w`. -/
def replace (e : Edit) (w : BitVec 16) (d : Bytes) : Bytes :=
  if w = e.becomes w then d else adjust e.sums w (e.becomes w) (d.setWord e.place (e.becomes w))

theorem apply_eq_replace (there : d.word? 2 e.place = some w) : apply d e = e.replace w d := by
  rw [apply, there]
  rfl

theorem apply_of_none (absent : d.word? 2 e.place = none) : apply d e = d := by
  rw [apply, absent]

theorem becomes_eq_self : e.becomes w = w ↔ w &&& e.mask = e.value &&& e.mask := by
  simp only [BitVec.eq_of_getLsbD_eq_iff, becomes, BitVec.getLsbD_or, BitVec.getLsbD_and,
    BitVec.getLsbD_not]
  refine forall_congr' fun i => forall_congr' fun below => ?_
  rw [decide_eq_true below, Bool.true_and]
  cases w.getLsbD i <;> cases e.mask.getLsbD i <;> cases e.value.getLsbD i <;> simp

theorem becomes_comm (apart : e.mask &&& e'.mask = 0) (w : BitVec 16) :
    e'.becomes (e.becomes w) = e.becomes (e'.becomes w) := by
  apply BitVec.eq_of_getLsbD_eq
  intro i below
  have bit : (e.mask.getLsbD i && e'.mask.getLsbD i) = false := by
    have none := congrArg (·.getLsbD i) apart
    simpa using none
  simp only [becomes, BitVec.getLsbD_and, BitVec.getLsbD_or, BitVec.getLsbD_not, below,
    decide_true, Bool.true_and]
  revert bit
  cases e.mask.getLsbD i <;> cases e'.mask.getLsbD i <;> simp

/-- Another edit of a word does not decide whether an edit changes it. -/
theorem idle_iff (apart : e'.mask &&& e.mask = 0) (w : BitVec 16) :
    e'.becomes w = e.becomes (e'.becomes w) ↔ w = e.becomes w := by
  rw [eq_comm, becomes_eq_self, becomes_and apart, eq_comm (a := w), becomes_eq_self]

theorem replace_comm (apart : Bytes.Apart e.place e'.place)
    (first : ∀ p ∈ e.sums, Bytes.Apart p e'.place) (second : ∀ p ∈ e'.sums, Bytes.Apart p e.place)
    (sums : ∀ p ∈ e.sums, ∀ q ∈ e'.sums, p = q ∨ Bytes.Apart p q) :
    e'.replace w' (e.replace w d) = e.replace w (e'.replace w' d) := by
  unfold replace
  split
  · rfl
  · split
    · rfl
    · rw [← FieldWrite.adjust_setWord first, ← FieldWrite.adjust_setWord second,
        FieldWrite.adjust_comm _ sums, Bytes.setWord_comm apart]

/-- Two edits of one word. -/
theorem apply_comm_of_place (place : e.place = e'.place) (sums : e.sums = e'.sums)
    (mask : e.mask &&& e'.mask = 0) (own : ∀ p ∈ e.sums, Bytes.Apart p e.place)
    (apart : ∀ p ∈ e.sums, ∀ q ∈ e.sums, p = q ∨ Bytes.Apart p q) :
    apply (apply d e) e' = apply (apply d e') e := by
  cases there : d.word? 2 e.place with
  | none =>
    have also : d.word? 2 e'.place = none := place ▸ there
    rw [apply_of_none there, apply_of_none also, apply_of_none there]
  | some w =>
    have fits := Bytes.word?_fits there
    have also : d.word? 2 e'.place = some w := place ▸ there
    have own' : ∀ p ∈ e'.sums, Bytes.Apart p e'.place := place ▸ sums ▸ own
    have after : (apply d e).word? 2 e'.place = some (e.becomes w) := by
      rw [← place, word?_apply_self own, there, Option.map_some]
    have after' : (apply d e').word? 2 e.place = some (e'.becomes w) := by
      rw [place, word?_apply_self own', also, Option.map_some]
    have idle := idle_iff mask w
    have idle' := idle_iff ((BitVec.and_comm ..).trans mask) w
    rw [apply_eq_replace after, apply_eq_replace after', apply_eq_replace there,
      apply_eq_replace also]
    unfold replace
    by_cases same : w = e.becomes w
    · rw [if_pos same, if_pos (idle'.mpr same), ← same]
    · by_cases same' : w = e'.becomes w
      · rw [if_pos same', if_pos (idle.mpr same'), ← same']
      · rw [if_neg same, if_neg same', if_neg (mt idle.mp same'), if_neg (mt idle'.mp same),
          place, sums, ← FieldWrite.adjust_setWord own', ← FieldWrite.adjust_setWord own',
          Bytes.setWord_setWord, Bytes.setWord_setWord, becomes_comm mask]
        refine FieldWrite.adjust_adjust_congr _ (sums ▸ apart) ?_
        have first := BitVec.toNat_not (x := e.becomes w)
        have second := BitVec.toNat_not (x := e'.becomes w)
        have third := (e.becomes w).isLt
        have fourth := (e'.becomes w).isLt
        omega

theorem apply_comm (clear : Clear e e') : apply (apply d e) e' = apply (apply d e') e := by
  rcases clear.words with apart | ⟨place, sums, mask⟩
  · have kept : (apply d e).word? 2 e'.place = d.word? 2 e'.place :=
      word?_apply_of_spares ⟨apart, fun p listed => (clear.first p listed).2⟩
    have kept' : (apply d e').word? 2 e.place = d.word? 2 e.place :=
      word?_apply_of_spares ⟨apart.symm, fun p listed => (clear.second p listed).1⟩
    cases there : d.word? 2 e.place with
    | none => rw [apply_of_none there, apply_of_none (kept'.trans there)]
    | some w =>
      cases also : d.word? 2 e'.place with
      | none => rw [apply_of_none also, apply_of_none (kept.trans also)]
      | some w' =>
        rw [apply_eq_replace (kept.trans also), apply_eq_replace (kept'.trans there),
          apply_eq_replace there, apply_eq_replace also]
        exact replace_comm apart (fun p listed => (clear.first p listed).2)
          (fun p listed => (clear.second p listed).1) clear.sums
  · refine apply_comm_of_place place sums mask (fun p listed => (clear.first p listed).1) ?_
    have same := clear.sums
    rwa [← sums] at same

theorem foldl_apply_comm {es es' : List Edit} (clear : ∀ e ∈ es, ∀ e' ∈ es', e.Clear e')
    (d : Bytes) : es'.foldl apply (es.foldl apply d) = es.foldl apply (es'.foldl apply d) :=
  foldl_comm (fun d => es'.foldl apply d) (fun e inside d =>
    (foldl_comm (fun d => apply d e)
      (fun e' listed _ => (apply_comm (clear e inside e' listed)).symm) d).symm) d

@[simp]
theorem length_foldl (es : List Edit) (d : Bytes) : (es.foldl apply d).length = d.length := by
  induction es generalizing d with
  | nil => rfl
  | cons e es ih => rw [List.foldl_cons, ih, length_apply]

/-- Edits before `o` leave the bytes from there on. -/
theorem drop_foldl {es : List Edit} {o : Nat} (place : ∀ e ∈ es, e.place + 2 ≤ o)
    (sums : ∀ e ∈ es, ∀ q ∈ e.sums, q + 2 ≤ o) (d : Bytes) :
    (es.foldl apply d).drop o = d.drop o := by
  induction es generalizing d with
  | nil => rfl
  | cons e es ih =>
    obtain ⟨here, place⟩ := List.forall_mem_cons.mp place
    obtain ⟨first, sums⟩ := List.forall_mem_cons.mp sums
    rw [List.foldl_cons, ih place sums]
    apply List.ext_getElem?
    intro i
    rw [List.getElem?_drop, List.getElem?_drop, getElem?_apply_of_apart (.inr (by omega))]
    exact fun q inside => .inr (by have := first q inside; omega)

/-- An edit outside some bytes that are overwritten. -/
theorem apply_overwrite {o : Nat} {s : Bytes}
    (place : e.place + 2 ≤ o ∨ o + s.length ≤ e.place)
    (sums : ∀ p ∈ e.sums, p + 2 ≤ o ∨ o + s.length ≤ p) :
    apply (d.overwrite o s) e = (apply d e).overwrite o s := by
  have kept := Bytes.word?_overwrite_of_apart (d := d) place
  cases there : d.word? 2 e.place with
  | none => rw [apply_of_none there, apply_of_none (kept.trans there)]
  | some w =>
    rw [apply_eq_replace there, apply_eq_replace (kept.trans there), replace, replace]
    split
    · rfl
    · have apart : o + s.length ≤ e.place ∨
          e.place + (Bytes.ofWord 2 (e.becomes w)).length ≤ o := by
        rw [Bytes.length_ofWord]
        exact place.symm
      have moved : (d.overwrite o s).setWord e.place (e.becomes w) =
          (d.setWord e.place (e.becomes w)).overwrite o s := Bytes.overwrite_comm apart
      rw [moved, FieldWrite.adjust_overwrite sums]

theorem foldl_apply_overwrite {o : Nat} {s : Bytes} {es : List Edit}
    (place : ∀ e ∈ es, e.place + 2 ≤ o ∨ o + s.length ≤ e.place)
    (sums : ∀ e ∈ es, ∀ p ∈ e.sums, p + 2 ≤ o ∨ o + s.length ≤ p) (d : Bytes) :
    es.foldl apply (d.overwrite o s) = (es.foldl apply d).overwrite o s :=
  (foldl_comm (fun d => d.overwrite o s)
    (fun e inside _ => (apply_overwrite (place e inside) (sums e inside)).symm) d).symm

end Edit

/-! ## Fields -/

namespace Field

/-- The fields of a tag are both written with the whole control word. -/
def isTag : Field → Bool
  | vlanVid | vlanPcp => true
  | _ => false

/-- Two fields write the same bit of some word. -/
def clash (f g : Field) : Bool :=
  f.spots.any fun s => g.spots.any fun t => s.1 = t.1 && s.2 &&& t.2 != 0

/-- Different fields are written to different bits, apart from those of a tag. -/
theorem spots_apart {f g : Field} (ne : f ≠ g) (tag : (f.isTag && g.isTag) = false) :
    ∀ s ∈ f.spots, ∀ t ∈ g.spots, s.1 = t.1 → s.2 &&& t.2 = 0 := by
  have all : (Field.all.all fun f => Field.all.all fun g =>
      f = g || (f.isTag && g.isTag) || !f.clash g) = true := by decide +kernel
  have pair := List.all_eq_true.mp (List.all_eq_true.mp all f (mem_all f)) g (mem_all g)
  have free : f.clash g = false := by simpa [ne, tag] using pair
  intro s listed t listed' same
  by_contra shared
  have inner : (g.spots.any fun t => s.1 = t.1 && s.2 &&& t.2 != 0) = true :=
    List.any_eq_true.mpr ⟨t, listed', by simpa [same] using shared⟩
  have clash : f.clash g = true := List.any_eq_true.mpr ⟨s, listed, inner⟩
  rw [free] at clash
  cases clash

/-- Only the ports of SCTP are written to its header. -/
theorem spots_unsealed {f : Field} (other : ¬(f = .sctpSrc ∨ f = .sctpDst)) :
    ∀ s ∈ f.spots, s.1.1 ≠ .sctp := by
  have all : (Field.all.all fun f =>
      f = .sctpSrc || f = .sctpDst || f.spots.all fun s => s.1.1 != .sctp) = true := by
    decide
  have one := List.all_eq_true.mp all f (mem_all f)
  simp only [not_or] at other
  simpa [other] using one

/-- No field is written to a checksum. -/
theorem spots_outside (f : Field) :
    ∀ s ∈ f.spots, s.1 ∉ Headers.checksums ∧ s.1 ∉ Headers.sealSpots := by
  have all : (Field.all.all fun f => f.spots.all fun s =>
      !Headers.checksums.contains s.1 && !Headers.sealSpots.contains s.1) = true := by
    decide
  have one := List.all_eq_true.mp all f (mem_all f)
  simpa using one

end Field

namespace Headers

variable {h : Headers} {d₀ d : Bytes} {live : Bool}

/-- The words of a match are found where they were in the frame `d₀`. -/
def put (h : Headers) (live : Bool) (d₀ : Bytes) (f : Field) (v : BitVec f.width) (d : Bytes) :
    Bytes :=
  h.resealIf f ((h.edits live d₀ f v).foldl Edit.apply d)

theorem clear_of_mem (laid : h.Laid d₀) {spots spots' : List (Spot × BitVec 16)}
    {ws ws' : List (BitVec 16)} {e e' : Edit} (made : e ∈ h.script live d₀ spots ws)
    (made' : e' ∈ h.script live d₀ spots' ws') (outside : ∀ s ∈ spots, s.1 ∉ checksums)
    (outside' : ∀ s ∈ spots', s.1 ∉ checksums)
    (apart : ∀ s ∈ spots, ∀ t ∈ spots', s.1 = t.1 → s.2 &&& t.2 = 0) : e.Clear e' := by
  obtain ⟨s, listed, there, mask, sums⟩ := mem_script made
  obtain ⟨t, listed', there', mask', sums'⟩ := mem_script made'
  have spared {p : Nat} {u : Spot} (sum : p ∈ (h.covering live u).filterMap (h.place? d₀)) :
      Bytes.Apart p e.place ∧ Bytes.Apart p e'.place := by
    obtain ⟨c, covers, at_⟩ := List.mem_filterMap.mp sum
    have isSum := covering_subset h live u covers
    exact ⟨apart_of_ne laid at_ there fun same => outside s listed (same ▸ isSum),
      apart_of_ne laid at_ there' fun same => outside' t listed' (same ▸ isSum)⟩
  refine ⟨?_, fun p inside => spared (sums ▸ inside), fun p inside => spared (sums' ▸ inside),
    fun p inside q inside' => ?_⟩
  · by_cases same : s.1 = t.1
    · refine .inr ⟨Option.some.inj (there.symm.trans (same ▸ there')), ?_, ?_⟩
      · rw [sums, sums', same]
      · rw [mask, mask']
        exact apart s listed t listed' same
    · exact .inl (apart_of_ne laid there there' same)
  · rw [sums] at inside
    rw [sums'] at inside'
    obtain ⟨c, -, at_⟩ := List.mem_filterMap.mp inside
    obtain ⟨c', -, at_'⟩ := List.mem_filterMap.mp inside'
    by_cases same : c = c'
    · exact .inl (Option.some.inj (at_.symm.trans (same ▸ at_')))
    · exact .inr (apart_of_ne laid at_ at_' same)

theorem edits_comm (laid : h.Laid d₀) {f g : Field} (ne : f ≠ g)
    (tag : (f.isTag && g.isTag) = false) (v : BitVec f.width) (w : BitVec g.width) (d : Bytes) :
    (h.edits live d₀ g w).foldl Edit.apply ((h.edits live d₀ f v).foldl Edit.apply d) =
      (h.edits live d₀ f v).foldl Edit.apply ((h.edits live d₀ g w).foldl Edit.apply d) := by
  refine Edit.foldl_apply_comm (fun e made e' made' => ?_) d
  exact clear_of_mem laid made made' (fun s listed => (f.spots_outside s listed).1)
    (fun s listed => (g.spots_outside s listed).1) (Field.spots_apart ne tag)

/-! ## The checksum of SCTP -/

section

variable (laid : h.Laid d₀) {o : Nat} {a b : BitVec 16} {p : Option Nat}
  (is : h.transport = some ⟨o, .sctp a b, p⟩)
include laid is

/-- The header of the packet is in the datagram, and that in the frame. -/
theorem packet_inside : o + 12 ≤ h.networkStop ∧ h.networkStop ≤ d₀.length := by
  obtain ⟨ip, network, -, -, fits⟩ := laid.upper.transport _ is
  have stop := (laid.upper.ip ip network).2.stop
  rw [networkStop, ip?_eq_some.mpr network]
  exact ⟨fits, stop⟩

/-- The bytes of the packet, and its checksum within them. -/
theorem reseal_eq (length : d.length = d₀.length) :
    h.reseal d = d.overwrite (o + 8)
      (Crc32c.sctp ((d.drop o).take (h.networkStop - o))) := by
  obtain ⟨header, inside⟩ := packet_inside laid is
  rw [reseal, is]
  dsimp only
  rw [FieldWrite.updateSctp, length, Nat.min_eq_left inside]
  exact if_pos (by omega)

/-- Edits before the packet. -/
theorem reseal_foldl {es : List Edit} (place : ∀ e ∈ es, e.place + 2 ≤ o)
    (sums : ∀ e ∈ es, ∀ q ∈ e.sums, q + 2 ≤ o) (length : d.length = d₀.length) :
    h.reseal (es.foldl Edit.apply d) = es.foldl Edit.apply (h.reseal d) := by
  have kept := Edit.drop_foldl place sums d
  have after := (Edit.length_foldl es d).trans length
  rw [reseal_eq laid is after, reseal_eq laid is length, kept]
  exact (Edit.foldl_apply_overwrite (fun e inside => .inl (by have := place e inside; omega))
    (fun e inside q sum => .inl (by have := sums e inside q sum; omega)) d).symm

/-- Edits that do not touch the checksum. -/
theorem reseal_foldl_reseal {es : List Edit}
    (place : ∀ e ∈ es, e.place + 2 ≤ o + 8 ∨ o + 8 + 4 ≤ e.place)
    (sums : ∀ e ∈ es, ∀ q ∈ e.sums, q + 2 ≤ o + 8 ∨ o + 8 + 4 ≤ q)
    (length : d.length = d₀.length) :
    h.reseal (es.foldl Edit.apply (h.reseal d)) = h.reseal (es.foldl Edit.apply d) := by
  have long := packet_inside laid is
  have four := length_sctp ((d.drop o).take (h.networkStop - o))
  rw [reseal_eq laid is length]
  generalize Crc32c.sctp ((d.drop o).take (h.networkStop - o)) = c at four
  have moved := Edit.foldl_apply_overwrite (four.symm ▸ place) (four.symm ▸ sums) d
  have after := (Edit.length_foldl es d).trans length
  generalize es.foldl Edit.apply d = x at moved after
  rw [moved, reseal_eq laid is ((Bytes.length_overwrite ..).trans after),
    reseal_eq laid is after, Bytes.overwrite_overwrite ((length_sctp _).trans four.symm)]
  congr 1
  apply Crc32c.sctp_congr
  · simp only [List.length_take, List.length_drop, Bytes.length_overwrite]
  · rw [List.length_take, List.length_drop, after]
    omega
  · intro i apart
    rw [List.getElem?_take, List.getElem?_take, List.getElem?_drop, List.getElem?_drop,
      Bytes.getElem?_overwrite_of_apart (by omega)]

end

theorem reseal_of_other (other : ∀ o a b p, h.transport ≠ some ⟨o, .sctp a b, p⟩) (d : Bytes) :
    h.reseal d = d := by
  unfold reseal
  split
  · rename_i o a b p is
    exact absurd is (other o a b p)
  · rfl

/-- Everything else lies before an SCTP packet. -/
theorem place?_before (laid : h.Laid d₀) {o : Nat} {a b : BitVec 16} {p : Option Nat}
    (is : h.transport = some ⟨o, .sctp a b, p⟩) {s : Spot} {i : Nat}
    (there : h.place? d₀ s = some i) (other : s.1 ≠ .sctp) : i + 2 ≤ o := by
  obtain ⟨-, c, base, -⟩ := place?_eq_some.mp there
  have here : h.base? d₀ .sctp = some o := base?_of_transport is
  rcases Nat.lt_trichotomy s.1.rank 5 with below | same | above
  · have upto := place?_upto laid there below
    rwa [(transport_between is).1] at upto
  · exact absurd (layer_unique laid base here same) other
  · obtain ⟨m, header⟩ := message_of_rank is above base
    cases header

/-! ## Writes before a place -/

section

variable {o : Nat} (sums : ∀ t ∈ checksums, ∀ i, h.place? d₀ t = some i → i + 2 ≤ o)
include sums

/-- Words before `o`, with checksums that lie there too, leave the bytes from `o` on. -/
theorem drop_script {spots : List (Spot × BitVec 16)}
    (before : ∀ s ∈ spots, ∀ i, h.place? d₀ s.1 = some i → i + 2 ≤ o) (ws : List (BitVec 16)) :
    ((h.script live d₀ spots ws).foldl Edit.apply d).drop o = d.drop o := by
  refine Edit.drop_foldl (fun e made => ?_) (fun e made q isSum => ?_) d
  · obtain ⟨s, listed, there, -⟩ := mem_script made
    exact before s listed e.place there
  · obtain ⟨s, -, -, -, covered⟩ := mem_script made
    rw [covered] at isSum
    obtain ⟨t, covers, there⟩ := List.mem_filterMap.mp isSum
    exact sums t (covering_subset h live s.1 covers) q there

theorem drop_adjust {spots : List Spot} (within : spots ⊆ checksums) (old new : BitVec 16) :
    (FieldWrite.adjust (spots.filterMap (h.place? d₀)) old new d).drop o = d.drop o := by
  apply List.ext_getElem?
  intro i
  rw [List.getElem?_drop, List.getElem?_drop, FieldWrite.getElem?_adjust_of_apart]
  intro p isSum
  obtain ⟨t, listed, there⟩ := List.mem_filterMap.mp isSum
  have := sums t (within listed) p there
  omega

theorem drop_setProtocol (laid : h.Laid d₀)
    (before : ∀ s ∈ protocolSpots, ∀ i, h.place? d₀ s = some i → i + 2 ≤ o) (proto : BitVec 8) :
    (FieldWrite.setProtocol h proto d).drop o = d.drop o := by
  rcases setProtocol_cases (d := d) laid proto with same | ⟨s, byte, w, old, new, changed⟩
  · rw [same]
  · have listed : s.1 ∈ protocolSpots := by rcases byte with is | is <;> simp [is, protocolSpots]
    rw [changed, drop_adjust sums (pseudoSum_subset h _), drop_script sums]
    intro t only
    obtain rfl := List.mem_singleton.mp only
    exact before t.1 listed

end

section

variable (laid : h.Laid d₀) (length : d.length = d₀.length)
include laid length

theorem reseal_edits {f : Field} (other : ¬(f = .sctpSrc ∨ f = .sctpDst)) (v : BitVec f.width) :
    h.reseal ((h.edits live d₀ f v).foldl Edit.apply d) =
      (h.edits live d₀ f v).foldl Edit.apply (h.reseal d) := by
  by_cases sealed : ∃ o a b p, h.transport = some ⟨o, .sctp a b, p⟩
  · obtain ⟨o, a, b, p, is⟩ := sealed
    refine reseal_foldl laid is (fun e made => ?_) (fun e made q isSum => ?_) length
    · obtain ⟨s, listed, there, -⟩ := mem_script made
      exact place?_before laid is there (f.spots_unsealed other s listed)
    · obtain ⟨s, listed, -, -, sums⟩ := mem_script made
      rw [sums] at isSum
      obtain ⟨t, covers, at_⟩ := List.mem_filterMap.mp isSum
      refine place?_before laid is at_ fun same => ?_
      have sum := covering_subset h live s.1 covers
      have plain : ∀ t ∈ checksums, t.1 ≠ .sctp := by decide
      exact plain t sum same
  · simp only [not_exists] at sealed
    rw [reseal_of_other sealed, reseal_of_other sealed]

theorem reseal_edits_reseal (f : Field) (v : BitVec f.width) :
    h.reseal ((h.edits live d₀ f v).foldl Edit.apply (h.reseal d)) =
      h.reseal ((h.edits live d₀ f v).foldl Edit.apply d) := by
  by_cases sealed : ∃ o a b p, h.transport = some ⟨o, .sctp a b, p⟩
  · obtain ⟨o, a, b, p, is⟩ := sealed
    have first : h.place? d₀ (.sctp, 4) = some (o + 8) :=
      place?_of_transport is 4 (show 4 < Layer.sctp.words by decide)
    have second : h.place? d₀ (.sctp, 5) = some (o + 10) :=
      place?_of_transport is 5 (show 5 < Layer.sctp.words by decide)
    have apart {s : Spot} {i : Nat} (there : h.place? d₀ s = some i) (outside : s ∉ sealSpots) :
        i + 2 ≤ o + 8 ∨ o + 8 + 4 ≤ i := by
      simp only [sealSpots, List.mem_cons, List.not_mem_nil, or_false, not_or] at outside
      have before := apart_of_ne laid there first outside.1
      have after := apart_of_ne laid there second outside.2
      unfold Bytes.Apart at before after
      omega
    refine reseal_foldl_reseal laid is (fun e made => ?_) (fun e made q isSum => ?_) length
    · obtain ⟨s, listed, there, -⟩ := mem_script made
      exact apart there (f.spots_outside s listed).2
    · obtain ⟨s, listed, -, -, sums⟩ := mem_script made
      rw [sums] at isSum
      obtain ⟨t, covers, at_⟩ := List.mem_filterMap.mp isSum
      have plain : ∀ t ∈ checksums, t ∉ sealSpots := by decide
      exact apart at_ (plain t (covering_subset h live s.1 covers))
  · simp only [not_exists] at sealed
    rw [reseal_of_other sealed d]

/-- Different fields can be set in any order, apart from those of a tag. -/
theorem put_comm {f g : Field} (ne : f ≠ g) (tag : (f.isTag && g.isTag) = false)
    (v : BitVec f.width) (w : BitVec g.width) :
    h.put live d₀ g w (h.put live d₀ f v d) = h.put live d₀ f v (h.put live d₀ g w d) := by
  have swap (d : Bytes) : (h.edits live d₀ g w).foldl Edit.apply
        ((h.edits live d₀ f v).foldl Edit.apply d) =
      (h.edits live d₀ f v).foldl Edit.apply ((h.edits live d₀ g w).foldl Edit.apply d) :=
    edits_comm laid ne tag v w d
  have first : ((h.edits live d₀ f v).foldl Edit.apply d).length = d₀.length :=
    (Edit.length_foldl ..).trans length
  have second : ((h.edits live d₀ g w).foldl Edit.apply d).length = d₀.length :=
    (Edit.length_foldl ..).trans length
  unfold put resealIf
  by_cases fPort : f = .sctpSrc ∨ f = .sctpDst
  · by_cases gPort : g = .sctpSrc ∨ g = .sctpDst
    · rw [if_pos fPort, if_pos gPort, if_pos fPort, if_pos gPort,
        reseal_edits_reseal laid first, reseal_edits_reseal laid second, swap]
    · rw [if_pos fPort, if_neg gPort, if_pos fPort, if_neg gPort, ← reseal_edits laid first gPort,
        swap]
  · by_cases gPort : g = .sctpSrc ∨ g = .sctpDst
    · rw [if_neg fPort, if_pos gPort, if_neg fPort, if_pos gPort, swap,
        reseal_edits laid second fPort]
    · rw [if_neg fPort, if_neg gPort, if_neg fPort, if_neg gPort, swap]

end

end Headers

end FlowSwitch
