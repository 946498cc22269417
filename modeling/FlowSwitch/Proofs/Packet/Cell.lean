import FlowSwitch.Proofs.Packet.Shape

/-!
# Cells

A cell is some bits of some words of a layer. A script that is spelled for a cell is read back
there, and what is written to other bits leaves the cell as it was.
-/

namespace FlowSwitch

namespace Bytes

variable {d : Bytes} {o n k : Nat}

/-- The `k`th of the `n` words of `x`. -/
def nth (n : Nat) (x : BitVec (8 * (2 * n))) (k : Nat) : BitVec 16 :=
  x.extractLsb' (16 * (n - 1 - k)) 16

theorem getElem?_wordsOf (v : Nat) (small : k < n) :
    (wordsOf n v)[k]? = some (BitVec.ofNat 16 (v >>> (16 * (n - 1 - k)))) := by
  induction n generalizing v with
  | zero => cases small
  | succ n ih =>
    rw [wordsOf]
    by_cases last : k = n
    · subst last
      rw [List.getElem?_append_right (by rw [length_wordsOf]), length_wordsOf, Nat.sub_self,
        Nat.add_sub_cancel, Nat.sub_self]
      rfl
    · have shift : (v / 0x10000) >>> (16 * (n - 1 - k)) = v >>> (16 * (n + 1 - 1 - k)) := by
        have whole : 16 * (n + 1 - 1 - k) = 16 + 16 * (n - 1 - k) := by omega
        rw [whole, Nat.shiftRight_add, Nat.shiftRight_eq_div_pow v 16]
      rw [List.getElem?_append_left (by rw [length_wordsOf]; omega), ih _ (by omega), shift]

theorem getElem?_wordsOf_toNat (x : BitVec (8 * (2 * n))) (small : k < n) :
    (wordsOf n x.toNat)[k]? = some (nth n x k) := by
  rw [getElem?_wordsOf _ small]
  congr 1

theorem getElem?_wordsAt (small : k < n) : (d.wordsAt o n)[k]? = some (d.word 2 (o + 2 * k)) := by
  induction n generalizing o k with
  | zero => cases small
  | succ n ih =>
    cases k with
    | zero => rfl
    | succ k =>
      have shift : o + 2 + 2 * k = o + 2 * (k + 1) := by omega
      rw [wordsAt, List.getElem?_cons_succ, ih (Nat.lt_of_succ_lt_succ small), shift]

/-- The words of a number that is read are those that are read where they stand. -/
theorem nth_word (fits : o + 2 * n ≤ d.length) (small : k < n) :
    nth n (d.word (2 * n) o) k = d.word 2 (o + 2 * k) := by
  have spelled : ofWords (wordsOf n (d.word (2 * n) o).toNat) = ofWords (d.wordsAt o n) := by
    have slice := slice?_eq fits
    rw [slice?, if_pos fits] at slice
    rw [← ofWord_eq, ofWord_word fits, Option.some.inj slice]
  have words := congrArg toWords spelled
  rw [toWords_ofWords, toWords_ofWords] at words
  have here := getElem?_wordsOf_toNat (d.word (2 * n) o) small
  rw [words, getElem?_wordsAt small] at here
  exact (Option.some.inj here).symm

end Bytes

/-- Bits from number `start` on, counted from the last one, of `count` words of a layer from the
word `first` on. -/
structure Cell where
  layer : Layer
  first : Nat
  count : Nat
  start : Nat
  deriving DecidableEq, Repr

namespace Cell

open Bytes (nth wordsOf)

variable {c : Cell} {n : Nat}

/-- The `n` bits of the cell in a frame that has the layer at `b`. -/
def value (c : Cell) (n : Nat) (d : Bytes) (b : Nat) : BitVec n :=
  (d.word (2 * c.count) (b + 2 * c.first)).extractLsb' c.start n

/-- The bits of the cell in its `k`th word. -/
def mask (c : Cell) (n k : Nat) : BitVec 16 :=
  nth c.count ((BitVec.allOnes n).setWidth (8 * (2 * c.count)) <<< c.start) k

/-- The words of the cell, each with the bits that are its own. -/
def spots (c : Cell) (n : Nat) : List (Spot × BitVec 16) :=
  (List.range c.count).map fun k => ((c.layer, c.first + k), c.mask n k)

/-- The cell lies in words that its layer always has, and none of them is a checksum. -/
def Sound (c : Cell) (n : Nat) : Prop :=
  c.start + n ≤ 16 * c.count ∧ c.first + c.count ≤ c.layer.words ∧
    ∀ k < c.count, (c.layer, c.first + k) ∉ Headers.checksums ∧
      (c.layer, c.first + k) ∉ Headers.sealSpots

instance (c : Cell) (n : Nat) : Decidable (c.Sound n) := inferInstanceAs (Decidable (_ ∧ _ ∧ _))

/-- Numbers whose words agree in the bits of the cell have the same bits there. -/
theorem extractLsb'_congr {x y : BitVec (8 * (2 * c.count))} (room : c.start + n ≤ 16 * c.count)
    (same : ∀ k < c.count, nth c.count x k &&& c.mask n k = nth c.count y k &&& c.mask n k) :
    x.extractLsb' c.start n = y.extractLsb' c.start n := by
  apply BitVec.eq_of_getLsbD_eq
  intro i below
  have word : (c.start + i) / 16 < c.count := by omega
  have place : 16 * (c.count - 1 - (c.count - 1 - (c.start + i) / 16)) + (c.start + i) % 16 =
      c.start + i := by omega
  have bit := congrArg (·.getLsbD ((c.start + i) % 16))
    (same (c.count - 1 - (c.start + i) / 16) (by omega))
  have rest : (c.start + i) % 16 < 16 := Nat.mod_lt _ (by decide)
  have inside : c.start + i < 8 * (2 * c.count) := by omega
  simp only [BitVec.getLsbD_and, mask, nth, BitVec.getLsbD_extractLsb', place, rest, decide_true,
    Bool.true_and, BitVec.getLsbD_shiftLeft, BitVec.getLsbD_setWidth, BitVec.getLsbD_allOnes,
    inside, Nat.not_lt.mpr (Nat.le_add_right c.start i), decide_false, Bool.not_false,
    Nat.add_sub_cancel_left, below, Bool.and_true] at bit
  have within : i < 8 * (2 * c.count) := by omega
  simp only [within, decide_true, Bool.and_true] at bit
  simpa only [BitVec.getLsbD_extractLsb', below, decide_true, Bool.true_and] using bit

/-- Writing `ws` to some words gives the cell the bits `y`. -/
def Spelled (c : Cell) (spots : List (Spot × BitVec 16)) (ws : List (BitVec 16)) (y : BitVec n) :
    Prop :=
  ∃ x : BitVec (8 * (2 * c.count)), x.extractLsb' c.start n = y ∧ ∀ k < c.count, ∃ mask,
    (((c.layer, c.first + k), mask), nth c.count x k) ∈ spots.zip ws ∧
      mask &&& c.mask n k = c.mask n k

variable {l : Layer} {first start : Nat}

theorem getElem?_whole {k : Nat} (small : k < n) :
    (Field.whole l first n)[k]? = some ((l, first + k), 0xffff) := by
  induction n generalizing first k with
  | zero => cases small
  | succ n ih =>
    cases k with
    | zero => rfl
    | succ k =>
      have shift : first + 1 + k = first + (k + 1) := by omega
      rw [Field.whole, List.getElem?_cons_succ, ih (Nat.lt_of_succ_lt_succ small), shift]

theorem spelled_whole (v : BitVec (8 * (2 * n))) :
    Spelled ⟨l, first, n, 0⟩ (Field.whole l first n) (wordsOf n v.toNat)
      (v.setWidth (8 * (2 * n))) := by
  refine ⟨v, ?_, fun k small => ⟨0xffff, ?_, BitVec.allOnes_and⟩⟩
  · rw [BitVec.extractLsb'_eq_self, BitVec.setWidth_eq]
  · refine List.mem_of_getElem? (i := k) ?_
    rw [List.getElem?_zip_eq_some]
    exact ⟨getElem?_whole small, Bytes.getElem?_wordsOf_toNat v small⟩

theorem spelled_word {spots : List (Spot × BitVec 16)} {ws : List (BitVec 16)}
    {m w : BitVec 16} (listed : (((l, first), m), w) ∈ spots.zip ws)
    (under : m &&& mask ⟨l, first, 1, start⟩ n 0 = mask ⟨l, first, 1, start⟩ n 0) :
    Spelled ⟨l, first, 1, start⟩ spots ws (w.extractLsb' start n) := by
  refine ⟨w, rfl, fun k small => ?_⟩
  obtain rfl := Nat.lt_one_iff.mp small
  refine ⟨m, ?_, under⟩
  have whole : nth 1 w 0 = w := BitVec.extractLsb'_eq_self
  rwa [whole]

theorem spelled_halves {m m' : BitVec 16} (v : BitVec 32)
    (high : m &&& mask ⟨l, 0, 2, start⟩ n 0 = mask ⟨l, 0, 2, start⟩ n 0)
    (low : m' &&& mask ⟨l, 0, 2, start⟩ n 1 = mask ⟨l, 0, 2, start⟩ n 1) :
    Spelled ⟨l, 0, 2, start⟩ [((l, 0), m), ((l, 1), m')] (FieldWrite.halves v)
      (v.extractLsb' start n) := by
  refine ⟨v, rfl, fun k small => ?_⟩
  match k, small with
  | 0, _ => exact ⟨m, List.mem_cons_self, high⟩
  | 1, _ => exact ⟨m', List.mem_cons_of_mem _ List.mem_cons_self, low⟩

theorem Spelled.cons {spots : List (Spot × BitVec 16)} {ws : List (BitVec 16)} {y : BitVec n}
    (spelled : c.Spelled spots ws y) (s : Spot × BitVec 16) (w : BitVec 16) :
    c.Spelled (s :: spots) (w :: ws) y := by
  obtain ⟨x, bits, listed⟩ := spelled
  refine ⟨x, bits, fun k small => ?_⟩
  obtain ⟨m, here, under⟩ := listed k small
  exact ⟨m, List.mem_cons_of_mem _ here, under⟩

end Cell

namespace Headers

open Bytes (nth wordsOf)

variable {h : Headers} {d₀ d d' : Bytes} {c : Cell} {n b : Nat}

/-- What a script writes to a word is found there, unless a later write is to the same word. -/
theorem word_script_self (laid : h.Laid d₀) (live : Bool) (length : d.length = d₀.length)
    {s : Spot} {p : Nat} (there : h.place? d₀ s = some p) (outside : s ∉ checksums)
    {spots : List (Spot × BitVec 16)} {ws : List (BitVec 16)} {mask w : BitVec 16}
    (distinct : (spots.map (·.1)).Nodup) (listed : ((s, mask), w) ∈ spots.zip ws) :
    ((h.script live d₀ spots ws).foldl Edit.apply d).word 2 p &&& mask = w &&& mask := by
  induction spots generalizing ws d with
  | nil => cases listed
  | cons t spots ih =>
    cases ws with
    | nil => cases listed
    | cons v ws =>
      rw [List.map_cons, List.nodup_cons] at distinct
      obtain ⟨apart, distinct⟩ := distinct
      have split : h.script live d₀ (t :: spots) (v :: ws) =
          (h.edit? live d₀ (t, v)).toList ++ h.script live d₀ spots ws := by
        rw [script, List.zip_cons_cons, List.filterMap_cons, script]
        cases h.edit? live d₀ (t, v) <;> rfl
      have same : (((h.edit? live d₀ (t, v)).toList).foldl Edit.apply d).length = d₀.length := by
        rw [Edit.length_foldl, length]
      rw [split, List.foldl_append]
      rcases List.mem_cons.mp listed with first | later
      · obtain ⟨rfl, rfl⟩ := Prod.mk.inj first
        have later (x : Bytes) :
            ((h.script live d₀ spots ws).foldl Edit.apply x).word 2 p &&& BitVec.allOnes 16 =
              x.word 2 p &&& BitVec.allOnes 16 :=
          word_script laid there outside
            (fun t inside is => absurd (List.mem_map.mpr ⟨t, inside, is⟩) apart) live ws
        simp only [BitVec.and_allOnes] at later
        have made : h.edit? live d₀ ((s, mask), w) =
            some ⟨p, mask, w, (h.covering live s).filterMap (h.place? d₀)⟩ := by
          rw [edit?, there, Option.map_some]
        have fits := place?_fits laid there
        obtain ⟨old, here⟩ := Option.isSome_iff_exists.mp
          (Bytes.word?_isSome.mpr (show p + 2 ≤ d.length by omega))
        rw [later, made, Option.toList_some, List.foldl_cons, List.foldl_nil, Bytes.word,
          Edit.word?_apply_self (apart_of_covering laid live there outside), here,
          Option.map_some, Option.getD_some, Edit.becomes_and_mask]
      · exact ih same distinct later

/-- A cell reads as what was written to its words. -/
theorem value_of_words (laid : h.Laid d₀) (length : d'.length = d₀.length) (sound : c.Sound n)
    (there : h.base? d₀ c.layer = some b) {x : BitVec (8 * (2 * c.count))}
    (same : ∀ k < c.count, d'.word 2 (b + 2 * (c.first + k)) &&& c.mask n k =
      nth c.count x k &&& c.mask n k) :
    c.value n d' b = x.extractLsb' c.start n := by
  have inside := base?_fits laid there
  obtain ⟨room, fits, -⟩ := sound
  refine Cell.extractLsb'_congr room fun k small => ?_
  have place : b + 2 * c.first + 2 * k = b + 2 * (c.first + k) := by omega
  rw [Bytes.nth_word (by omega) small, place]
  exact same k small

/-- A cell keeps its bits where its words do. -/
theorem value_congr (laid : h.Laid d₀) (length : d.length = d₀.length)
    (length' : d'.length = d₀.length) (sound : c.Sound n) (there : h.base? d₀ c.layer = some b)
    (same : ∀ k < c.count, ∀ p, h.place? d₀ (c.layer, c.first + k) = some p →
      d'.word 2 p &&& c.mask n k = d.word 2 p &&& c.mask n k) :
    c.value n d' b = c.value n d b := by
  have inside := base?_fits laid there
  have fits := sound.2.1
  refine value_of_words laid length' sound there fun k small => ?_
  have place : b + 2 * c.first + 2 * k = b + 2 * (c.first + k) := by omega
  rw [Bytes.nth_word (by omega) small, place]
  exact same k small _ (place?_of_base? there (by omega))

/-- What a script spells in a cell is read there. -/
theorem value_script (laid : h.Laid d₀) (live : Bool) (length : d.length = d₀.length)
    (sound : c.Sound n) (there : h.base? d₀ c.layer = some b) {spots : List (Spot × BitVec 16)}
    {ws : List (BitVec 16)} (distinct : (spots.map (·.1)).Nodup) {y : BitVec n}
    (spelled : c.Spelled spots ws y) :
    c.value n ((h.script live d₀ spots ws).foldl Edit.apply d) b = y := by
  obtain ⟨x, rfl, listed⟩ := spelled
  refine value_of_words laid ((Edit.length_foldl ..).trans length) sound there fun k small => ?_
  obtain ⟨mask, listed, under⟩ := listed k small
  have fits := sound.2.1
  have word := word_script_self laid live length
    (place?_of_base? there (show c.first + k < c.layer.words by omega)) (sound.2.2 k small).1
    distinct listed
  have masked := congrArg (· &&& c.mask n k) word
  simpa only [BitVec.and_assoc, under] using masked

end Headers

end FlowSwitch
