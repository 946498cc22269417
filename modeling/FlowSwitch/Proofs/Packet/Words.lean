import FlowSwitch.Packet.FieldWrite
import Mathlib.Algebra.Group.Nat.Defs

/-!
# Words of a frame

A frame is written in words of 16 bits. What was written is read back, words that do not
overlap do not disturb each other, and nothing is written past the end.
-/

namespace FlowSwitch

namespace Bytes

variable {d : Bytes} {o i : Nat} {s : Bytes} {w : BitVec 16}

/-! ## Bytes that are overwritten -/

theorem getElem?_overwrite (fits : o + s.length ≤ d.length) :
    (d.overwrite o s)[i]? = if o ≤ i ∧ i < o + s.length then s[i - o]? else d[i]? := by
  have whole : d.overwrite o s = d.take o ++ s ++ d.drop (o + s.length) := by
    simp [overwrite, overwrite?, fits]
  have before : (d.take o).length = o := by simp; omega
  rw [whole, List.append_assoc]
  by_cases left : i < o
  · rw [List.getElem?_append_left (by omega), List.getElem?_take, if_pos left, if_neg (by omega)]
  · rw [List.getElem?_append_right (by omega), before]
    by_cases inside : i < o + s.length
    · rw [List.getElem?_append_left (by omega), if_pos (by omega)]
    · rw [List.getElem?_append_right (by omega), List.getElem?_drop, if_neg (by omega)]
      congr 1
      omega

theorem overwrite_of_short (short : d.length < o + s.length) : d.overwrite o s = d := by
  simp [overwrite, overwrite?, Nat.not_le.mpr short]

theorem getElem?_overwrite_of_apart (apart : i < o ∨ o + s.length ≤ i) :
    (d.overwrite o s)[i]? = d[i]? := by
  by_cases fits : o + s.length ≤ d.length
  · rw [getElem?_overwrite fits, if_neg (by omega)]
  · rw [overwrite_of_short (Nat.lt_of_not_le fits)]

theorem overwrite_comm {o' : Nat} {s' : Bytes}
    (apart : o + s.length ≤ o' ∨ o' + s'.length ≤ o) :
    (d.overwrite o s).overwrite o' s' = (d.overwrite o' s').overwrite o s := by
  by_cases fits : o + s.length ≤ d.length
  · by_cases fits' : o' + s'.length ≤ d.length
    · apply List.ext_getElem?
      intro i
      by_cases inside : o ≤ i ∧ i < o + s.length
      · rw [getElem?_overwrite_of_apart (o := o') (by omega), getElem?_overwrite fits,
          getElem?_overwrite (by rwa [length_overwrite]), if_pos inside, if_pos inside]
      · rw [getElem?_overwrite_of_apart (o := o) (d := d.overwrite o' s') (by omega),
          getElem?_overwrite (by rwa [length_overwrite]), getElem?_overwrite fits',
          getElem?_overwrite_of_apart (o := o) (by omega)]
    · have short := Nat.lt_of_not_le fits'
      have also : (d.overwrite o s).length < o' + s'.length := by rwa [length_overwrite]
      rw [overwrite_of_short short, overwrite_of_short also]
  · have short := Nat.lt_of_not_le fits
    have also : (d.overwrite o' s').length < o + s.length := by rwa [length_overwrite]
    rw [overwrite_of_short short, overwrite_of_short also]

/-- The second of two writes to the same bytes wins. -/
theorem overwrite_overwrite {s' : Bytes} (length : s'.length = s.length) :
    (d.overwrite o s).overwrite o s' = d.overwrite o s' := by
  by_cases fits : o + s.length ≤ d.length
  · apply List.ext_getElem?
    intro i
    rw [getElem?_overwrite (by rw [length_overwrite]; omega), getElem?_overwrite fits,
      getElem?_overwrite (by omega), length]
    split
    · rfl
    · rfl
  · rw [overwrite_of_short (s := s) (by omega)]

theorem getElem?_of_drop {d' : Bytes} (same : d'.drop o = d.drop o) (behind : o ≤ i) :
    d'[i]? = d[i]? := by
  have same := congrArg (·[i - o]?) same
  simpa [List.getElem?_drop, behind] using same

/-! ## Words -/

theorem word?_fits {n : Nat} {v : BitVec (8 * n)} (there : d.word? n o = some v) :
    o + n ≤ d.length := Nat.le_of_not_lt fun short => by
  simp [word?, slice?, Nat.not_le.mpr short] at there

@[simp]
theorem length_ofWord (n : Nat) (w : BitVec (8 * n)) : (ofWord n w).length = n := length_ofNat ..

/-- The bytes of a word. -/
def high (w : BitVec 16) : UInt8 := ⟨w.extractLsb' 8 8⟩

def low (w : BitVec 16) : UInt8 := ⟨w.extractLsb' 0 8⟩

theorem toNat_high (w : BitVec 16) : (high w).toNat = w.toNat / 256 := by
  have small := w.isLt
  show (w.extractLsb' 8 8).toNat = _
  rw [BitVec.extractLsb'_toNat, Nat.shiftRight_eq_div_pow]
  omega

theorem toNat_low (w : BitVec 16) : (low w).toNat = w.toNat % 256 := by
  show (w.extractLsb' 0 8).toNat = _
  rw [BitVec.extractLsb'_toNat]
  simp

theorem ofWord_two (w : BitVec 16) : ofWord 2 w = [high w, low w] := by
  have hi : (w.toNat / 256).toUInt8 = high w := by
    apply UInt8.toNat_inj.mp
    have small := w.isLt
    rw [toNat_high, Nat.toUInt8_eq, UInt8.toNat_ofNat']
    omega
  have lo : w.toNat.toUInt8 = low w := by
    apply UInt8.toNat_inj.mp
    rw [toNat_low, Nat.toUInt8_eq, UInt8.toNat_ofNat']
  simp only [ofWord, ofNat, List.nil_append, List.singleton_append, hi, lo]

theorem append_high_low (w : BitVec 16) : (high w).toBitVec ++ (low w).toBitVec = w := by
  apply BitVec.eq_of_getLsbD_eq
  intro i below
  simp only [high, low, BitVec.getLsbD_append, BitVec.getLsbD_extractLsb']
  by_cases small : i < 8
  · simp [small]
  · have rest : 8 + (i - 8) = i := by omega
    have few : i - 8 < 8 := by omega
    simp [small, few, rest]

theorem toNat_append (hi lo : UInt8) :
    (hi.toBitVec ++ lo.toBitVec).toNat = hi.toNat * 256 + lo.toNat := by
  rw [BitVec.toNat_append, ← Nat.shiftLeft_add_eq_or_of_lt lo.toBitVec.isLt, Nat.shiftLeft_eq]
  rfl

theorem high_append (hi lo : UInt8) : high (hi.toBitVec ++ lo.toBitVec) = hi := by
  apply UInt8.toNat_inj.mp
  have small := lo.toNat_lt
  rw [toNat_high, toNat_append]
  omega

theorem low_append (hi lo : UInt8) : low (hi.toBitVec ++ lo.toBitVec) = lo := by
  apply UInt8.toNat_inj.mp
  have small := lo.toNat_lt
  rw [toNat_low, toNat_append]
  omega

theorem word?_two (d : Bytes) (o : Nat) :
    d.word? 2 o = (d[o]?).bind fun hi => (d[o + 1]?).map fun lo => hi.toBitVec ++ lo.toBitVec := by
  unfold word? slice?
  by_cases fits : o + 2 ≤ d.length
  · have spelled : (d.drop o).take 2 = [d[o], d[o + 1]] := by
      rw [List.drop_eq_getElem_cons (by omega), List.take_succ_cons,
        List.drop_eq_getElem_cons (by omega), List.take_succ_cons, List.take_zero]
    rw [if_pos fits, Option.map_some, spelled, List.getElem?_eq_getElem (by omega),
      List.getElem?_eq_getElem (by omega), Option.bind_some, Option.map_some, Option.some.injEq]
    apply BitVec.eq_of_toNat_eq
    rw [toNat_append, BitVec.toNat_ofNat]
    have first := d[o].toNat_lt
    have second := d[o + 1].toNat_lt
    simp only [toNat, List.foldl_cons, List.foldl_nil]
    omega
  · rw [if_neg fits, Option.map_none, List.getElem?_eq_none (by omega : d.length ≤ o + 1)]
    cases d[o]? <;> rfl

theorem word?_isSome : (d.word? 2 o).isSome = true ↔ o + 2 ≤ d.length := by
  simp [word?, slice?]

theorem word?_eq_none : d.word? 2 o = none ↔ d.length < o + 2 := by
  simp [word?, slice?]

theorem word_of_word? {n : Nat} {x : BitVec (8 * n)} (there : d.word? n o = some x) :
    d.word n o = x := by
  rw [word, there]
  rfl

theorem getElem?_of_word? (there : d.word? 2 o = some w) :
    d[o]? = some (high w) ∧ d[o + 1]? = some (low w) := by
  rw [word?_two] at there
  obtain ⟨hi, first, rest⟩ := Option.bind_eq_some_iff.mp there
  obtain ⟨lo, second, rfl⟩ := Option.map_eq_some_iff.mp rest
  rw [high_append, low_append]
  exact ⟨first, second⟩

theorem getElem?_of_word (fits : o + 2 ≤ d.length) :
    d[o]? = some (high (d.word 2 o)) ∧ d[o + 1]? = some (low (d.word 2 o)) := by
  obtain ⟨w, there⟩ := Option.isSome_iff_exists.mp (word?_isSome.mpr fits)
  rw [word_of_word? there]
  exact getElem?_of_word? there

theorem byte_eq_extract (fits : o + 2 ≤ d.length) : d.byte o = (d.word 2 o).extractLsb' 8 8 := by
  rw [byte, (getElem?_of_word fits).1]
  rfl

theorem byte_succ_eq_extract (fits : o + 2 ≤ d.length) :
    d.byte (o + 1) = (d.word 2 o).extractLsb' 0 8 := by
  rw [byte, (getElem?_of_word fits).2]
  rfl

theorem getElem?_of_byte (inside : i < d.length) : d[i]? = some ⟨d.byte i⟩ := by
  rw [byte, List.getElem?_eq_getElem inside]
  rfl

/-- Bits of the first byte of a word are told by bits of the word. -/
theorem byte_and_congr {d' : Bytes} {kept : BitVec 16} (fits : o + 2 ≤ d.length)
    (length : d'.length = d.length) (same : d'.word 2 o &&& kept = d.word 2 o &&& kept) :
    d'.byte o &&& kept.extractLsb' 8 8 = d.byte o &&& kept.extractLsb' 8 8 := by
  rw [byte_eq_extract fits, byte_eq_extract (by rw [length]; exact fits), ← BitVec.extractLsb'_and,
    ← BitVec.extractLsb'_and]
  exact congrArg _ same

/-- The first byte of a word is told by the high bits of the word. -/
theorem byte_congr_of_word {d' : Bytes} (fits : o + 2 ≤ d.length) (length : d'.length = d.length)
    (same : d'.word 2 o &&& 0xff00 = d.word 2 o &&& 0xff00) : d'.byte o = d.byte o := by
  have masked := byte_and_congr fits length same
  have all : (0xff00 : BitVec 16).extractLsb' 8 8 = BitVec.allOnes 8 := by decide
  rwa [all, BitVec.and_allOnes, BitVec.and_allOnes] at masked

/-- The second byte of a word is told by the low bits of the word. -/
theorem byte_succ_congr_of_word {d' : Bytes} (fits : o + 2 ≤ d.length)
    (length : d'.length = d.length) (same : d'.word 2 o &&& 0x00ff = d.word 2 o &&& 0x00ff) :
    d'.byte (o + 1) = d.byte (o + 1) := by
  have masked := congrArg (·.extractLsb' 0 8) same
  have all : (0x00ff : BitVec 16).extractLsb' 0 8 = BitVec.allOnes 8 := by decide
  simp only [BitVec.extractLsb'_and, all, BitVec.and_allOnes] at masked
  rw [byte_succ_eq_extract fits, byte_succ_eq_extract (by rw [length]; exact fits), masked]

/-! ## Numbers of any size -/

theorem toNat_concat (s : Bytes) (b : UInt8) : toNat (s ++ [b]) = toNat s * 256 + b.toNat := by
  rw [toNat, List.foldl_append]
  rfl

theorem toNat_lt (s : Bytes) : toNat s < 2 ^ (8 * s.length) := by
  rw [← List.reverse_reverse s]
  induction s.reverse with
  | nil => decide
  | cons b s ih =>
    have small := b.toNat_lt
    rw [List.reverse_cons, toNat_concat, List.length_append, List.length_singleton, Nat.mul_add,
      Nat.pow_add]
    omega

theorem ofNat_toNat (s : Bytes) : ofNat s.length (toNat s) = s := by
  rw [← List.reverse_reverse s]
  induction s.reverse with
  | nil => rfl
  | cons b s ih =>
    have small := b.toNat_lt
    have front : (toNat s.reverse * 256 + b.toNat) / 256 = toNat s.reverse := by omega
    have last : (toNat s.reverse * 256 + b.toNat).toUInt8 = b := by
      apply UInt8.toNat_inj.mp
      rw [Nat.toUInt8_eq, UInt8.toNat_ofNat']
      omega
    rw [List.reverse_cons, toNat_concat, List.length_append, List.length_singleton, ofNat, front,
      last, ih]

/-- Spelling a word that was read gives the bytes it was read from. -/
theorem ofWord_word {n : Nat} (fits : o + n ≤ d.length) :
    ofWord n (d.word n o) = (d.drop o).take n := by
  have length : ((d.drop o).take n).length = n := by
    rw [List.length_take, List.length_drop]
    omega
  have small := toNat_lt ((d.drop o).take n)
  rw [length] at small
  rw [word, word?, slice?, if_pos fits, Option.map_some, Option.getD_some, ofWord,
    BitVec.toNat_ofNat, Nat.mod_eq_of_lt small]
  have spelled := ofNat_toNat ((d.drop o).take n)
  rwa [length] at spelled

/-- Replaces the word at `o`. -/
def setWord (d : Bytes) (o : Nat) (w : BitVec 16) : Bytes := d.overwrite o (ofWord 2 w)

@[simp]
theorem length_setWord (d : Bytes) (o : Nat) (w : BitVec 16) : (d.setWord o w).length = d.length :=
  d.length_overwrite o _

theorem setWord_of_short (short : d.length < o + 2) : d.setWord o w = d :=
  overwrite_of_short (by simpa [ofWord_two] using short)

theorem getElem?_setWord (fits : o + 2 ≤ d.length) :
    (d.setWord o w)[i]?
      = if i = o then some (high w) else if i = o + 1 then some (low w) else d[i]? := by
  rw [setWord, ofWord_two, getElem?_overwrite (by simpa using fits)]
  by_cases first : i = o
  · subst first
    simp
  · by_cases second : i = o + 1
    · subst second
      simp
    · rw [if_neg first, if_neg second, if_neg]
      simp
      omega

theorem getElem?_setWord_of_apart (apart : i < o ∨ o + 2 ≤ i) : (d.setWord o w)[i]? = d[i]? := by
  by_cases fits : o + 2 ≤ d.length
  · rw [getElem?_setWord fits, if_neg (by omega), if_neg (by omega)]
  · rw [setWord_of_short (by omega)]

theorem word?_setWord_self (fits : o + 2 ≤ d.length) : (d.setWord o w).word? 2 o = some w := by
  rw [word?_two, getElem?_setWord fits, getElem?_setWord fits, if_pos rfl, if_neg (by omega),
    if_pos rfl, Option.bind_some, Option.map_some, append_high_low]

/-- Two words do not overlap. -/
def Apart (o o' : Nat) : Prop := o + 2 ≤ o' ∨ o' + 2 ≤ o

theorem Apart.symm {o o' : Nat} (apart : Apart o o') : Apart o' o := Or.symm apart

theorem word?_overwrite_of_apart {o' : Nat} (apart : o' + 2 ≤ o ∨ o + s.length ≤ o') :
    (d.overwrite o s).word? 2 o' = d.word? 2 o' := by
  rw [word?_two, word?_two, getElem?_overwrite_of_apart (by omega),
    getElem?_overwrite_of_apart (by omega)]

theorem word?_setWord_of_apart {o' : Nat} (apart : Apart o o') :
    (d.setWord o w).word? 2 o' = d.word? 2 o' :=
  word?_overwrite_of_apart (by rw [length_ofWord]; exact apart.symm)

theorem setWord_setWord (d : Bytes) (o : Nat) (w w' : BitVec 16) :
    (d.setWord o w).setWord o w' = d.setWord o w' :=
  overwrite_overwrite (by rw [length_ofWord, length_ofWord])

theorem setWord_comm {o' : Nat} (apart : Apart o o') (w w' : BitVec 16) :
    (d.setWord o w).setWord o' w' = (d.setWord o' w').setWord o w :=
  overwrite_comm (by rwa [length_ofWord, length_ofWord])

/-- Writing a word that is there changes nothing. -/
theorem setWord_self (there : d.word? 2 o = some w) : d.setWord o w = d := by
  have fits : o + 2 ≤ d.length := word?_isSome.mp (by rw [there]; rfl)
  apply List.ext_getElem?
  intro i
  have spelled := getElem?_of_word? there
  rw [getElem?_setWord fits]
  split
  · rename_i here
    rw [here, spelled.1]
  · split
    · rename_i here
      rw [here, spelled.2]
    · rfl

end Bytes

end FlowSwitch
