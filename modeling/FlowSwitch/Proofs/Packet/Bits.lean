import FlowSwitch.Proofs.Packet.Edits

/-!
# Fields of a word

A field of a word is `b` bits of it from bit `k` on. It is written by a shift and read by a shift
and a mask, or by taking the bits; here the three are brought to the last form.
-/

namespace FlowSwitch.Bytes

/-! ## Written -/

/-- A field is found where its value was shifted to. -/
theorem extractLsb'_shiftLeft {n k j b : Nat} (v : BitVec n) (fits : k + j + b ≤ n) :
    (v <<< k).extractLsb' (k + j) b = v.extractLsb' j b := by
  apply BitVec.eq_of_getLsbD_eq
  intro i below
  have inside : k + j + i < n := by omega
  have past : ¬k + j + i < k := by omega
  have back : k + j + i - k = j + i := by omega
  simp only [BitVec.getLsbD_extractLsb', BitVec.getLsbD_shiftLeft, below, inside, past, back,
    decide_true, decide_false, Bool.not_false, Bool.true_and]

theorem extractLsb'_shiftLeft_self {n k b : Nat} (v : BitVec n) (fits : k + b ≤ n) :
    (v <<< k).extractLsb' k b = v.setWidth b :=
  calc (v <<< k).extractLsb' k b
      = v.extractLsb' 0 b := extractLsb'_shiftLeft (j := 0) v fits
    _ = v.setWidth b := (BitVec.setWidth_eq_extractLsb' (by omega)).symm

theorem extractLsb'_zero_setWidth {w n b : Nat} (v : BitVec w) (fits : b ≤ n) (short : b ≤ w) :
    (v.setWidth n).extractLsb' 0 b = v.setWidth b :=
  calc (v.setWidth n).extractLsb' 0 b
      = v.extractLsb' 0 b := BitVec.extractLsb'_setWidth_of_le (by omega)
    _ = v.setWidth b := (BitVec.setWidth_eq_extractLsb' short).symm

/-- The value may be narrower than the word. -/
theorem extractLsb'_setWidth_shiftLeft {w n k b : Nat} (v : BitVec w) (fits : k + b ≤ n) :
    (v.setWidth n <<< k).extractLsb' k b = v.setWidth b :=
  calc (v.setWidth n <<< k).extractLsb' k b
      = (v.setWidth n).setWidth b := extractLsb'_shiftLeft_self _ fits
    _ = v.setWidth b := BitVec.setWidth_setWidth_of_le v (by omega)

/-! ## Read -/

theorem extractLsb'_extractLsb' {w m s j b : Nat} (x : BitVec w) (fits : j + b ≤ m) :
    (x.extractLsb' s m).extractLsb' j b = x.extractLsb' (s + j) b := by
  apply BitVec.eq_of_getLsbD_eq
  intro i below
  have small : j + i < m := by omega
  simp only [BitVec.getLsbD_extractLsb', Nat.add_assoc, below, small, decide_true, Bool.true_and]

theorem extractLsb'_ushiftRight {w n v s : Nat} (x : BitVec w) (le : n ≤ v) :
    ((x >>> s).setWidth v).extractLsb' 0 n = x.extractLsb' s n := by
  apply BitVec.eq_of_getLsbD_eq
  intro i below
  have small : i < v := Nat.lt_of_lt_of_le below le
  simp only [BitVec.getLsbD_extractLsb', BitVec.getLsbD_setWidth, BitVec.getLsbD_ushiftRight,
    Nat.zero_add, below, small, decide_true, Bool.true_and]

theorem ushiftRight_setWidth {w n v s : Nat} (x : BitVec w) (last : w = s + n) :
    (x >>> s).setWidth v = (x.extractLsb' s n).setWidth v := by
  apply BitVec.eq_of_getLsbD_eq
  intro i below
  simp only [BitVec.getLsbD_setWidth, BitVec.getLsbD_extractLsb', BitVec.getLsbD_ushiftRight,
    below, decide_true, Bool.true_and]
  by_cases small : i < n
  · rw [decide_eq_true small, Bool.true_and]
  · rw [BitVec.getLsbD_of_ge _ _ (by omega), decide_eq_false small, Bool.false_and]

theorem and_of_ones {w n : Nat} {m : BitVec w} (x : BitVec w)
    (ones : (BitVec.allOnes n).setWidth w = m) : x &&& m = (x.extractLsb' 0 n).setWidth w := by
  subst ones
  apply BitVec.eq_of_getLsbD_eq
  intro i below
  simp only [BitVec.getLsbD_and, BitVec.getLsbD_setWidth, BitVec.getLsbD_allOnes,
    BitVec.getLsbD_extractLsb', below, decide_true, Bool.true_and, Nat.zero_add]
  exact Bool.and_comm ..

theorem ushiftRight_and {w n v s : Nat} {m : BitVec w} (x : BitVec w)
    (ones : (BitVec.allOnes n).setWidth w = m) :
    ((x >>> s) &&& m).setWidth v = (x.extractLsb' s n).setWidth v := by
  rw [and_of_ones _ ones]
  apply BitVec.eq_of_getLsbD_eq
  intro i below
  simp only [BitVec.getLsbD_setWidth, BitVec.getLsbD_extractLsb', BitVec.getLsbD_ushiftRight,
    below, decide_true, Bool.true_and, Nat.zero_add]
  by_cases small : i < w
  · rw [decide_eq_true small, Bool.true_and]
  · rw [BitVec.getLsbD_of_ge x (s + i) (by omega), Bool.and_false, Bool.and_false]

end FlowSwitch.Bytes
