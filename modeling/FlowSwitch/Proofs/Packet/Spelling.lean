import FlowSwitch.Proofs.Packet.Words

/-!
# Reading what was spelled

Words that stand one after the other are read one after the other: whoever reads the first of them
finds the others right behind it.
-/

namespace FlowSwitch

namespace Bytes

theorem toNat_ofNat (n v : Nat) : toNat (ofNat n v) = v % 2 ^ (8 * n) := by
  induction n generalizing v with
  | zero => exact (Nat.mod_one v).symm
  | succ n ih =>
    have split : 2 ^ (8 * (n + 1)) = 256 * 2 ^ (8 * n) := by
      rw [Nat.mul_succ, Nat.pow_add]
      exact Nat.mul_comm ..
    rw [ofNat, toNat_concat, ih, Nat.toUInt8_eq, UInt8.toNat_ofNat', split, Nat.mod_mul]
    omega

theorem ofWord_inj {n : Nat} {v w : BitVec (8 * n)} (same : ofWord n v = ofWord n w) : v = w := by
  apply BitVec.eq_of_toNat_eq
  have same : toNat (ofNat n v.toNat) = toNat (ofNat n w.toNat) := congrArg toNat same
  rwa [toNat_ofNat, toNat_ofNat, Nat.mod_eq_of_lt v.isLt, Nat.mod_eq_of_lt w.isLt] at same

theorem ofWord_one (w : BitVec 8) : ofWord 1 w = [⟨w⟩] := by
  have same : w.toNat.toUInt8 = ⟨w⟩ := by
    apply UInt8.toNat_inj.mp
    rw [Nat.toUInt8_eq, UInt8.toNat_ofNat', Nat.mod_eq_of_lt w.isLt]
    rfl
  simp only [ofWord, ofNat, List.nil_append, same]

theorem ofWord_four (w : BitVec 32) : ofWord 4 w =
    [⟨w.extractLsb' 24 8⟩, ⟨w.extractLsb' 16 8⟩, ⟨w.extractLsb' 8 8⟩, ⟨w.extractLsb' 0 8⟩] := by
  have digit (i : Nat) : (w.toNat / 2 ^ i).toUInt8 = ⟨w.extractLsb' i 8⟩ := by
    apply UInt8.toNat_inj.mp
    show _ = (w.extractLsb' i 8).toNat
    rw [Nat.toUInt8_eq, UInt8.toNat_ofNat', BitVec.extractLsb'_toNat, Nat.shiftRight_eq_div_pow]
  have first := digit 24
  have second := digit 16
  have third := digit 8
  have last := digit 0
  simp only [ofWord, ofNat, List.nil_append, List.cons_append, Nat.div_div_eq_div_mul,
    Nat.reduceMul]
  simp only [Nat.reducePow, Nat.div_one] at first second third last
  rw [first, second, third, last]

variable {d s t : Bytes} {o n : Nat}

/-- The word that comes first from an offset on is read there. -/
theorem word_of_start {w : BitVec (8 * n)} (spelled : ofWord n w ++ s <+: d.drop o) :
    d.word n o = w ∧ s <+: d.drop (o + n) := by
  obtain ⟨rest, spelled⟩ := spelled
  rw [List.append_assoc] at spelled
  have here : (d.drop o).take n = ofWord n w := by
    rw [← spelled]
    exact List.take_left' (length_ofWord n w)
  constructor
  · rcases Nat.eq_zero_or_pos n with rfl | positive
    · exact BitVec.eq_of_toNat_eq (by omega)
    · have fits : o + n ≤ d.length := by
        have length := congrArg List.length here
        rw [List.length_take, List.length_drop, length_ofWord] at length
        omega
      rw [word, word?, slice?, if_pos fits, here]
      apply BitVec.eq_of_toNat_eq
      show (BitVec.ofNat (8 * n) (toNat (ofNat n w.toNat))).toNat = w.toNat
      rw [BitVec.toNat_ofNat, toNat_ofNat, Nat.mod_mod, Nat.mod_eq_of_lt w.isLt]
  · rw [← List.drop_drop, ← spelled, List.drop_left' (length_ofWord n w)]
    exact List.prefix_append s rest

theorem skip_of_start (spelled : s ++ t <+: d.drop o) : t <+: d.drop (o + s.length) := by
  obtain ⟨rest, spelled⟩ := spelled
  rw [← List.drop_drop, ← spelled, List.append_assoc, List.drop_left]
  exact List.prefix_append t rest

theorem byte_of_start {w : BitVec 8} (spelled : ofWord 1 w ++ s <+: d.drop o) :
    d.byte o = w ∧ s <+: d.drop (o + 1) := by
  refine ⟨?_, (word_of_start spelled).2⟩
  obtain ⟨rest, spelled⟩ := spelled
  have here : d[o]? = some ⟨w⟩ := by
    rw [← Nat.add_zero o, ← List.getElem?_drop, ← spelled, ofWord_one]
    rfl
  rw [byte, here]
  rfl

theorem length_of_start (spelled : s <+: d.drop o) (filled : s ≠ []) :
    o + s.length ≤ d.length := by
  have positive : 0 < s.length := List.length_pos_iff.mpr filled
  have length := spelled.length_le
  rw [List.length_drop] at length
  omega

end Bytes

end FlowSwitch
