import FlowSwitch.Proofs.Packet.Access
import FlowSwitch.Proofs.Packet.Residue

/-!
# Checksums that follow a change

A checksum that follows the change of a word is the checksum of the changed bytes, as long as
these are not all zero. Zero has two forms in one's complement, and the two ways to a checksum
part there: the sum of nothing but zeros is zero, while a sum that comes down to zero by a change
ends at 65535.
-/

namespace FlowSwitch

namespace Checksum

theorem fold_of_le {acc : Nat} (small : acc ≤ 0xffff) : fold acc = acc := by
  unfold fold
  omega

theorem fold_eq_zero_iff (acc : Nat) : fold acc = 0 ↔ acc = 0 := by
  unfold fold
  omega

/-- The sum of whole words, folded after each of them, is a word again. -/
theorem sumFrom_le_word {acc : Nat} (small : acc ≤ 0xffff) {d : Bytes}
    (words : d.length % 2 = 0) : sumFrom acc d ≤ 0xffff := by
  fun_induction sumFrom acc d with
  | case1 acc hi lo rest ih =>
    have high := hi.toNat_lt
    have low := lo.toNat_lt
    have words : rest.length % 2 = 0 := by
      simpa [Nat.add_assoc] using words
    exact ih (fold_le_word (by omega)) words
  | case2 acc last => cases words
  | case3 acc => exact small

/-- Folding loses nothing: a sum is zero only if all that was added is. -/
theorem sumFrom_eq_zero_iff (acc : Nat) (d : Bytes) :
    sumFrom acc d = 0 ↔ acc = 0 ∧ ∀ b ∈ d, b = 0 := by
  have zero (b : UInt8) : b = 0 ↔ b.toNat = 0 := UInt8.toNat_inj.symm
  fun_induction sumFrom acc d with
  | case1 acc hi lo rest ih =>
    refine ih.trans ?_
    rw [fold_eq_zero_iff, List.forall_mem_cons, List.forall_mem_cons, zero hi, zero lo]
    constructor
    · rintro ⟨none, all⟩
      exact ⟨by omega, by omega, by omega, all⟩
    · rintro ⟨none, high, low, all⟩
      exact ⟨by omega, all⟩
  | case2 acc last =>
    rw [List.forall_mem_singleton, zero last]
    omega
  | case3 acc => simp

theorem sum_eq_zero_iff (d : Bytes) : sum d = 0 ↔ ∀ b ∈ d, b = 0 := by
  rw [sum, sumFrom_eq_zero_iff]
  exact and_iff_right rfl

variable {d : Bytes} {i : Nat} {old : BitVec 16}

/-- The checksum of whole words is the complement of their sum. -/
theorem toNat_checksum (words : d.length % 2 = 0) : (checksum d).toNat = 0xffff - sum d := by
  have small : sum d ≤ 0xffff := sumFrom_le_word (Nat.zero_le _) words
  rw [checksum, toNat_finish _ (by omega), fold_of_le small, fold_of_le small]

theorem alternate_level (i : Nat) : Bytes.Level Bytes.alternate (2 * i) := by
  have even : 2 * i % 2 = 0 := by omega
  have odd : ¬(2 * i + 1) % 2 = 0 := by omega
  rw [Bytes.Level, Bytes.alternate, Bytes.alternate, if_pos even, if_neg odd, mul_one]

/-- A word that changes takes itself out of the sum and puts the new one in. -/
theorem sum_setWord (there : d.word? 2 (2 * i) = some old) (new : BitVec 16) :
    (sum (d.setWord (2 * i) new) + old.toNat) % 0xffff = (sum d + new.toNat) % 0xffff := by
  have odd : ¬(2 * i + 1) % 2 = 0 := by omega
  have one : Bytes.alternate (2 * i + 1) = 1 := if_neg odd
  apply (ZMod.natCast_eq_natCast_iff' _ _ 65535).mp
  push_cast
  rw [sum, sum, Bytes.sumFrom_residue, Bytes.sumFrom_residue,
    Bytes.weigh_setWord there (alternate_level i), one]
  ring

/-- A word of bytes that are all zero is zero. -/
theorem word_eq_zero (there : d.word? 2 (2 * i) = some old) (zeros : ∀ b ∈ d, b = 0) :
    old.toNat = 0 := by
  obtain ⟨first, second⟩ := Bytes.getElem?_of_word? there
  have high := congrArg UInt8.toNat (zeros _ (List.mem_of_getElem? first))
  have low := congrArg UInt8.toNat (zeros _ (List.mem_of_getElem? second))
  rw [Bytes.toNat_high] at high
  rw [Bytes.toNat_low] at low
  have none : (0 : UInt8).toNat = 0 := rfl
  omega

/-- A checksum that follows a word is the complement of a sum that is not zero: the sum before is
zero only where all bytes are, and there the word that is taken out is zero, too. -/
theorem update_complement (words : d.length % 2 = 0) (there : d.word? 2 (2 * i) = some old)
    (new : BitVec 16) : ∃ s, 0 < s ∧ s ≤ 0xffff ∧
      s % 0xffff = sum (d.setWord (2 * i) new) % 0xffff ∧
      (update (checksum d) old new).toNat = 0xffff - s := by
  have small : sum d ≤ 0xffff := sumFrom_le_word (Nat.zero_le _) words
  have followed := sum_setWord there new
  have before := old.isLt
  have after := new.isLt
  have inverted : (~~~checksum d).toNat + (~~~old).toNat + new.toNat
      = sum d + (0xffff - old.toNat) + new.toNat := by
    rw [BitVec.toNat_not, BitVec.toNat_not, toNat_checksum words]
    omega
  have positive : 0 < sum d + (0xffff - old.toNat) + new.toNat := by
    by_contra none
    have zeros := (sum_eq_zero_iff d).mp (by omega)
    have vanished := word_eq_zero there zeros
    omega
  obtain ⟨below, residue⟩ :=
    fold_fold (sum d + (0xffff - old.toNat) + new.toNat) (by omega)
  refine ⟨_, ?_, below, ?_, ?_⟩
  · rw [Nat.pos_iff_ne_zero, Ne, fold_eq_zero_iff, fold_eq_zero_iff]
    omega
  · omega
  · rw [update, inverted, toNat_finish _ (by omega)]

/-- Following the change of one word among whole words comes to the checksum of the changed bytes,
unless these are all zero: then following gives zero, and their checksum is 65535. -/
theorem update_eq_checksum (words : d.length % 2 = 0) (inside : 2 * i < d.length)
    (new : BitVec 16) :
    let changed := d.overwrite (2 * i) (Bytes.ofWord 2 new)
    let followed := update (checksum d) (d.word 2 (2 * i)) new
    ((∃ b ∈ changed, b ≠ 0) → followed = checksum changed) ∧
      ((∀ b ∈ changed, b = 0) → followed = 0x0000 ∧ checksum changed = 0xffff) := by
  intro changed followed
  have there : d.word? 2 (2 * i) = some (d.word 2 (2 * i)) := Bytes.word?_eq_word (by omega)
  have length : changed.length = d.length := Bytes.length_overwrite ..
  have words' : changed.length % 2 = 0 := by rw [length, words]
  have small : sum changed ≤ 0xffff := sumFrom_le_word (Nat.zero_le _) words'
  have recomputed := toNat_checksum words'
  obtain ⟨s, positive, below, residue, complement⟩ := update_complement words there new
  change s % 0xffff = sum changed % 0xffff at residue
  change followed.toNat = 0xffff - s at complement
  constructor
  · rintro ⟨b, among, filled⟩
    have some : sum changed ≠ 0 := fun none => filled ((sum_eq_zero_iff changed).mp none b among)
    apply BitVec.eq_of_toNat_eq
    rw [complement, recomputed]
    omega
  · intro zeros
    have none : sum changed = 0 := (sum_eq_zero_iff changed).mpr zeros
    constructor
    · apply BitVec.eq_of_toNat_eq
      rw [complement]
      show 0xffff - s = 0
      omega
    · apply BitVec.eq_of_toNat_eq
      rw [recomputed, none]
      rfl

/-- Changing the only word that is not zero out of four bytes, and taking it out. -/
theorem update_eq_checksum_vanished :
    [0x12, 0x34, 0, 0].length % 2 = 0 ∧ 2 * 0 < [0x12, 0x34, 0, 0].length ∧
      update (checksum [0x12, 0x34, 0, 0]) 0x1234 0x5678 = checksum [0x56, 0x78, 0, 0] ∧
      update (checksum [0x12, 0x34, 0, 0]) 0x1234 0 = 0x0000 ∧
      checksum [0, 0, 0, 0] = 0xffff := by
  have follows := @update_eq_checksum [0x12, 0x34, 0, 0] 0 rfl (by decide)
  have zeros : ∀ b ∈ List.replicate 4 (0 : UInt8), b = 0 := fun _ => List.eq_of_mem_replicate
  exact ⟨rfl, by decide, (follows 0x5678).1 ⟨0x56, .head _, by decide⟩, (follows 0).2 zeros⟩

end Checksum

end FlowSwitch
