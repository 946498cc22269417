import FlowSwitch.Proofs.Packet.Edits
import Mathlib.Algebra.BigOperators.Intervals
import Mathlib.Algebra.BigOperators.Ring.Finset
import Mathlib.Data.ZMod.Basic
import Mathlib.Tactic.LinearCombination
import Mathlib.Tactic.Ring

/-!
# Residues of checksums

A checksum is known modulo 65535 by the residue of what it covers. The residue of some bytes is
their sum with a weight for each position. An edit keeps it when the checksums that follow weigh
as much as the word that changed.
-/

namespace FlowSwitch

namespace Checksum

theorem fold_mod (acc : Nat) : fold acc % 0xffff = acc % 0xffff := by
  unfold fold
  omega

theorem fold_pos {acc : Nat} (positive : 0 < acc) : 0 < fold acc := by
  unfold fold
  omega

/-- The sum of two words folds to a word. -/
theorem fold_le_word {acc : Nat} (small : acc ≤ 0xffff + 0xffff) : fold acc ≤ 0xffff := by
  unfold fold
  omega

theorem fold_fold (acc : Nat) (small : acc < 2 ^ 32) :
    fold (fold acc) ≤ 0xffff ∧ fold (fold acc) % 0xffff = acc % 0xffff := by
  unfold fold
  omega

/-- Folding twice leaves the residue between 1 and 65535, and only zero becomes zero. -/
theorem fold_fold_eq {acc : Nat} (small : acc < 2 ^ 32) :
    fold (fold acc) = if acc = 0 then 0 else (acc - 1) % 0xffff + 1 := by
  unfold fold
  split <;> omega

theorem toNat_finish (acc : Nat) (small : acc < 2 ^ 32) :
    (finish acc).toNat = 0xffff - fold (fold acc) := by
  have below := (fold_fold acc small).1
  rw [finish, BitVec.toNat_not, BitVec.toNat_ofNat]
  omega

theorem toNat_update (c old new : BitVec 16) :
    ((update c old new).toNat + new.toNat) % 0xffff = (c.toNat + old.toNat) % 0xffff := by
  have inverted (v : BitVec 16) : (~~~v).toNat = 0xffff - v.toNat := BitVec.toNat_not
  have first := c.isLt
  have second := old.isLt
  have third := new.isLt
  have small : (~~~c).toNat + (~~~old).toNat + new.toNat < 2 ^ 32 := by
    rw [inverted, inverted]
    omega
  obtain ⟨below, residue⟩ := fold_fold _ small
  rw [update, toNat_finish _ small]
  rw [inverted, inverted] at *
  omega

/-- A checksum that follows a word changes by as much, the other way. -/
theorem update_residue (c old new : BitVec 16) :
    ((update c old new).toNat : ZMod 65535) = c.toNat + (old.toNat - new.toNat) := by
  have same := (ZMod.natCast_eq_natCast_iff' _ _ 65535).mpr (toNat_update c old new)
  push_cast at same
  linear_combination same

/-! ## Blocks that verify -/

theorem sumFrom_lt {acc : Nat} (small : acc ≤ 0xffff) (d : Bytes) :
    sumFrom acc d < 2 ^ 17 := by
  fun_induction sumFrom acc d with
  | case1 acc hi lo rest ih =>
    have high := hi.toNat_lt
    have low := lo.toNat_lt
    exact ih (fold_le_word (by omega))
  | case2 acc last =>
    have high := last.toNat_lt
    omega
  | case3 acc => omega

theorem sum_lt (d : Bytes) : sum d < 2 ^ 17 := sumFrom_lt (Nat.zero_le _) d

theorem sumFrom_pos {acc : Nat} (positive : 0 < acc) (d : Bytes) : 0 < sumFrom acc d := by
  fun_induction sumFrom acc d with
  | case1 acc hi lo rest ih => exact ih (fold_pos (by omega))
  | case2 acc last => omega
  | case3 acc => exact positive

theorem sum_pos {d : Bytes} {first : UInt8} (starts : d[0]? = some first) (filled : first ≠ 0) :
    0 < sum d := by
  have positive : 0 < first.toNat :=
    Nat.pos_of_ne_zero fun zero => filled (UInt8.toNat_inj.mp zero)
  match d, starts with
  | [_], rfl =>
    show 0 < 0 + first.toNat * 256
    omega
  | _ :: lo :: rest, rfl =>
    have summed : 0 < 0 + (first.toNat * 256 + lo.toNat) := by omega
    exact sumFrom_pos (fold_pos summed) rest

theorem verify_iff (d : Bytes) : verify d = true ↔ 0 < sum d ∧ sum d % 0xffff = 0 := by
  have small : sum d < 2 ^ 32 := Nat.lt_trans (sum_lt d) (by decide)
  have folded : (finish (sum d) = 0) ↔ fold (fold (sum d)) = 0xffff := by
    rw [← BitVec.toNat_inj, toNat_finish _ small]
    have below := (fold_fold _ small).1
    show 0xffff - fold (fold (sum d)) = 0 ↔ _
    omega
  rw [verify, checksum, beq_iff_eq, folded]
  unfold fold
  omega

/-- Blocks that start with a byte other than zero verify alike when their sums agree. -/
theorem verify_congr {d d' : Bytes} (positive : 0 < sum d) (positive' : 0 < sum d')
    (same : sum d' % 0xffff = sum d % 0xffff) : verify d' = verify d := by
  rw [Bool.eq_iff_iff, verify_iff, verify_iff, same]
  exact ⟨fun all => ⟨positive, all.2⟩, fun all => ⟨positive', all.2⟩⟩

end Checksum

namespace Bytes

open Finset

/-- The sum of the bytes of `d`, each with the weight of its position. -/
def weigh (w : Nat → ZMod 65535) (d : Bytes) : ZMod 65535 :=
  ∑ i ∈ range d.length, w i * (d.byte i).toNat

variable {w : Nat → ZMod 65535} {d d' : Bytes} {o : Nat}

theorem byte_congr {i : Nat} (same : d'[i]? = d[i]?) : d'.byte i = d.byte i := by
  rw [byte, byte, same]

theorem weigh_congr (length : d'.length = d.length)
    (same : ∀ i, w i ≠ 0 → d'[i]? = d[i]?) : weigh w d' = weigh w d := by
  rw [weigh, weigh, length]
  refine sum_congr rfl fun i _ => ?_
  by_cases light : w i = 0
  · rw [light, zero_mul, zero_mul]
  · rw [byte_congr (same i light)]

/-- The two bytes of a word weigh what a word of the sum does. -/
def Level (w : Nat → ZMod 65535) (o : Nat) : Prop := w o = 256 * w (o + 1)

theorem byte_setWord {old new : BitVec 16} (there : d.word? 2 o = some old) (i : Nat) :
    (((d.setWord o new).byte i).toNat : ZMod 65535) = (d.byte i).toNat
      + (if i = o then ((high new).toNat - (high old).toNat : ZMod 65535) else 0)
      + (if i = o + 1 then ((low new).toNat - (low old).toNat : ZMod 65535) else 0) := by
  have fits := word?_fits there
  rw [word?_two] at there
  obtain ⟨hi, first, rest⟩ := Option.bind_eq_some_iff.mp there
  obtain ⟨lo, second, rfl⟩ := Option.map_eq_some_iff.mp rest
  rw [high_append, low_append, byte, byte, getElem?_setWord fits]
  by_cases here : i = o
  · subst here
    simp [first]
  · by_cases next : i = o + 1
    · subst next
      simp [second]
    · simp [here, next]

theorem weigh_setWord {old new : BitVec 16} (there : d.word? 2 o = some old) (level : Level w o) :
    weigh w (d.setWord o new) = weigh w d + w (o + 1) * (new.toNat - old.toNat) := by
  have fits := word?_fits there
  have spelled (v : BitVec 16) :
      (v.toNat : ZMod 65535) = 256 * (high v).toNat + (low v).toNat := by
    have whole : v.toNat = 256 * (high v).toNat + (low v).toNat := by
      rw [toNat_high, toNat_low]
      omega
    rw [whole]
    push_cast
    rfl
  have level : w o = 256 * w (o + 1) := level
  simp only [weigh, length_setWord, byte_setWord there, mul_add, sum_add_distrib, mul_ite, mul_zero,
    sum_ite_eq', mem_range]
  rw [if_pos (by omega), if_pos (by omega), spelled new, spelled old, level]
  ring

end Bytes

namespace FieldWrite

open Bytes (Level weigh)

variable {w : Nat → ZMod 65535} {d : Bytes} {old new : BitVec 16}

theorem weigh_follow {p : Nat} (fits : p + 2 ≤ d.length) (level : Level w p) :
    weigh w (follow old new d p) = weigh w d + w (p + 1) * (old.toNat - new.toNat) := by
  obtain ⟨c, there⟩ := Option.isSome_iff_exists.mp (Bytes.word?_isSome.mpr fits)
  rw [follow, there]
  dsimp only
  rw [Bytes.weigh_setWord there level, Checksum.update_residue]
  ring

theorem weigh_adjust {sums : List Nat} (fits : ∀ p ∈ sums, p + 2 ≤ d.length)
    (level : ∀ p ∈ sums, Level w p) :
    weigh w (adjust sums old new d) =
      weigh w d + (sums.map fun p => w (p + 1)).sum * (old.toNat - new.toNat) := by
  rw [adjust_eq]
  induction sums generalizing d with
  | nil => simp
  | cons p sums ih =>
    obtain ⟨here, fits⟩ := List.forall_mem_cons.mp fits
    obtain ⟨first, level⟩ := List.forall_mem_cons.mp level
    rw [List.foldl_cons, ih (by simpa using fits) level, weigh_follow here first, List.map_cons,
      List.sum_cons]
    ring

end FieldWrite

namespace Edit

open Bytes (Level weigh)

/-- The checksums of an edit weigh as much as its word. -/
structure Balanced (w : Nat → ZMod 65535) (n : Nat) (e : Edit) : Prop where
  level : Level w e.place
  fits : ∀ p ∈ e.sums, p + 2 ≤ n
  levels : ∀ p ∈ e.sums, Level w p
  even : (e.sums.map fun p => w (p + 1)).sum = w (e.place + 1)

variable {w : Nat → ZMod 65535} {d : Bytes} {e : Edit}

theorem weigh_apply (balanced : e.Balanced w d.length) : weigh w (apply d e) = weigh w d := by
  unfold apply
  split
  · rename_i old there
    split
    · rfl
    · rw [FieldWrite.weigh_adjust (by simpa using balanced.fits) balanced.levels, balanced.even,
        Bytes.weigh_setWord there balanced.level]
      ring
  · rfl

theorem weigh_foldl {es : List Edit} (balanced : ∀ e ∈ es, e.Balanced w d.length) :
    weigh w (es.foldl apply d) = weigh w d := by
  induction es generalizing d with
  | nil => rfl
  | cons e es ih =>
    obtain ⟨first, rest⟩ := List.forall_mem_cons.mp balanced
    rw [List.foldl_cons, ih (by simpa using rest), weigh_apply first]

end Edit

/-! ## Sums of words as weights -/

namespace Bytes

open Finset

variable {w : Nat → ZMod 65535} {d : Bytes}

theorem weigh_append (w : Nat → ZMod 65535) (d d' : Bytes) :
    weigh w (d ++ d') = weigh w d + weigh (fun i => w (d.length + i)) d' := by
  rw [weigh, List.length_append, sum_range_add]
  congr 1
  · refine sum_congr rfl fun i inside => ?_
    rw [byte, byte, List.getElem?_append_left (mem_range.mp inside)]
  · refine sum_congr rfl fun i _ => ?_
    rw [byte, byte, List.getElem?_append_right (Nat.le_add_right ..), Nat.add_sub_cancel_left]

theorem weigh_weights {w' : Nat → ZMod 65535} (same : ∀ i < d.length, w i = w' i) :
    weigh w d = weigh w' d :=
  sum_congr rfl fun i inside => by rw [same i (mem_range.mp inside)]

theorem weigh_zero (light : ∀ i < d.length, w i = 0) : weigh w d = 0 :=
  sum_eq_zero fun i inside => by rw [light i (mem_range.mp inside), zero_mul]

/-- The weights of bytes that are taken for words. -/
def alternate (i : Nat) : ZMod 65535 := if i % 2 = 0 then 256 else 1

theorem alternate_two (i : Nat) : alternate (2 + i) = alternate i := by
  simp only [alternate, Nat.add_mod_left]

theorem sumFrom_residue (acc : Nat) (d : Bytes) :
    ((Checksum.sumFrom acc d : Nat) : ZMod 65535) = acc + weigh alternate d := by
  fun_induction Checksum.sumFrom acc d with
  | case1 acc hi lo rest ih =>
    have folded (n : Nat) : ((Checksum.fold n : Nat) : ZMod 65535) = n :=
      (ZMod.natCast_eq_natCast_iff' _ _ 65535).mpr (Checksum.fold_mod n)
    have shifted : (fun i => alternate ([hi, lo].length + i)) = alternate := funext alternate_two
    have two : weigh alternate [hi, lo] = 256 * hi.toNat + lo.toNat := by
      simp [weigh, sum_range_succ, alternate, byte]
    rw [ih, folded, show hi :: lo :: rest = [hi, lo] ++ rest from rfl, weigh_append, shifted, two]
    push_cast
    ring
  | case2 acc last =>
    have one : weigh alternate [last] = 256 * last.toNat := by
      simp [weigh, alternate, byte]
    rw [one]
    push_cast
    ring
  | case3 acc => simp [weigh]

/-- The weights of the words from `start` to `stop`. -/
def span (start stop i : Nat) : ZMod 65535 :=
  if start ≤ i ∧ i < stop then alternate (i - start) else 0

theorem sum_residue {start stop : Nat} (ordered : start ≤ stop) (fits : stop ≤ d.length) :
    ((Checksum.sum ((d.drop start).take (stop - start)) : Nat) : ZMod 65535) =
      weigh (span start stop) d := by
  have parts : d = d.take start ++ ((d.drop start).take (stop - start) ++ d.drop stop) := by
    have rest : d.drop stop = (d.drop start).drop (stop - start) := by
      rw [List.drop_drop, Nat.add_sub_cancel' ordered]
    rw [rest, List.take_append_drop, List.take_append_drop]
  have before : (d.take start).length = start := by
    rw [List.length_take]
    omega
  have inner : ((d.drop start).take (stop - start)).length = stop - start := by
    rw [List.length_take, List.length_drop]
    omega
  have outside : weigh (span start stop) (d.take start) = 0 := weigh_zero fun i below => by
    rw [span, if_neg (by omega)]
  have beyond : weigh (fun i => span start stop (start + (stop - start + i))) (d.drop stop) = 0 :=
    weigh_zero fun i _ => by rw [span, if_neg (by omega)]
  have inside : weigh (fun i => span start stop (start + i)) ((d.drop start).take (stop - start))
      = weigh alternate ((d.drop start).take (stop - start)) := weigh_weights fun i below => by
    rw [span, if_pos (by omega), Nat.add_sub_cancel_left]
  rw [Checksum.sum, sumFrom_residue]
  conv_rhs => rw [parts]
  rw [weigh_append, weigh_append, before, inner, outside, inside, beyond]
  push_cast
  ring

/-- The words of two stretches that meet after whole words. -/
theorem weigh_span_add {start middle stop : Nat} (words : ∃ k, middle = start + 2 * k)
    (ordered : middle ≤ stop) (d : Bytes) :
    weigh (span start middle) d + weigh (span middle stop) d = weigh (span start stop) d := by
  obtain ⟨k, rfl⟩ := words
  rw [weigh, weigh, weigh, ← sum_add_distrib]
  refine sum_congr rfl fun i _ => ?_
  rw [← add_mul]
  congr 1
  unfold span
  by_cases before : i < start + 2 * k
  · rw [if_neg (show ¬(start + 2 * k ≤ i ∧ i < stop) by omega), add_zero]
    by_cases inside : start ≤ i
    · rw [if_pos (by omega), if_pos (by omega)]
    · rw [if_neg (by omega), if_neg (by omega)]
  · rw [if_neg (show ¬(start ≤ i ∧ i < start + 2 * k) by omega), zero_add]
    by_cases inside : i < stop
    · have parity : (i - (start + 2 * k)) % 2 = (i - start) % 2 := by omega
      rw [if_pos (by omega), if_pos (by omega), alternate, alternate]
      simp only [parity]
    · rw [if_neg (by omega), if_neg (by omega)]

end Bytes

end FlowSwitch
